import HttpServer.Bytes

/-! `utils::base64_encode`, with its accumulator in a 32-bit `int`. -/
namespace HttpServer.Utils

def lookupTable : Bytes :=
  text "ABCDEFGHIJKLMNOPQRSTUVWXYZabcdefghijklmnopqrstuvwxyz0123456789+/"

/-- `lookup[v & 0x3F]`. -/
def lookup (v : BitVec 32) : UInt8 := lookupTable.getD (v &&& 0x3F).toNat 0

/-- The inner loop, `while (valb >= 0)`: six bits at a time. -/
def drain (val : BitVec 32) : Nat → Int → Bytes → Int × Bytes
  | 0, valb, out => (valb, out)
  | fuel + 1, valb, out =>
    if 0 ≤ valb then drain val fuel (valb - 6) (out ++ [lookup (val.sshiftRight valb.toNat)])
    else (valb, out)

structure Encoder where
  val : BitVec 32 := 0
  valb : Int := -6
  out : Bytes := []

/-- One byte of the input; each round of the inner loop takes six off `valb`. -/
def Encoder.push (e : Encoder) (c : UInt8) : Encoder :=
  let val := (e.val <<< 8) + BitVec.ofNat 32 c.toNat
  let (valb, out) := drain val (e.valb + 8 + 1).toNat (e.valb + 8) e.out
  {val := val, valb := valb, out := out}

/-- `while (out.size() % 4) out.push_back('=')`. -/
def pad (out : Bytes) : Bytes := out ++ List.replicate ((4 - out.length % 4) % 4) (ch '=')

def base64Encode (input : Bytes) : Bytes :=
  let e := input.foldl Encoder.push {}
  if -6 < e.valb then
    pad (e.out ++ [lookup ((e.val <<< 8).sshiftRight (e.valb + 8).toNat)])
  else pad e.out

example : base64Encode (text "Many") = text "TWFueQ==" := by decide

/-- A letter, a digit, a plus, a slash or the padding. -/
def Base64Byte (c : UInt8) : Prop := c ∈ lookupTable ∨ c = ch '='

end HttpServer.Utils
