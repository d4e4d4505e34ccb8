import HttpServer.Bytes

/-! `utils::sha1`, on `uint32_t` words. -/
namespace HttpServer.Utils

def leftRotate (x n : UInt32) : UInt32 := (x <<< n) ||| (x >>> (32 - n))

/-! ### Padding -/

/-- `while (msg.size() % 64 != 56) msg.push_back(0)`; it ends within 64 rounds. -/
def pushZeros : Nat → Bytes → Bytes
  | 0, msg => msg
  | fuel + 1, msg => if msg.length % 64 ≠ 56 then pushZeros fuel (msg ++ [0]) else msg

/-- The length in bits, 64 bits wide, most significant byte first. -/
def bitLength (n : Nat) : Bytes :=
  let originalBitLen := n.toUInt64 * 8
  [56, 48, 40, 32, 24, 16, 8, 0].map fun i : UInt64 => (originalBitLen >>> i).toUInt8

def sha1Pad (input : Bytes) : Bytes :=
  pushZeros 64 (input ++ [0x80]) ++ bitLength input.length

/-! ### One block -/

/-- The working variables `h0` to `h4`, and `a` to `e` within a block. -/
structure Sha1State where
  a : UInt32
  b : UInt32
  c : UInt32
  d : UInt32
  e : UInt32

def Sha1State.start : Sha1State :=
  ⟨0x67452301, 0xEFCDAB89, 0x98BADCFE, 0x10325476, 0xC3D2E1F0⟩

/-- `w[i]` for the first sixteen words: four bytes of the block. -/
def blockWord (chunk : Bytes) (i : Nat) : UInt32 :=
  ((chunk.getD (i * 4) 0).toUInt32 <<< 24) ||| ((chunk.getD (i * 4 + 1) 0).toUInt32 <<< 16) |||
    ((chunk.getD (i * 4 + 2) 0).toUInt32 <<< 8) ||| (chunk.getD (i * 4 + 3) 0).toUInt32

/-- `w[i]` from the words before it. -/
def extendWord (w : List UInt32) (i : Nat) : UInt32 :=
  leftRotate (w.getD (i - 3) 0 ^^^ w.getD (i - 8) 0 ^^^ w.getD (i - 14) 0 ^^^ w.getD (i - 16) 0) 1

def schedule (chunk : Bytes) : List UInt32 :=
  (List.range' 16 64).foldl (fun w i => w ++ [extendWord w i])
    ((List.range 16).map (blockWord chunk))

/-- The round function and constant of round `i`. -/
def roundMix (i : Nat) (b c d : UInt32) : UInt32 × UInt32 :=
  if i < 20 then ((b &&& c) ||| (~~~b &&& d), 0x5A827999)
  else if i < 40 then (b ^^^ c ^^^ d, 0x6ED9EBA1)
  else if i < 60 then ((b &&& c) ||| (b &&& d) ||| (c &&& d), 0x8F1BBCDC)
  else (b ^^^ c ^^^ d, 0xCA62C1D6)

def sha1Round (w : List UInt32) (s : Sha1State) (i : Nat) : Sha1State :=
  let (f, k) := roundMix i s.b s.c s.d
  let temp := leftRotate s.a 5 + f + s.e + k + w.getD i 0
  ⟨temp, s.a, leftRotate s.b 30, s.c, s.d⟩

def sha1Block (h : Sha1State) (chunk : Bytes) : Sha1State :=
  let s := (List.range 80).foldl (sha1Round (schedule chunk)) h
  ⟨h.a + s.a, h.b + s.b, h.c + s.c, h.d + s.d, h.e + s.e⟩

/-! ### The digest -/

/-- A word as four bytes, most significant first. -/
def wordBytes (h : UInt32) : Bytes := [24, 16, 8, 0].map fun i : UInt32 => (h >>> i).toUInt8

/-- The blocks in order; `offset` runs to the message's length in steps of 64. -/
def sha1Blocks (msg : Bytes) : Nat → Nat → Sha1State → Sha1State
  | 0, _, h => h
  | fuel + 1, offset, h =>
    if offset < msg.length then
      sha1Blocks msg fuel (offset + 64) (sha1Block h ((msg.drop offset).take 64))
    else h

def sha1 (input : Bytes) : Bytes :=
  let msg := sha1Pad input
  let h := sha1Blocks msg msg.length 0 Sha1State.start
  wordBytes h.a ++ wordBytes h.b ++ wordBytes h.c ++ wordBytes h.d ++ wordBytes h.e

end HttpServer.Utils
