import HttpServer.Bytes

/-! `utils::urlDecode` and the library calls behind it. -/
namespace HttpServer.Utils

/-- `isspace` in the C locale. -/
def isSpace (c : UInt8) : Bool := c == ch ' ' || (9 ≤ c && c ≤ 13)

/-- The value of a hexadecimal digit of either case. -/
def hexDigit? (c : UInt8) : Option Nat :=
  if ch '0' ≤ c ∧ c ≤ ch '9' then some (c - ch '0').toNat
  else if ch 'a' ≤ c ∧ c ≤ ch 'f' then some ((c - ch 'a').toNat + 10)
  else if ch 'A' ≤ c ∧ c ≤ ch 'F' then some ((c - ch 'A').toNat + 10)
  else none

/-- The hexadecimal number a string starts with, zero where there is none. -/
def hexPrefix (s : Bytes) : Nat :=
  (s.takeWhile fun c => (hexDigit? c).isSome).foldl (fun n c => 16 * n + (hexDigit? c).getD 0) 0

/-- An optional `0x` in front of a hexadecimal digit. -/
def skipHexPrefix : Bytes → Bytes
  | z :: x :: d :: rest =>
    if z = ch '0' ∧ (x = ch 'x' ∨ x = ch 'X') ∧ (hexDigit? d).isSome then d :: rest
    else z :: x :: d :: rest
  | s => s

/-- `strtol(s, nullptr, 16)` of a string that a NUL may end early: white space, a
sign, `0x`, digits. The calls here pass two characters, so nothing overflows. -/
def strtol16 (s : Bytes) : Int :=
  match (s.takeWhile (· ≠ 0)).dropWhile isSpace with
  | [] => 0
  | c :: rest =>
    if c = ch '-' then -(hexPrefix (skipHexPrefix rest) : Int)
    else if c = ch '+' then hexPrefix (skipHexPrefix rest)
    else hexPrefix (skipHexPrefix (c :: rest))

/-- A `long` narrowed to a `char`. -/
def toByte (n : Int) : UInt8 := UInt8.ofNat (n % 256).toNat

/-- A byte outside an escape: a plus stands for a space. -/
def plusToSpace (c : UInt8) : UInt8 := if c = ch '+' then ch ' ' else c

/-- A percent sign with two more bytes behind it takes them as its escape,
whatever they are. -/
def urlDecode : Bytes → Bytes
  | [] => []
  | c :: a :: b :: rest =>
    if c = ch '%' then toByte (strtol16 [a, b]) :: urlDecode rest
    else plusToSpace c :: urlDecode (a :: b :: rest)
  | c :: rest => plusToSpace c :: urlDecode rest

example : urlDecode (text "hello%20world+%2B%2") = text "hello world +%2" := by decide

end HttpServer.Utils
