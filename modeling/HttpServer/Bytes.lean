import Mathlib.Tactic.Common
import HttpServer.Lib.Search

/-! Byte strings, and the ways a call on one can fail.

A `std::string` or `std::string_view` is the list of its bytes. `substr` throws
behind the end of its string; what a function can run into otherwise is listed
in `Fault`. -/
namespace HttpServer
open Lib.Search (findFrom)

abbrev Bytes := List UInt8

/-- The byte of an ASCII character. -/
def ch (c : Char) : UInt8 := c.toNat.toUInt8

/-- The bytes of an ASCII text. -/
def text (s : String) : Bytes := s.toList.map ch

def crlf : Bytes := [ch '\r', ch '\n']

/-- A literal is a list of characters: what is decided of that list needs no look at how
the literal is stored. -/
theorem text_ofList (l : List Char) : text (String.ofList l) = l.map ch := by
  rw [text, String.toList_ofList]

/-- What holds of every byte of a literal, found by going through its characters. -/
theorem every_char {p : UInt8 → Prop} [DecidablePred p] {l : List Char}
    (h : (l.all fun c => decide (p (ch c))) = true) : ∀ c ∈ text (String.ofList l), p c := by
  intro c hc
  rw [text_ofList] at hc
  obtain ⟨d, hd, rfl⟩ := List.mem_map.mp hc
  exact of_decide_eq_true (List.all_eq_true.mp h d hd)

/-- Literals of different characters. -/
theorem text_ne {l l' : List Char} (h : l.map ch ≠ l'.map ch) :
    text (String.ofList l) ≠ text (String.ofList l') := by
  rwa [text_ofList, text_ofList]

/-- What holds of every byte of a text, found by going through it. -/
theorem every {p : UInt8 → Prop} [DecidablePred p] {b : Bytes}
    (h : (b.all fun c => decide (p c)) = true) : ∀ c ∈ b, p c :=
  fun c hc => of_decide_eq_true (List.all_eq_true.mp h c hc)

/-- What holds of the 256 values of a byte. -/
theorem every_byte {p : UInt8 → Prop} (h : ∀ i : Fin 256, p (UInt8.ofFin i)) (b : UInt8) : p b :=
  h b.toFin

/-- What ends a call other than its result. -/
inductive Fault where
  /-- `std::out_of_range`. -/
  | outOfRange
  /-- `std::bad_optional_access`. -/
  | badOptionalAccess
  /-- Behaviour the language leaves undefined: `end()` dereferenced, `back()` of nothing. -/
  | undefined
  /-- A loop of the model whose fuel ran out; no loop of the source does this. -/
  | outOfFuel
  deriving DecidableEq, Repr

/-- The exceptions a call can end with where it does more than take strings apart. -/
inductive Thrown where
  | fault (fault : Fault)
  /-- `std::invalid_argument`. -/
  | invalidArgument
  /-- `std::length_error`. -/
  | lengthError
  deriving DecidableEq, Repr

/-- Two steps that return: the first one does, and the second on what it returned. -/
theorem bind_eq_ok {ε α β : Type} {x : Except ε α} {f : α → Except ε β} {b : β}
    (h : (x >>= f) = .ok b) : ∃ a, x = .ok a ∧ f a = .ok b := by
  cases x with
  | error e => cases h
  | ok a => exact ⟨a, rfl, h⟩

/-- What a `std::string` or a `std::vector` of bytes can hold. -/
abbrev Buffer : Type := {b : Bytes // b.length < 9223372036854775808}

/-- Sums of a `size_t`. -/
def sizeAdd (a b : Nat) : Nat := (a + b) % 18446744073709551616

/-- `s.substr(pos, n)`. -/
def substr (s : Bytes) (pos n : Nat) : Except Fault Bytes :=
  if pos ≤ s.length then .ok ((s.drop pos).take n) else .error .outOfRange

/-- `s.substr(pos)`. -/
def substrFrom (s : Bytes) (pos : Nat) : Except Fault Bytes := substr s pos s.length

theorem substr_of_le {s : Bytes} {pos : Nat} (h : pos ≤ s.length) (n : Nat) :
    substr s pos n = .ok ((s.drop pos).take n) := by
  simp [substr, h]

theorem substrFrom_of_le {s : Bytes} {pos : Nat} (h : pos ≤ s.length) :
    substrFrom s pos = .ok (s.drop pos) := by
  rw [substrFrom, substr_of_le h, List.take_of_length_le (by simp)]

/-- A piece between two positions, both inside the string. -/
theorem substr_between {s u v : Bytes} {pos n : Nat} (hpos : pos ≤ s.length)
    (h : s.drop pos = u ++ v) (hn : n = u.length) : substr s pos n = .ok u := by
  rw [substr_of_le hpos, h, hn, List.take_left]

/-- The first `c` of a string at `pos` or behind it. -/
def findByte (c : UInt8) (s : Bytes) (pos : Nat) : Option Nat := findFrom [c] s pos

end HttpServer
