import Mathlib.Data.List.DropRight
import HttpServer.Lib.Digits
import HttpServer.Utils.File
import HttpServer.Utils.Url

/-! What `utils` and the standard library read out of a piece of text: `trim`, the size
line of a chunk, a decimal number. -/
namespace HttpServer.Utils
open Lib

/-- A space, a tab or a line break. -/
def isBlank (c : UInt8) : Bool :=
  c == ch ' ' || c == ch '\t' || c == ch '\r' || c == ch '\n'

/-- From the first byte that is not blank to the last. -/
def trim (str : Bytes) : Bytes := (str.dropWhile isBlank).rdropWhile isBlank

theorem isBlank_eq_false {c : UInt8} :
    isBlank c = false ↔ c ≠ ch ' ' ∧ c ≠ ch '\t' ∧ c ≠ ch '\r' ∧ c ≠ ch '\n' := by
  simp [isBlank, and_assoc]

theorem dropWhile_blank {s : Bytes} (h : ∀ c, s.head? = some c → isBlank c = false) :
    s.dropWhile isBlank = s := by
  cases s with
  | nil => rfl
  | cons c s => exact List.dropWhile_cons_of_neg (by simp [h c rfl])

/-- Blanks on either side go, what they surround stays. -/
theorem trim_padded {front core back : Bytes} (hfront : ∀ c ∈ front, isBlank c = true)
    (hback : ∀ c ∈ back, isBlank c = true)
    (hends : ∀ c, core.head? = some c ∨ core.getLast? = some c → isBlank c = false) :
    trim (front ++ (core ++ back)) = core := by
  have hstart : (front ++ (core ++ back)).dropWhile isBlank =
      if core = [] then [] else core ++ back := by
    rw [List.dropWhile_append_of_pos hfront]
    split
    · next hnil =>
      rw [hnil, List.nil_append]
      exact List.dropWhile_eq_nil_iff.mpr hback
    · next hne =>
      apply dropWhile_blank
      intro c hc
      rw [List.head?_append_of_ne_nil _ hne] at hc
      exact hends c (.inl hc)
  have hend : (core ++ back).rdropWhile isBlank = core := by
    rw [List.rdropWhile, List.reverse_append, List.dropWhile_append_of_pos, dropWhile_blank,
      List.reverse_reverse]
    · intro c hc
      rw [List.head?_reverse] at hc
      exact hends c (.inr hc)
    · exact fun c hc => hback c (List.mem_reverse.mp hc)
  rw [trim, hstart]
  split
  · next hnil => rw [hnil, List.rdropWhile_nil]
  · exact hend

/-! ### Hexadecimal sizes -/

def parseHexLoop : UInt64 → Bytes → Option UInt64
  | out, [] => some out
  | out, c :: s =>
    match hexDigit? c with
    | none => none
    | some d => parseHexLoop ((out <<< 4) + UInt64.ofNat d) s

/-- `parseHexSize`: the size, which is 0 for an empty string, or nothing where it
returns false. -/
def parseHexSize (s : Bytes) : Option UInt64 := parseHexLoop 0 s

theorem hexDigit_charset : ∀ k < 16, hexDigit? (hexCharset.getD k 0) = some k := by
  decide

theorem low_digit (n : UInt64) : (n &&& 15).toNat = n.toNat % 16 := by
  rw [UInt64.toNat_and]
  exact Nat.and_two_pow_sub_one_eq_mod n.toNat 4

theorem high_digits (n : UInt64) : (n >>> 4).toNat = n.toNat / 16 := by
  rw [UInt64.toNat_shiftRight]
  exact Nat.shiftRight_eq_div_pow n.toNat 4

/-- A number is its last digit and what stands before it. -/
theorem shift_add_digit (n : UInt64) :
    ((n >>> 4) <<< 4) + UInt64.ofNat (n &&& 15).toNat = n := by
  have hlt := n.toNat_lt
  have hshift : ((n >>> 4) <<< 4).toNat = n.toNat / 16 * 16 := by
    rw [UInt64.toNat_shiftLeft, high_digits]
    show (n.toNat / 16) <<< 4 % 18446744073709551616 = n.toNat / 16 * 16
    rw [Nat.shiftLeft_eq]
    omega
  apply UInt64.toNat_inj.mp
  rw [UInt64.ofNat_toNat, UInt64.toNat_add, hshift, low_digit]
  omega

/-- The digits are read from the first on, though they are written from the last. -/
theorem parseHexLoop_hexLoop (fuel : Nat) (n : UInt64) (ret : Bytes)
    (hfuel : n.toNat < 16 ^ fuel) :
    parseHexLoop 0 (hexLoop fuel n ret) = parseHexLoop n ret := by
  induction fuel generalizing n ret with
  | zero =>
    rw [Nat.pow_zero] at hfuel
    have hzero : n = 0 := UInt64.toNat_inj.mp (show n.toNat = 0 by omega)
    rw [hzero]
    rfl
  | succ fuel ih =>
    have hdigit : hexDigit? (hexCharset.getD (n &&& 15).toNat 0) = some (n &&& 15).toNat :=
      hexDigit_charset _ (by rw [low_digit]; omega)
    have hlast : parseHexLoop (n >>> 4) (hexCharset.getD (n &&& 15).toNat 0 :: ret) =
        parseHexLoop n ret := by
      rw [parseHexLoop, hdigit]
      simp only
      rw [shift_add_digit]
    unfold hexLoop
    simp only
    split
    · rw [ih, hlast]
      rw [high_digits]
      rw [Nat.pow_succ] at hfuel
      omega
    · next hzero =>
      have hnone : n >>> 4 = 0 := by
        apply UInt64.toNat_inj.mp
        have hnot : ¬ (0 : UInt64).toNat < (n >>> 4).toNat := hzero
        show (n >>> 4).toNat = 0
        exact Nat.eq_zero_of_not_pos hnot
      rw [← hlast, hnone]

theorem parseHexSize_fromIntToHex (n : UInt64) : parseHexSize (fromIntToHex n) = some n :=
  parseHexLoop_hexLoop 16 n [] n.toNat_lt

/-- The number some hexadecimal digits stand for, however long it is; nothing where
another byte is among them. -/
def hexValue (s : Bytes) : Option Nat :=
  s.foldlM (fun n c => (hexDigit? c).map (n * 16 + ·)) 0

/-- The last digit is added to what the others were worth, shifted. -/
theorem shift_add_ofNat (n d : Nat) :
    (UInt64.ofNat n <<< 4) + UInt64.ofNat d = UInt64.ofNat (n * 16 + d) := by
  have hshift : (UInt64.ofNat n <<< 4).toNat = n % 18446744073709551616 * 16 %
      18446744073709551616 := by
    rw [UInt64.toNat_shiftLeft]
    show (n % 18446744073709551616) <<< 4 % 18446744073709551616 = _
    rw [Nat.shiftLeft_eq]
  apply UInt64.toNat_inj.mp
  rw [UInt64.toNat_add, hshift]
  show (n % 18446744073709551616 * 16 % 18446744073709551616 + d % 18446744073709551616) %
    18446744073709551616 = (n * 16 + d) % 18446744073709551616
  omega

theorem parseHexLoop_eq (n : Nat) (s : Bytes) :
    parseHexLoop (UInt64.ofNat n) s =
      (s.foldlM (fun n c => (hexDigit? c).map (n * 16 + ·)) n).map UInt64.ofNat := by
  induction s generalizing n with
  | nil => rfl
  | cons c s ih =>
    rw [parseHexLoop, List.foldlM_cons]
    cases hd : hexDigit? c with
    | none => rfl
    | some d =>
      simp only [Option.map_some, Option.bind_eq_bind, Option.bind_some]
      rw [shift_add_ofNat, ih]

/-- A size is read modulo 2^64. -/
theorem parseHexSize_eq (s : Bytes) : parseHexSize s = (hexValue s).map UInt64.ofNat :=
  parseHexLoop_eq 0 s

theorem hexValue_digits {s : Bytes} {n : Nat} (h : hexValue s = some n) :
    ∀ c ∈ s, (hexDigit? c).isSome := by
  suffices hfold : ∀ (s : Bytes) (m : Nat),
      s.foldlM (fun n c => (hexDigit? c).map (n * 16 + ·)) m = some n →
        ∀ c ∈ s, (hexDigit? c).isSome from hfold s 0 h
  intro s
  induction s with
  | nil => exact fun m _ c hc => absurd hc List.not_mem_nil
  | cons b s ih =>
    intro m hm c hc
    rw [List.foldlM_cons] at hm
    cases hd : hexDigit? b with
    | none =>
      rw [hd] at hm
      cases hm
    | some d =>
      rw [hd] at hm
      rcases List.mem_cons.mp hc with rfl | hc
      · rw [hd]
        rfl
      · exact ih _ hm c hc

/-- A size line holds no line break. -/
theorem hexValue_no_break {s : Bytes} {n : Nat} (h : hexValue s = some n) : ch '\r' ∉ s :=
  fun hc => absurd (hexValue_digits h _ hc) (by decide)

theorem hexLoop_charset (fuel : Nat) (n : UInt64) (ret : Bytes) :
    ∀ c ∈ hexLoop fuel n ret, c ∈ hexCharset ∨ c ∈ ret := by
  induction fuel generalizing n ret with
  | zero => exact fun c hc => .inr hc
  | succ fuel ih =>
    have hlt : (n &&& 15).toNat < hexCharset.length := by
      rw [low_digit]
      exact Nat.mod_lt _ (by decide)
    have hdigit : hexCharset.getD (n &&& 15).toNat 0 ∈ hexCharset := by
      rw [List.getD_eq_getElem?_getD, List.getElem?_eq_getElem hlt]
      exact List.getElem_mem hlt
    have hcons : ∀ c ∈ hexCharset.getD (n &&& 15).toNat 0 :: ret, c ∈ hexCharset ∨ c ∈ ret := by
      intro c hc
      rcases List.mem_cons.mp hc with rfl | hc
      · exact .inl hdigit
      · exact .inr hc
    intro c hc
    unfold hexLoop at hc
    simp only at hc
    split at hc
    · rcases ih _ _ c hc with hc | hc
      · exact .inl hc
      · exact hcons c hc
    · exact hcons c hc

/-- Hexadecimal digits break no line. -/
theorem fromIntToHex_no_break (n : UInt64) :
    ∀ c ∈ fromIntToHex n, c ≠ ch '\r' ∧ c ≠ ch '\n' := by
  have hcharset : ∀ c ∈ hexCharset, c ≠ ch '\r' ∧ c ≠ ch '\n' := every_char (by decide)
  intro c hc
  rcases hexLoop_charset 16 n [] c hc with hc | hc
  · exact hcharset c hc
  · cases hc

/-! ### `std::stoi` -/

def isDigit (c : UInt8) : Bool := ch '0' ≤ c && c ≤ ch '9'

def decimalValue (digits : Bytes) : Nat :=
  Digits.value 10 (digits.map fun c => (c - ch '0').toNat)

/-- The characters of a number written in decimal. -/
theorem toDecimal_eq (n : Nat) : toDecimal n = (Nat.toDigits 10 n).map ch := by
  show n.repr.toList.map ch = _
  rw [Nat.toList_repr]

theorem digit_byte {c : Char} (h : c.isDigit) : (ch c).toNat = c.toNat := by
  have hc : 48 ≤ c.toNat ∧ c.toNat ≤ 57 := Char.isDigit_iff_toNat.mp h
  exact Nat.mod_eq_of_lt (by omega)

/-- A number is written in digits alone. -/
theorem toDecimal_digits (n : Nat) : ∀ c ∈ toDecimal n, 48 ≤ c.toNat ∧ c.toNat ≤ 57 := by
  intro c hc
  rw [toDecimal_eq] at hc
  obtain ⟨d, hd, rfl⟩ := List.mem_map.mp hc
  have hdigit := Nat.isDigit_of_mem_toDigits (by decide) (by decide) hd
  rw [digit_byte hdigit]
  exact Char.isDigit_iff_toNat.mp hdigit

theorem toDecimal_ne {n : Nat} {c b : UInt8} (hc : c ∈ toDecimal n) (hb : b.toNat < 48) :
    c ≠ b := by
  intro heq
  have hrange := (toDecimal_digits n c hc).1
  rw [heq] at hrange
  omega

/-- Written and read again, a number is the same. -/
theorem decimalValue_toDecimal (n : Nat) : decimalValue (toDecimal n) = n := by
  have hread : ∀ (l : List Char) (init : Nat), (∀ c ∈ l, c.isDigit) →
      ((l.map ch).map fun c => (c - ch '0').toNat).foldl (fun n d => n * 10 + d) init =
        Nat.ofDigitChars 10 l init := by
    intro l
    induction l with
    | nil => exact fun init _ => (Nat.ofDigitChars_nil).symm
    | cons c l ih =>
      intro init h
      have hdigit := h c (List.mem_cons_self ..)
      have hc : 48 ≤ c.toNat ∧ c.toNat ≤ 57 := Char.isDigit_iff_toNat.mp hdigit
      have hbyte := digit_byte hdigit
      have hle : ch '0' ≤ ch c := by
        apply UInt8.le_iff_toNat_le.mpr
        rw [hbyte]
        exact hc.1
      have hsub : (ch c - ch '0').toNat = c.toNat - '0'.toNat := by
        rw [UInt8.toNat_sub_of_le _ _ hle, hbyte]
        rfl
      rw [List.map_cons, List.map_cons, List.foldl_cons, ih _ fun c hc =>
        h c (List.mem_cons_of_mem _ hc), Nat.ofDigitChars_cons, hsub, Nat.mul_comm]
  rw [toDecimal_eq, decimalValue, Digits.value, hread _ _ fun c hc =>
    Nat.isDigit_of_mem_toDigits (by decide) (by decide) hc, Nat.ofDigitChars_ten_toDigits]

/-- Spaces, a sign, digits; what follows them is not looked at. -/
def stoi (str : Bytes) : Except Thrown Int :=
  let str := str.dropWhile isSpace
  let (negative, str) :=
    if str.head? = some (ch '-') then (true, str.drop 1)
    else if str.head? = some (ch '+') then (false, str.drop 1)
    else (false, str)
  let digits := str.takeWhile isDigit
  if digits = [] then .error .invalidArgument
  else
    let n : Int := if negative then -decimalValue digits else decimalValue digits
    if n < -2147483648 ∨ 2147483647 < n then .error (.fault .outOfRange) else .ok n

example : stoi (text " -42 OK") = .ok (-42) := by decide +kernel

end HttpServer.Utils
