import Mathlib.Tactic.Common

/-! Base64: three bytes are four characters of an alphabet of sixty-four, and what is
left at the end is filled up with a padding character.

`decode` reads only what is written so. The bits of a last character that belong to no
byte are not looked at. -/
namespace Lib.Base64

/-! ### The alphabet -/

/-- Upper case, lower case, digits, a plus, a slash. -/
def character (v : Nat) : UInt8 :=
  if v < 26 then UInt8.ofNat (65 + v)
  else if v < 52 then UInt8.ofNat (97 + (v - 26))
  else if v < 62 then UInt8.ofNat (48 + (v - 52))
  else if v = 62 then 43
  else 47

def value? (c : UInt8) : Option Nat :=
  if 65 ≤ c ∧ c ≤ 90 then some (c.toNat - 65)
  else if 97 ≤ c ∧ c ≤ 122 then some (c.toNat - 97 + 26)
  else if 48 ≤ c ∧ c ≤ 57 then some (c.toNat - 48 + 52)
  else if c = 43 then some 62
  else if c = 47 then some 63
  else none

def padding : UInt8 := 61

theorem value_character : ∀ v < 64, value? (character v) = some v := by
  decide

theorem character_ne_padding : ∀ v < 64, character v ≠ padding := by
  decide

/-! ### Writing -/

def encode : List UInt8 → List UInt8
  | [] => []
  | [a] => [character (a.toNat / 4), character (a.toNat % 4 * 16), padding, padding]
  | [a, b] => [character (a.toNat / 4), character (a.toNat % 4 * 16 + b.toNat / 16),
      character (b.toNat % 16 * 4), padding]
  | a :: b :: c :: rest => character (a.toNat / 4) :: character (a.toNat % 4 * 16 + b.toNat / 16) ::
      character (b.toNat % 16 * 4 + c.toNat / 64) :: character (c.toNat % 64) :: encode rest

/-- Four characters for every three bytes or part of them. -/
theorem encode_length (message : List UInt8) :
    (encode message).length = 4 * ((message.length + 2) / 3) := by
  induction message using encode.induct with
  | case1 => simp [encode]
  | case2 a => simp [encode]
  | case3 a b => simp [encode]
  | case4 a b c rest ih =>
    simp only [encode, List.length_cons, ih]
    omega

/-- Nothing but characters and padding is written. -/
theorem encode_alphabet (message : List UInt8) :
    ∀ c ∈ encode message, (∃ v < 64, c = character v) ∨ c = padding := by
  have hnone : ∀ c ∈ ([] : List UInt8), (∃ v < 64, c = character v) ∨ c = padding :=
    fun c hc => absurd hc List.not_mem_nil
  induction message using encode.induct with
  | case1 => exact hnone
  | case2 a =>
    have ha := a.toNat_lt
    simp only [encode, List.forall_mem_cons]
    exact ⟨.inl ⟨_, by omega, rfl⟩, .inl ⟨_, by omega, rfl⟩, .inr trivial, .inr trivial, hnone⟩
  | case3 a b =>
    have ha := a.toNat_lt
    have hb := b.toNat_lt
    simp only [encode, List.forall_mem_cons]
    exact ⟨.inl ⟨_, by omega, rfl⟩, .inl ⟨_, by omega, rfl⟩, .inl ⟨_, by omega, rfl⟩,
      .inr trivial, hnone⟩
  | case4 a b c rest ih =>
    have ha := a.toNat_lt
    have hb := b.toNat_lt
    have hc := c.toNat_lt
    simp only [encode, List.forall_mem_cons]
    exact ⟨.inl ⟨_, by omega, rfl⟩, .inl ⟨_, by omega, rfl⟩, .inl ⟨_, by omega, rfl⟩,
      .inl ⟨_, by omega, rfl⟩, ih⟩

/-- Padding stands for the bytes that the last group lacks. -/
theorem encode_padded (message : List UInt8) :
    ∃ body, encode message = body ++ List.replicate ((3 - message.length % 3) % 3) padding ∧
      body.length = (4 * message.length + 2) / 3 := by
  induction message using encode.induct with
  | case1 => exact ⟨[], rfl, rfl⟩
  | case2 a => exact ⟨[_, _], rfl, by simp⟩
  | case3 a b => exact ⟨[_, _, _], rfl, by simp⟩
  | case4 a b c rest ih =>
    obtain ⟨body, hbody, hlen⟩ := ih
    have hsame : (a :: b :: c :: rest).length % 3 = rest.length % 3 := by
      simp only [List.length_cons]
      omega
    rw [encode, hbody, hsame]
    refine ⟨_ :: _ :: _ :: _ :: body, rfl, ?_⟩
    simp only [List.length_cons]
    omega

/-! ### Reading -/

/-- The bytes of four characters none of which is padding. -/
def group (w x y z : UInt8) : Option (List UInt8) := do
  let w ← value? w
  let x ← value? x
  let y ← value? y
  let z ← value? z
  return [UInt8.ofNat (w * 4 + x / 16), UInt8.ofNat (x % 16 * 16 + y / 4),
    UInt8.ofNat (y % 4 * 64 + z)]

/-- The bytes of the last three or two characters before the padding. -/
def lastGroup (w x y : UInt8) : Option (List UInt8) := do
  let w ← value? w
  let x ← value? x
  if y = padding then return [UInt8.ofNat (w * 4 + x / 16)]
  else
    let y ← value? y
    return [UInt8.ofNat (w * 4 + x / 16), UInt8.ofNat (x % 16 * 16 + y / 4)]

def decode : List UInt8 → Option (List UInt8)
  | [] => some []
  | w :: x :: y :: z :: rest =>
    if z = padding ∧ rest = [] then lastGroup w x y
    else do
      let bytes ← group w x y z
      let more ← decode rest
      return bytes ++ more
  | _ => none

/-- A byte put together from its parts. -/
theorem byte_eq {b : UInt8} {n : Nat} (h : n = b.toNat) : UInt8.ofNat n = b := by
  rw [h, UInt8.ofNat_toNat]

theorem lastGroup_one (a : UInt8) :
    lastGroup (character (a.toNat / 4)) (character (a.toNat % 4 * 16)) padding = some [a] := by
  have ha := a.toNat_lt
  rw [lastGroup, value_character _ (by omega), value_character _ (by omega)]
  show some [UInt8.ofNat (a.toNat / 4 * 4 + a.toNat % 4 * 16 / 16)] = some [a]
  rw [byte_eq (show _ = a.toNat by omega)]

theorem lastGroup_two (a b : UInt8) :
    lastGroup (character (a.toNat / 4)) (character (a.toNat % 4 * 16 + b.toNat / 16))
      (character (b.toNat % 16 * 4)) = some [a, b] := by
  have ha := a.toNat_lt
  have hb := b.toNat_lt
  have hopen := character_ne_padding (b.toNat % 16 * 4) (by omega)
  rw [lastGroup, value_character _ (by omega), value_character _ (by omega),
    value_character _ (by omega)]
  simp only [if_neg hopen]
  show some [UInt8.ofNat (a.toNat / 4 * 4 + (a.toNat % 4 * 16 + b.toNat / 16) / 16),
    UInt8.ofNat ((a.toNat % 4 * 16 + b.toNat / 16) % 16 * 16 + b.toNat % 16 * 4 / 4)] = some [a, b]
  rw [byte_eq (show _ = a.toNat by omega), byte_eq (show _ = b.toNat by omega)]

theorem group_three (a b c : UInt8) :
    group (character (a.toNat / 4)) (character (a.toNat % 4 * 16 + b.toNat / 16))
      (character (b.toNat % 16 * 4 + c.toNat / 64)) (character (c.toNat % 64)) =
        some [a, b, c] := by
  have ha := a.toNat_lt
  have hb := b.toNat_lt
  have hc := c.toNat_lt
  rw [group, value_character _ (by omega), value_character _ (by omega),
    value_character _ (by omega), value_character _ (by omega)]
  show some [UInt8.ofNat (a.toNat / 4 * 4 + (a.toNat % 4 * 16 + b.toNat / 16) / 16),
    UInt8.ofNat ((a.toNat % 4 * 16 + b.toNat / 16) % 16 * 16 +
      (b.toNat % 16 * 4 + c.toNat / 64) / 4),
    UInt8.ofNat ((b.toNat % 16 * 4 + c.toNat / 64) % 4 * 64 + c.toNat % 64)] = some [a, b, c]
  rw [byte_eq (show _ = a.toNat by omega), byte_eq (show _ = b.toNat by omega),
    byte_eq (show _ = c.toNat by omega)]

/-- What is written is read back. -/
theorem decode_encode (message : List UInt8) : decode (encode message) = some message := by
  induction message using encode.induct with
  | case1 => rfl
  | case2 a => rw [encode, decode, if_pos ⟨rfl, rfl⟩, lastGroup_one]
  | case3 a b => rw [encode, decode, if_pos ⟨rfl, rfl⟩, lastGroup_two]
  | case4 a b c rest ih =>
    have hc : ¬ (character (c.toNat % 64) = padding ∧ encode rest = []) :=
      fun h => character_ne_padding _ (Nat.mod_lt _ (by decide)) h.1
    rw [encode, decode, if_neg hc, group_three, ih]
    rfl

end Lib.Base64
