import Mathlib.Tactic.Common

/-! Objects of strings in JSON, as UTF-8.

`Object raw members` says that a text is an object with these members, each of a name and a
string. A string can be written in more than one way, but never with fewer bytes that are
no space than it has itself, and with no more of them only if all of its characters stand
for themselves. So a text that is as short as that has none but plain strings in it
(`Object.plain`). -/
namespace Lib.Json

def quote : UInt8 := 0x22
def comma : UInt8 := 0x2C
def colon : UInt8 := 0x3A
def backslash : UInt8 := 0x5C
def openBrace : UInt8 := 0x7B
def closeBrace : UInt8 := 0x7D

/-- Tab, line feed, carriage return and space. -/
def spaces : List UInt8 := [0x09, 0x0A, 0x0D, 0x20]

def Space (raw : List UInt8) : Prop := ∀ c ∈ raw, c ∈ spaces

/-! ### Characters -/

/-- A character that stands for itself: no control character, no quote and no backslash. -/
structure Plain (c : Char) : Prop where
  printable : 0x20 ≤ c.toNat
  quote : c.toNat ≠ 0x22
  backslash : c.toNat ≠ 0x5C

instance (c : Char) : Decidable (Plain c) :=
  decidable_of_iff (0x20 ≤ c.toNat ∧ c.toNat ≠ 0x22 ∧ c.toNat ≠ 0x5C)
    ⟨fun h => ⟨h.1, h.2.1, h.2.2⟩, fun h => ⟨h.printable, h.quote, h.backslash⟩⟩

/-- What is written behind a backslash, and the byte it means. -/
def escapes : List (UInt8 × UInt8) :=
  [(0x22, 0x22), (0x5C, 0x5C), (0x2F, 0x2F), (0x62, 0x08), (0x66, 0x0C), (0x6E, 0x0A),
    (0x72, 0x0D), (0x74, 0x09)]

def hexDigit (c : UInt8) : Option Nat :=
  if 0x30 ≤ c ∧ c ≤ 0x39 then some (c - 0x30).toNat
  else if 0x41 ≤ c ∧ c ≤ 0x46 then some ((c - 0x41).toNat + 10)
  else if 0x61 ≤ c ∧ c ≤ 0x66 then some ((c - 0x61).toNat + 10)
  else none

/-- Four hexadecimal digits behind a backslash and a `u`. -/
inductive CodeUnit : List UInt8 → Nat → Prop where
  | mk {c₁ c₂ c₃ c₄ : UInt8} {n₁ n₂ n₃ n₄ : Nat} (h₁ : hexDigit c₁ = some n₁)
    (h₂ : hexDigit c₂ = some n₂) (h₃ : hexDigit c₃ = some n₃) (h₄ : hexDigit c₄ = some n₄) :
    CodeUnit [backslash, 0x75, c₁, c₂, c₃, c₄] (n₁ * 4096 + n₂ * 256 + n₃ * 16 + n₄)

/-- A character of a string, and the bytes that it is. -/
inductive Piece : List UInt8 → List UInt8 → Prop where
  | plain {c : Char} (h : Plain c) : Piece (String.utf8EncodeChar c) (String.utf8EncodeChar c)
  | escape {e : UInt8 × UInt8} (h : e ∈ escapes) : Piece [backslash, e.1] [e.2]
  | unit {raw : List UInt8} {c : Char} (h : CodeUnit raw c.toNat) :
    Piece raw (String.utf8EncodeChar c)
  | surrogates {raw raw' : List UInt8} {high low : Nat} {c : Char} (hhigh : CodeUnit raw high)
    (hlow : CodeUnit raw' low) (hrange : 0xD800 ≤ high ∧ high < 0xDC00)
    (hrange' : 0xDC00 ≤ low ∧ low < 0xE000)
    (hc : c.toNat = 0x10000 + (high - 0xD800) * 0x400 + (low - 0xDC00)) :
    Piece (raw ++ raw') (String.utf8EncodeChar c)

inductive Pieces : List UInt8 → List UInt8 → Prop where
  | nil : Pieces [] []
  | cons {piece bytes raw value : List UInt8} (h : Piece piece bytes) (rest : Pieces raw value) :
    Pieces (piece ++ raw) (bytes ++ value)

/-- UTF-8 of characters that stand for themselves. -/
def IsPlain (value : List UInt8) : Prop :=
  ∃ chars : List Char, (∀ c ∈ chars, Plain c) ∧ value = chars.flatMap String.utf8EncodeChar

/-- Only the characters below 0x80 have bytes below it, and one each. -/
theorem toNat_of_mem_encode {b : UInt8} {c : Char} (h : b ∈ String.utf8EncodeChar c)
    (hb : b.toNat < 0x80) : c.toNat = b.toNat := by
  -- Every byte of a longer encoding has its highest bit set.
  have hlong : ∀ n k : Nat, 0x80 ≤ k → n + k < 0x100 → b ≠ UInt8.ofNat (n + k) := by
    intro n k hk hlt heq
    rw [heq, UInt8.toNat_ofNat', Nat.mod_eq_of_lt hlt] at hb
    omega
  unfold String.utf8EncodeChar at h
  simp only at h
  split at h
  · next hval =>
    rw [List.mem_singleton.mp h, UInt8.toNat_ofNat']
    exact (Nat.mod_eq_of_lt (show c.val.toNat < 256 by omega)).symm
  · exfalso
    split at h
    · simp only [List.mem_cons, List.not_mem_nil, or_false] at h
      rcases h with h | h <;> exact hlong _ _ (by omega) (by omega) h
    · split at h <;> simp only [List.mem_cons, List.not_mem_nil, or_false] at h
      · rcases h with h | h | h <;> exact hlong _ _ (by omega) (by omega) h
      · rcases h with h | h | h | h <;> exact hlong _ _ (by omega) (by omega) h

/-- An ASCII character of plain text is one that stands for itself. -/
theorem IsPlain.ascii {value : List UInt8} (h : IsPlain value) {b : UInt8} (hmem : b ∈ value)
    (hb : b.toNat < 0x80) : 0x20 ≤ b.toNat ∧ b ≠ quote ∧ b ≠ backslash := by
  obtain ⟨chars, hchars, rfl⟩ := h
  obtain ⟨c, hc, hbyte⟩ := List.mem_flatMap.mp hmem
  have hplain := hchars c hc
  have hnat := toNat_of_mem_encode hbyte hb
  refine ⟨hnat ▸ hplain.printable, fun heq => hplain.quote ?_, fun heq => hplain.backslash ?_⟩
  · rw [hnat, heq]
    rfl
  · rw [hnat, heq]
    rfl

theorem Pieces.of_isPlain {value : List UInt8} (h : IsPlain value) : Pieces value value := by
  obtain ⟨chars, hchars, rfl⟩ := h
  induction chars with
  | nil => exact .nil
  | cons c chars ih =>
    rw [List.flatMap_cons]
    exact .cons (.plain (hchars c (List.mem_cons_self ..)))
      (ih fun c' hc' => hchars c' (List.mem_cons_of_mem _ hc'))

/-! ### Objects -/

def quoted (raw : List UInt8) : List UInt8 := quote :: raw ++ [quote]

inductive Member : List UInt8 → List UInt8 × List UInt8 → Prop where
  | mk {a b c d name value : List UInt8} {e : List UInt8 × List UInt8} (ha : Space a)
    (hb : Space b) (hc : Space c) (hd : Space d) (hname : Pieces name e.1)
    (hvalue : Pieces value e.2) :
    Member (a ++ quoted name ++ b ++ [colon] ++ c ++ quoted value ++ d) e

inductive Members : List UInt8 → List (List UInt8 × List UInt8) → Prop where
  | single {raw : List UInt8} {e : List UInt8 × List UInt8} (h : Member raw e) : Members raw [e]
  | cons {raw more : List UInt8} {e : List UInt8 × List UInt8}
    {members : List (List UInt8 × List UInt8)} (h : Member raw e) (rest : Members more members) :
    Members (raw ++ [comma] ++ more) (e :: members)

inductive Object : List UInt8 → List (List UInt8 × List UInt8) → Prop where
  | empty {a b c : List UInt8} (ha : Space a) (hb : Space b) (hc : Space c) :
    Object (a ++ [openBrace] ++ b ++ [closeBrace] ++ c) []
  | full {a raw c : List UInt8} {members : List (List UInt8 × List UInt8)} (ha : Space a)
    (hc : Space c) (h : Members raw members) :
    Object (a ++ [openBrace] ++ raw ++ [closeBrace] ++ c) members

/-! ### How much is needed -/

/-- How many bytes are no space. -/
def visible (raw : List UInt8) : Nat :=
  raw.countP fun c => decide (c ∉ spaces)

@[simp] theorem visible_append (raw more : List UInt8) :
    visible (raw ++ more) = visible raw + visible more := List.countP_append

theorem visible_le_length (raw : List UInt8) : visible raw ≤ raw.length := List.countP_le_length

theorem Space.visible {raw : List UInt8} (h : Space raw) : visible raw = 0 := by
  refine List.countP_eq_zero.mpr fun c hc => ?_
  simpa using h c hc

@[simp] theorem visible_quoted (raw : List UInt8) : visible (quoted raw) = visible raw + 2 := by
  have hquote : visible [quote] = 1 := by decide
  rw [quoted, ← List.singleton_append, visible_append, visible_append, hquote]
  omega

theorem hexDigit_visible {c : UInt8} {n : Nat} (h : hexDigit c = some n) : visible [c] = 1 := by
  have hnone : (spaces.all fun c => decide (hexDigit c = none)) = true := by decide
  refine List.countP_eq_length.mpr fun d hd => decide_eq_true fun hspace => ?_
  rw [List.mem_singleton.mp hd] at hspace
  rw [of_decide_eq_true (List.all_eq_true.mp hnone c hspace)] at h
  cases h

theorem CodeUnit.visible {raw : List UInt8} {n : Nat} (h : CodeUnit raw n) : visible raw = 6 := by
  cases h with
  | @mk c₁ c₂ c₃ c₄ n₁ n₂ n₃ n₄ h₁ h₂ h₃ h₄ =>
    have hsplit : [backslash, 0x75, c₁, c₂, c₃, c₄] =
        [backslash, 0x75] ++ [c₁] ++ [c₂] ++ [c₃] ++ [c₄] := rfl
    have hfront : Json.visible [backslash, 0x75] = 2 := by decide
    rw [hsplit]
    simp only [visible_append, hfront, hexDigit_visible h₁, hexDigit_visible h₂,
      hexDigit_visible h₃, hexDigit_visible h₄]

theorem visible_encode (c : Char) : visible (String.utf8EncodeChar c) ≤ 4 := by
  have hle := visible_le_length (String.utf8EncodeChar c)
  rw [String.length_utf8EncodeChar] at hle
  exact Nat.le_trans hle (Char.utf8Size_le_four c)

/-- A character that does not stand for itself is written longer than it is. -/
theorem Piece.plain_or_lt {raw bytes : List UInt8} (h : Piece raw bytes) :
    (∃ c, Plain c ∧ raw = String.utf8EncodeChar c ∧ bytes = String.utf8EncodeChar c) ∨
      visible bytes < visible raw := by
  cases h with
  | plain h => exact .inl ⟨_, h, rfl, rfl⟩
  | @escape e h =>
    have hall : (escapes.all fun e =>
        decide (visible [e.2] < visible [backslash, e.1])) = true := by decide
    exact .inr (of_decide_eq_true (List.all_eq_true.mp hall e h))
  | @unit _ c h =>
    have hc := visible_encode c
    have hraw := h.visible
    exact .inr (by omega)
  | @surrogates _ _ _ _ c hhigh hlow =>
    have hc := visible_encode c
    have hraw := hhigh.visible
    have hraw' := hlow.visible
    exact .inr (by rw [visible_append]; omega)

theorem Pieces.plain_or_lt {raw value : List UInt8} (h : Pieces raw value) :
    (IsPlain value ∧ raw = value) ∨ visible value < visible raw := by
  induction h with
  | nil => exact .inl ⟨⟨[], fun _ hc => absurd hc List.not_mem_nil, rfl⟩, rfl⟩
  | @cons piece bytes raw value h rest ih =>
    rw [visible_append, visible_append]
    rcases h.plain_or_lt with ⟨c, hc, rfl, rfl⟩ | hlt
    · rcases ih with ⟨⟨chars, hchars, hvalue⟩, rfl⟩ | hlt
      · refine .inl ⟨⟨c :: chars, List.forall_mem_cons.mpr ⟨hc, hchars⟩, ?_⟩, rfl⟩
        rw [List.flatMap_cons, hvalue]
      · exact .inr (Nat.add_lt_add_left hlt _)
    · rcases ih with ⟨_, rfl⟩ | hlt'
      · exact .inr (Nat.add_lt_add_right hlt _)
      · exact .inr (Nat.add_lt_add hlt hlt')

/-- What a member takes at least, with the comma or brace behind it. -/
def cost (e : List UInt8 × List UInt8) : Nat := visible e.1 + visible e.2 + 6

/-- What the members take at least. -/
def total : List (List UInt8 × List UInt8) → Nat
  | [] => 0
  | e :: members => cost e + total members

theorem total_perm {members members' : List (List UInt8 × List UInt8)}
    (h : members.Perm members') : total members = total members' := by
  induction h with
  | nil => rfl
  | cons e _ ih => exact congrArg (cost e + ·) ih
  | swap e e' members => exact Nat.add_left_comm ..
  | trans _ _ ih ih' => exact ih.trans ih'

theorem Member.plain_or_lt {raw : List UInt8} {e : List UInt8 × List UInt8} (h : Member raw e) :
    ((IsPlain e.1 ∧ IsPlain e.2) ∧ cost e = visible raw + 1) ∨ cost e < visible raw + 1 := by
  cases h with
  | @mk a b c d name value _ ha hb hc hd hname hvalue =>
    have hcolon : visible [colon] = 1 := by decide
    have hraw : visible (a ++ quoted name ++ b ++ [colon] ++ c ++ quoted value ++ d) =
        visible name + visible value + 5 := by
      simp only [visible_append, visible_quoted, ha.visible, hb.visible, hc.visible, hd.visible,
        hcolon]
      omega
    rw [hraw, cost]
    rcases hname.plain_or_lt with ⟨hp, rfl⟩ | hlt
    · rcases hvalue.plain_or_lt with ⟨hp', rfl⟩ | hlt'
      · exact .inl ⟨⟨hp, hp'⟩, rfl⟩
      · exact .inr (by omega)
    · rcases hvalue.plain_or_lt with ⟨_, rfl⟩ | hlt' <;> exact .inr (by omega)

theorem Members.plain_or_lt {raw : List UInt8} {members : List (List UInt8 × List UInt8)}
    (h : Members raw members) :
    ((∀ e ∈ members, IsPlain e.1 ∧ IsPlain e.2) ∧ total members = visible raw + 1) ∨
      total members < visible raw + 1 := by
  induction h with
  | @single raw e h =>
    show _ ∧ cost e = _ ∨ cost e < _
    rcases h.plain_or_lt with ⟨hp, heq⟩ | hlt
    · exact .inl ⟨fun e' he' => List.mem_singleton.mp he' ▸ hp, heq⟩
    · exact .inr hlt
  | @cons raw more e members h rest ih =>
    have hcomma : visible [comma] = 1 := by decide
    rw [total, visible_append, visible_append, hcomma]
    rcases h.plain_or_lt with ⟨hp, heq⟩ | hlt
    · rcases ih with ⟨hps, heqs⟩ | hlts
      · exact .inl ⟨List.forall_mem_cons.mpr ⟨hp, hps⟩, by omega⟩
      · exact .inr (by omega)
    · rcases ih with ⟨_, heqs⟩ | hlts <;> exact .inr (by omega)

/-- **A text with no more than is needed** has only plain strings in it. -/
theorem Object.plain {raw : List UInt8} {members : List (List UInt8 × List UInt8)}
    (h : Object raw members) (hle : visible raw ≤ total members + 1) :
    ∀ e ∈ members, IsPlain e.1 ∧ IsPlain e.2 := by
  cases h with
  | empty => exact fun e he => absurd he List.not_mem_nil
  | full ha hc h =>
    have hopen : visible [openBrace] = 1 := by decide
    have hclose : visible [closeBrace] = 1 := by decide
    simp only [visible_append, ha.visible, hc.visible, hopen, hclose] at hle
    rcases h.plain_or_lt with ⟨hp, _⟩ | hlt
    · exact hp
    · exact absurd hlt (by omega)

end Lib.Json
