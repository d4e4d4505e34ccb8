import Mathlib.Data.List.Basic
import Mathlib.Data.List.Infix
import Mathlib.Tactic.Common

/-! Patterns with wildcards, and the greedy descent through a family of them.

A pattern is a word whose letters are literals (`some a`) or wildcards (`none`).
`descend L` reads a word letter by letter and follows the prefixes of the
family `L`: the literal edge where there is one, else the wildcard edge, with no
way back. A pattern of the family is the one the descent ends in exactly when it
matches and no literal edge hides one of its wildcards (`descend_eq_some_iff`). -/
namespace Lib.Wildcard
variable {α : Type*}

/-- `some a` stands for the letter `a`, `none` for any letter. -/
abbrev Pattern (α : Type*) := List (Option α)

/-- A word matches a pattern letter by letter. -/
def Matches : Pattern α → List α → Prop
  | [], [] => True
  | o :: π, a :: w => (o = none ∨ o = some a) ∧ Matches π w
  | _, _ => False

/-- Some pattern of the family starts with `π`. -/
def Within (L : List (Pattern α)) (π : Pattern α) : Prop := ∃ ρ ∈ L, π <+: ρ

/-- A pattern of the family agrees with `π` before one of its wildcards and has
the word's own letter there. -/
def Shadowed (L : List (Pattern α)) (π : Pattern α) (w : List α) : Prop :=
  ∃ n a, π[n]? = some none ∧ w[n]? = some a ∧ Within L (π.take n ++ [some a])

theorem Matches.length {π : Pattern α} {w : List α} (h : Matches π w) : π.length = w.length := by
  induction π generalizing w with
  | nil =>
    cases w with
    | nil => rfl
    | cons a w => exact h.elim
  | cons o π ih =>
    cases w with
    | nil => exact h.elim
    | cons a w => simp [ih h.2]

theorem Within.of_mem {L : List (Pattern α)} {π : Pattern α} (h : π ∈ L) : Within L π :=
  ⟨π, h, List.prefix_rfl⟩

theorem Within.of_append {L : List (Pattern α)} {π ρ : Pattern α} (h : Within L (π ++ ρ)) :
    Within L π := by
  obtain ⟨τ, hτ, hp⟩ := h
  exact ⟨τ, hτ, (List.prefix_append π ρ).trans hp⟩

/-! ### Words as patterns -/

theorem matches_literal (w : List α) : Matches (w.map some) w := by
  induction w with
  | nil => trivial
  | cons a w ih => exact ⟨.inr rfl, ih⟩

/-- Where there is no wildcard nothing can hide one. -/
theorem not_shadowed_literal (L : List (Pattern α)) (w w' : List α) :
    ¬ Shadowed L (w.map some) w' := by
  intro h
  obtain ⟨n, a, hn, _⟩ := h
  rw [List.getElem?_map] at hn
  obtain ⟨b, _, hb⟩ := Option.map_eq_some_iff.mp hn
  cases hb

/-! ### The descent -/

variable [DecidableEq α]

instance (L : List (Pattern α)) (π : Pattern α) : Decidable (Within L π) :=
  inferInstanceAs (Decidable (∃ ρ ∈ L, π <+: ρ))

/-- The greedy descent from the prefix `π`. -/
def descend (L : List (Pattern α)) (π : Pattern α) : List α → Option (Pattern α)
  | [] => some π
  | a :: w =>
    if Within L (π ++ [some a]) then descend L (π ++ [some a]) w
    else if Within L (π ++ [none]) then descend L (π ++ [none]) w
    else none

/-- Only the prefixes of the family count. -/
theorem descend_congr {L L' : List (Pattern α)} (h : ∀ π, Within L π ↔ Within L' π)
    (π : Pattern α) (w : List α) : descend L π w = descend L' π w := by
  induction w generalizing π with
  | nil => rfl
  | cons a w ih => simp only [descend, h, ih]

/-- Where a descent from `π` ends: `π` extended by a pattern of the rest that is
followed edge by edge, a wildcard edge only where there is no literal one. -/
theorem descend_spec {L : List (Pattern α)} {π τ : Pattern α} {w : List α}
    (h : descend L π w = some τ) :
    ∃ ρ, τ = π ++ ρ ∧ Matches ρ w ∧ (w = [] ∨ Within L τ) ∧
      ∀ n a, ρ[n]? = some none → w[n]? = some a → ¬ Within L (π ++ ρ.take n ++ [some a]) := by
  induction w generalizing π with
  | nil =>
    cases h
    exact ⟨[], by simp, trivial, .inl rfl, by simp⟩
  | cons b w ih =>
    have hedge : ∀ o, (o = none ∨ o = some b) → (o = none → ¬ Within L (π ++ [some b])) →
        Within L (π ++ [o]) → descend L (π ++ [o]) w = some τ →
        ∃ ρ, τ = π ++ ρ ∧ Matches ρ (b :: w) ∧ (b :: w = [] ∨ Within L τ) ∧
          ∀ n a, ρ[n]? = some none → (b :: w)[n]? = some a →
            ¬ Within L (π ++ ρ.take n ++ [some a]) := by
      intro o ho hhide hin hd
      obtain ⟨ρ, rfl, hm, hw, hs⟩ := ih hd
      refine ⟨o :: ρ, by simp, ⟨ho, hm⟩, .inr ?_, ?_⟩
      · rcases hw with rfl | hw
        · have hρ : ρ = [] := List.length_eq_zero_iff.mp hm.length
          simpa [hρ] using hin
        · exact hw
      · intro n a hn ha
        cases n with
        | zero =>
          have hob : o = none := by simpa using hn
          have hab : b = a := by simpa using ha
          subst hab
          simpa using hhide hob
        | succ n => simpa using hs n a (by simpa using hn) (by simpa using ha)
    unfold descend at h
    split at h
    · next hlit => exact hedge (some b) (.inr rfl) (by simp) hlit h
    · next hlit =>
      split at h
      · next hwild => exact hedge none (.inl rfl) (fun _ => hlit) hwild h
      · cases h

/-- A pattern of the family that matches and is not hidden is followed to its end. -/
theorem descend_of_matches {L : List (Pattern α)} {π ρ : Pattern α} {w : List α}
    (hm : Matches ρ w) (hin : w = [] ∨ Within L (π ++ ρ))
    (hs : ∀ n a, ρ[n]? = some none → w[n]? = some a → ¬ Within L (π ++ ρ.take n ++ [some a])) :
    descend L π w = some (π ++ ρ) := by
  induction w generalizing π ρ with
  | nil =>
    have hρ : ρ = [] := List.length_eq_zero_iff.mp hm.length
    simp [descend, hρ]
  | cons b w ih =>
    cases ρ with
    | nil => exact hm.elim
    | cons o ρ =>
      obtain ⟨ho, hm⟩ := hm
      have hin' : Within L (π ++ [o] ++ ρ) := by simpa using hin
      have hrest : descend L (π ++ [o]) w = some (π ++ [o] ++ ρ) := by
        refine ih hm (.inr hin') fun n a hn ha => ?_
        simpa using hs (n + 1) a (by simpa using hn) (by simpa using ha)
      have hedge : Within L (π ++ [o]) := hin'.of_append
      rw [List.append_cons π o ρ, ← hrest]
      rcases ho with rfl | rfl
      · have hlit : ¬ Within L (π ++ [some b]) := by simpa using hs 0 b (by simp) (by simp)
        simp [descend, hlit, hedge]
      · simp [descend, hedge]

/-- **The pattern a descent ends in** is the one of the family that matches with
none of its wildcards hidden. -/
theorem descend_eq_some_iff {L : List (Pattern α)} {π : Pattern α} (hπ : π ∈ L) (w : List α) :
    descend L [] w = some π ↔ Matches π w ∧ ¬ Shadowed L π w := by
  constructor
  · intro h
    obtain ⟨ρ, hρ, hm, _, hs⟩ := descend_spec h
    simp only [List.nil_append] at hρ hs
    subst hρ
    refine ⟨hm, ?_⟩
    intro h
    obtain ⟨n, a, hn, ha, hin⟩ := h
    exact hs n a hn ha hin
  · intro h
    obtain ⟨hm, hs⟩ := h
    have := descend_of_matches (π := []) hm (.inr (Within.of_mem hπ))
      fun n a hn ha hin => hs ⟨n, a, hn, ha, by simpa using hin⟩
    simpa using this

/-- Where the descent ends, the word matches. -/
theorem descend_matches {L : List (Pattern α)} {π : Pattern α} {w : List α}
    (h : descend L [] w = some π) : Matches π w := by
  obtain ⟨ρ, rfl, hm, _⟩ := descend_spec h
  exact hm

/-! ### The edges of a descent -/

/-- The edges the descent follows before the word ends or there is no way on. -/
def taken (L : List (Pattern α)) (π : Pattern α) : List α → Pattern α
  | [] => []
  | a :: w =>
    if Within L (π ++ [some a]) then some a :: taken L (π ++ [some a]) w
    else if Within L (π ++ [none]) then none :: taken L (π ++ [none]) w
    else []

theorem taken_congr {L L' : List (Pattern α)} (h : ∀ π, Within L π ↔ Within L' π)
    (π : Pattern α) (w : List α) : taken L π w = taken L' π w := by
  induction w generalizing π with
  | nil => rfl
  | cons a w ih => simp only [taken, h, ih]

/-- A descent that gets to the end has followed its pattern. -/
theorem taken_of_descend {L : List (Pattern α)} {π ρ : Pattern α} {w : List α}
    (h : descend L π w = some (π ++ ρ)) : taken L π w = ρ := by
  induction w generalizing π ρ with
  | nil =>
    have hnil : ρ = [] := by simpa [descend] using h
    rw [hnil, taken]
  | cons a w ih =>
    have hedge : ∀ {o : Option α}, descend L (π ++ [o]) w = some (π ++ ρ) →
        o :: taken L (π ++ [o]) w = ρ := by
      intro o ho
      obtain ⟨ρ', hρ', _⟩ := descend_spec ho
      rw [List.append_assoc, List.singleton_append] at hρ'
      obtain rfl := List.append_cancel_left hρ'
      rw [ih (ho.trans (by rw [List.append_cons]))]
    rw [descend] at h
    rw [taken]
    split at h
    · next hlit =>
      rw [if_pos hlit]
      exact hedge h
    · next hlit =>
      split at h
      · next hwild =>
        rw [if_neg hlit, if_pos hwild]
        exact hedge h
      · cases h

/-- The literal edges that are followed are letters of the word. -/
theorem mem_of_taken {L : List (Pattern α)} {π : Pattern α} {w : List α} {a : α}
    (h : some a ∈ taken L π w) : a ∈ w := by
  induction w generalizing π with
  | nil => cases h
  | cons b w ih =>
    rw [taken] at h
    split at h
    · rcases List.mem_cons.mp h with heq | h
      · rw [Option.some.inj heq]
        exact List.mem_cons_self ..
      · exact List.mem_cons_of_mem _ (ih h)
    · split at h
      · rcases List.mem_cons.mp h with heq | h
        · cases heq
        · exact List.mem_cons_of_mem _ (ih h)
      · cases h

end Lib.Wildcard
