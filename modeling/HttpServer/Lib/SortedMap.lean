import Mathlib.Data.List.Basic
import Mathlib.Data.List.Pairwise
import Mathlib.Tactic.Common

/-! Maps as lists of entries in the order of their keys.

`set r k v l` stores an entry where the comparison `r` wants it, over the entry of an
equal key. Two such lists with the same lookups are the same list (`eq_of_lookup`), so
that storing all entries of one map into another that knows no other key copies it
(`setAll_eq`). -/
namespace Lib.SortedMap
variable {κ ν : Type*} (r : κ → κ → Prop)

/-- Every entry comes before all that follow it. -/
def Sorted (l : List (κ × ν)) : Prop := l.Pairwise fun e e' => r e.1 e'.1

/-- What the comparison has to be. -/
structure Strict : Prop where
  irrefl : ∀ a, ¬ r a a
  trans : ∀ a b c, r a b → r b c → r a c
  total : ∀ a b, a ≠ b → ¬ r a b → r b a

variable {r}

/-! ### Storing -/

section Set
variable [DecidableEq κ] [DecidableRel r]

variable (r) in
/-- The entry stored in its place. -/
def set (key : κ) (val : ν) : List (κ × ν) → List (κ × ν)
  | [] => [(key, val)]
  | (k, v) :: rest =>
    if key = k then (key, val) :: rest
    else if r key k then (key, val) :: (k, v) :: rest
    else (k, v) :: set key val rest

variable (r) in
/-- The entries stored one after the other. -/
def setAll (m : List (κ × ν)) (l : List (κ × ν)) : List (κ × ν) :=
  l.foldl (fun m e => set r e.1 e.2 m) m

theorem eq_or_mem_of_mem_set {key : κ} {val : ν} {e : κ × ν} {l : List (κ × ν)}
    (h : e ∈ set r key val l) : e = (key, val) ∨ e ∈ l := by
  induction l with
  | nil => exact .inl (List.mem_singleton.mp h)
  | cons e' l ih =>
    obtain ⟨k, v⟩ := e'
    unfold set at h
    split at h
    · rcases List.mem_cons.mp h with h | h
      · exact .inl h
      · exact .inr (List.mem_cons_of_mem _ h)
    · split at h
      · exact List.mem_cons.mp h
      · rcases List.mem_cons.mp h with h | h
        · exact .inr (h ▸ List.mem_cons_self ..)
        · exact (ih h).imp_right (List.mem_cons_of_mem _)

theorem Sorted.set (hr : Strict r) {l : List (κ × ν)} (h : Sorted r l) (key : κ) (val : ν) :
    Sorted r (SortedMap.set r key val l) := by
  induction l with
  | nil => exact List.pairwise_singleton ..
  | cons e l ih =>
    obtain ⟨k, v⟩ := e
    obtain ⟨hk, hl⟩ := List.pairwise_cons.mp h
    unfold SortedMap.set
    split
    · next heq =>
      subst heq
      exact List.pairwise_cons.mpr ⟨hk, hl⟩
    · next hne =>
      split
      · next hlt =>
        refine List.pairwise_cons.mpr ⟨fun e he => ?_, h⟩
        rcases List.mem_cons.mp he with rfl | he
        · exact hlt
        · exact hr.trans _ _ _ hlt (hk e he)
      · next hnlt =>
        refine List.pairwise_cons.mpr ⟨fun e he => ?_, ih hl⟩
        rcases eq_or_mem_of_mem_set he with rfl | he
        · exact hr.total _ _ hne hnlt
        · exact hk e he

theorem mem_setAll {m l : List (κ × ν)} {e : κ × ν} (h : e ∈ setAll r m l) : e ∈ l ∨ e ∈ m := by
  induction l generalizing m with
  | nil => exact .inr h
  | cons e' l ih =>
    rcases ih h with hl | hm
    · exact .inl (List.mem_cons_of_mem _ hl)
    · rcases eq_or_mem_of_mem_set hm with rfl | hm
      · exact .inl (List.mem_cons_self ..)
      · exact .inr hm

theorem Sorted.setAll (hr : Strict r) {m : List (κ × ν)} (hm : Sorted r m) (l : List (κ × ν)) :
    Sorted r (SortedMap.setAll r m l) := by
  induction l generalizing m with
  | nil => exact hm
  | cons e l ih => exact ih (hm.set hr e.1 e.2)

end Set

/-! ### Looking up -/

variable [BEq κ] [LawfulBEq κ]

/-- A key that comes before all keys of a list is not in it. -/
theorem lookup_eq_none (hr : Strict r) {k : κ} {l : List (κ × ν)}
    (h : ∀ e ∈ l, r k e.1) : l.lookup k = none := by
  rw [List.lookup_eq_none_iff]
  intro e he
  apply bne_iff_ne.mpr
  intro heq
  have hlt := h e he
  rw [← heq] at hlt
  exact hr.irrefl _ hlt

theorem lookup_before (hr : Strict r) {k k' : κ} {v : ν} {l : List (κ × ν)} (hlt : r k k')
    (h : ∀ e ∈ l, r k' e.1) : List.lookup k ((k', v) :: l) = none := by
  apply lookup_eq_none hr
  intro e he
  rcases List.mem_cons.mp he with rfl | he
  · exact hlt
  · exact hr.trans _ _ _ hlt (h e he)

/-- The last entry of a key is its first. -/
theorem lookup_reverse (hr : Strict r) {l : List (κ × ν)} (hl : Sorted r l) (k : κ) :
    l.reverse.lookup k = l.lookup k := by
  induction l with
  | nil => rfl
  | cons e l ih =>
    obtain ⟨k', v⟩ := e
    obtain ⟨hk', hl⟩ := List.pairwise_cons.mp hl
    rw [List.reverse_cons, List.lookup_append, ih hl]
    by_cases h : k = k'
    · subst h
      rw [lookup_eq_none hr hk', List.lookup_cons_self, List.lookup_cons_self]
      rfl
    · have hb : (k == k') = false := by simpa using h
      simp only [List.lookup_cons, hb, List.lookup_nil, Option.or_none]

/-- An entry is there where its key has its value. -/
theorem mem_iff_lookup (hr : Strict r) {l : List (κ × ν)} (hl : Sorted r l) {k : κ} {v : ν} :
    (k, v) ∈ l ↔ l.lookup k = some v := by
  induction l with
  | nil => simp
  | cons e l ih =>
    obtain ⟨k', v'⟩ := e
    obtain ⟨hk', hl⟩ := List.pairwise_cons.mp hl
    rw [List.mem_cons, ih hl]
    by_cases h : k = k'
    · subst h
      rw [lookup_eq_none hr hk', List.lookup_cons_self]
      simp [eq_comm]
    · have hb : (k == k') = false := by simpa using h
      simp [List.lookup_cons, hb, h]

/-- **A sorted list is known by its lookups.** -/
theorem eq_of_lookup (hr : Strict r) {l l' : List (κ × ν)} (hl : Sorted r l)
    (hl' : Sorted r l') (h : ∀ k, l.lookup k = l'.lookup k) : l = l' := by
  induction l generalizing l' with
  | nil =>
    cases l' with
    | nil => rfl
    | cons e' l' =>
      have hfirst := h e'.1
      rw [List.lookup_cons_self] at hfirst
      cases hfirst
  | cons e l ih =>
    obtain ⟨k, v⟩ := e
    obtain ⟨hk, htail⟩ := List.pairwise_cons.mp hl
    cases l' with
    | nil =>
      have hfirst := h k
      rw [List.lookup_cons_self] at hfirst
      cases hfirst
    | cons e' l' =>
      obtain ⟨k', v'⟩ := e'
      obtain ⟨hk', htail'⟩ := List.pairwise_cons.mp hl'
      -- a first key the other list has not got in front would come before itself
      have hkey : k = k' := by
        by_contra hne
        by_cases hlt : r k k'
        · have hfirst := h k
          rw [List.lookup_cons_self, lookup_before hr hlt hk'] at hfirst
          cases hfirst
        · have hfirst := h k'
          rw [List.lookup_cons_self, lookup_before hr (hr.total k k' hne hlt) hk] at hfirst
          cases hfirst
      subst hkey
      have hval : v = v' := by
        have hfirst := h k
        rw [List.lookup_cons_self, List.lookup_cons_self] at hfirst
        exact Option.some.inj hfirst
      subst hval
      have hrest : ∀ k₁, l.lookup k₁ = l'.lookup k₁ := by
        intro k₁
        by_cases heq : k₁ = k
        · rw [heq, lookup_eq_none hr hk, lookup_eq_none hr hk']
        · have hb : (k₁ == k) = false := by simpa using heq
          have hboth := h k₁
          simp only [List.lookup_cons, hb] at hboth
          exact hboth
      rw [ih htail htail' hrest]

section SetLookup
variable [DecidableEq κ] [DecidableRel r]

theorem lookup_set (key k : κ) (val : ν) (l : List (κ × ν)) :
    (set r key val l).lookup k = if k = key then some val else l.lookup k := by
  induction l with
  | nil => by_cases h : k = key <;> simp [set, h]
  | cons e l ih =>
    obtain ⟨k', v⟩ := e
    unfold set
    by_cases heq : key = k'
    · rw [if_pos heq]
      subst heq
      by_cases h : k = key
      · simp [h]
      · have hb : (k == key) = false := by simpa using h
        simp [List.lookup_cons, h, hb]
    · rw [if_neg heq]
      split
      · by_cases h : k = key
        · simp [h]
        · have hb : (k == key) = false := by simpa using h
          simp only [List.lookup_cons, hb, h, if_false]
      · by_cases h : k = k'
        · have hne : ¬ k = key := fun hk => heq (hk.symm.trans h)
          subst h
          simp [hne]
        · have hb : (k == k') = false := by simpa using h
          simp only [List.lookup_cons, hb, ih]

/-- Entries with a key of their own each are all there afterwards. -/
theorem lookup_setAll (hr : Strict r) (m : List (κ × ν)) {l : List (κ × ν)} (hl : Sorted r l)
    (k : κ) : (setAll r m l).lookup k = (l.lookup k).or (m.lookup k) := by
  induction l generalizing m with
  | nil => simp [setAll]
  | cons e l ih =>
    obtain ⟨k', v⟩ := e
    obtain ⟨hk', hl⟩ := List.pairwise_cons.mp hl
    show (setAll r (set r k' v m) l).lookup k = _
    rw [ih (set r k' v m) hl, lookup_set]
    by_cases h : k = k'
    · subst h
      rw [lookup_eq_none hr hk', List.lookup_cons_self, if_pos rfl]
      rfl
    · have hb : (k == k') = false := by simpa using h
      simp only [List.lookup_cons, hb, h, if_false]

/-- A map stored into one that has no other keys replaces it. -/
theorem setAll_eq (hr : Strict r) {m l : List (κ × ν)} (hm : Sorted r m) (hl : Sorted r l)
    (hkeys : ∀ k, l.lookup k = none → m.lookup k = none) : setAll r m l = l := by
  apply eq_of_lookup hr (hm.setAll hr l) hl
  intro k
  rw [lookup_setAll hr m hl]
  cases hk : l.lookup k with
  | none => exact hkeys k hk
  | some v => rfl

end SetLookup

end Lib.SortedMap
