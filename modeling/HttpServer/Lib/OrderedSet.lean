import Mathlib.Order.Lattice
import Mathlib.Data.List.Pairwise
import Mathlib.Tactic.Common

/-! Ordered sets as strictly increasing lists.

`insertBy r a l` puts `a` where the comparison wants it and drops it when an
equivalent element is there already. `OrderedSet α` carries the order of its
elements as a field, so that running through a set is running through its list. -/
namespace Lib

section InsertBy
variable {α : Type*} (r : α → α → Prop) [DecidableRel r]

/-- Insertion by a comparison; an equivalent element is left as it is. -/
def insertBy (a : α) : List α → List α
  | [] => [a]
  | b :: l => if r a b then a :: b :: l else if r b a then b :: insertBy a l else b :: l

variable {r}

theorem mem_insertBy_of_mem {a b : α} {l : List α} (h : b ∈ l) : b ∈ insertBy r a l := by
  induction l with
  | nil => cases h
  | cons c l ih =>
    unfold insertBy
    split
    · exact List.mem_cons_of_mem _ h
    · split
      · rcases List.mem_cons.mp h with rfl | h
        · exact List.mem_cons_self ..
        · exact List.mem_cons_of_mem _ (ih h)
      · exact h

theorem eq_or_mem_of_mem_insertBy {a b : α} {l : List α} (h : b ∈ insertBy r a l) :
    b = a ∨ b ∈ l := by
  induction l with
  | nil => exact .inl (List.mem_singleton.mp h)
  | cons c l ih =>
    unfold insertBy at h
    split at h
    · exact List.mem_cons.mp h
    · split at h
      · rcases List.mem_cons.mp h with rfl | h
        · exact .inr (List.mem_cons_self ..)
        · exact (ih h).imp_right (List.mem_cons_of_mem _)
      · exact .inr h

/-- What was inserted is there, or an element that stands in its place. -/
theorem mem_or_equiv_insertBy (a : α) (l : List α) :
    a ∈ insertBy r a l ∨ ∃ b ∈ l, ¬ r a b ∧ ¬ r b a := by
  induction l with
  | nil => exact .inl (List.mem_singleton.mpr rfl)
  | cons b l ih =>
    unfold insertBy
    by_cases hab : r a b
    · simp [hab]
    · by_cases hba : r b a
      · rw [if_neg hab, if_pos hba]
        rcases ih with h | ⟨c, hc, hlt⟩
        · exact .inl (List.mem_cons_of_mem _ h)
        · exact .inr ⟨c, List.mem_cons_of_mem _ hc, hlt⟩
      · exact .inr ⟨b, List.mem_cons_self .., hab, hba⟩

theorem pairwise_insertBy (htrans : ∀ a b c, r a b → r b c → r a c) (a : α) {l : List α}
    (h : l.Pairwise r) : (insertBy r a l).Pairwise r := by
  induction l with
  | nil => exact List.pairwise_singleton ..
  | cons b l ih =>
    obtain ⟨hb, hl⟩ := List.pairwise_cons.mp h
    unfold insertBy
    split
    · next hab =>
      refine List.pairwise_cons.mpr ⟨fun c hc => ?_, h⟩
      rcases List.mem_cons.mp hc with rfl | hc
      · exact hab
      · exact htrans _ _ _ hab (hb c hc)
    · split
      · next hba =>
        refine List.pairwise_cons.mpr ⟨fun c hc => ?_, ih hl⟩
        rcases eq_or_mem_of_mem_insertBy hc with rfl | hc
        · exact hba
        · exact hb c hc
      · exact h

/-- Only the comparisons with what is there already count. -/
theorem insertBy_congr {s : α → α → Prop} [DecidableRel s] {a : α} {l : List α}
    (h : ∀ b ∈ l, (r a b ↔ s a b) ∧ (r b a ↔ s b a)) : insertBy r a l = insertBy s a l := by
  induction l with
  | nil => rfl
  | cons b l ih =>
    obtain ⟨hab, hba⟩ := h b (List.mem_cons_self ..)
    rw [insertBy, insertBy, ih fun c hc => h c (List.mem_cons_of_mem b hc)]
    simp only [hab, hba]

end InsertBy

/-- A set whose elements are kept in order. -/
structure OrderedSet (α : Type*) [LinearOrder α] where
  toList : List α
  sorted : toList.Pairwise (· < ·)

namespace OrderedSet
variable {α : Type*} [LinearOrder α]

instance : Membership α (OrderedSet α) := ⟨fun s a => a ∈ s.toList⟩

theorem mem_def {s : OrderedSet α} {a : α} : a ∈ s ↔ a ∈ s.toList := Iff.rfl

def empty : OrderedSet α := ⟨[], .nil⟩

def insert (a : α) (s : OrderedSet α) : OrderedSet α :=
  ⟨insertBy (fun x y => x < y) a s.toList,
    @pairwise_insertBy _ (fun x y => x < y) _ (fun _ _ _ => lt_trans) a _ s.sorted⟩

/-- The elements that do not satisfy `p`. -/
def eraseIf (p : α → Bool) (s : OrderedSet α) : OrderedSet α :=
  ⟨s.toList.filter fun a => !p a, s.sorted.filter _⟩

@[simp] theorem not_mem_empty (a : α) : a ∉ (empty : OrderedSet α) := List.not_mem_nil

@[simp] theorem mem_insert {a b : α} {s : OrderedSet α} : b ∈ s.insert a ↔ b = a ∨ b ∈ s := by
  show b ∈ insertBy (fun x y => x < y) a s.toList ↔ b = a ∨ b ∈ s.toList
  refine ⟨eq_or_mem_of_mem_insertBy, ?_⟩
  intro h
  rcases h with rfl | h
  · rcases mem_or_equiv_insertBy (r := fun x y => x < y) b s.toList with h | ⟨c, hc, hbc, hcb⟩
    · exact h
    · have : b = c := le_antisymm (not_lt.mp hcb) (not_lt.mp hbc)
      exact mem_insertBy_of_mem (this ▸ hc)
  · exact mem_insertBy_of_mem h

@[simp] theorem mem_eraseIf {p : α → Bool} {a : α} {s : OrderedSet α} :
    a ∈ s.eraseIf p ↔ a ∈ s ∧ p a = false := by
  simp [mem_def, eraseIf, List.mem_filter]

theorem nodup (s : OrderedSet α) : s.toList.Nodup := s.sorted.imp ne_of_lt

end OrderedSet
end Lib
