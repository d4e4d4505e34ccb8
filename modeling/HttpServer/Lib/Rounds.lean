import Mathlib.Data.Finset.Card
import Mathlib.Data.Finset.Range
import Mathlib.Tactic.Common

/-! Recursions that go from one argument to the next.

`next` is the argument of the recursive call, or nothing where the recursion ends. How
many calls are left depends on the argument alone, so that a recursion that ends is never
called with one argument twice (`Ends.bounded`): it makes no more calls than there are
arguments that call again. -/
namespace Lib.Rounds
variable {σ : Type*} {next : σ → Option σ}

/-- From `s` the recursion ends after `n` calls of itself. -/
inductive Ends (next : σ → Option σ) : Nat → σ → Prop
  | here {s : σ} (h : next s = none) : Ends next 0 s
  | later {n : Nat} {s t : σ} (h : next s = some t) (ht : Ends next n t) : Ends next (n + 1) s

theorem Ends.unique {n m : Nat} {s : σ} (hn : Ends next n s) (hm : Ends next m s) : n = m := by
  induction hn generalizing m with
  | here h =>
    cases hm with
    | here _ => rfl
    | later h' _ =>
      rw [h] at h'
      cases h'
  | later h _ ih =>
    cases hm with
    | here h' =>
      rw [h] at h'
      cases h'
    | later h' ht' =>
      cases Option.some.inj (h.symm.trans h')
      rw [ih ht']

/-- On the way there is an argument for every number of calls left. -/
theorem Ends.visits {n : Nat} {s : σ} (h : Ends next n s) :
    ∀ k < n, ∃ t, Ends next (k + 1) t := by
  induction h with
  | here _ => exact fun k hk => absurd hk (Nat.not_lt_zero k)
  | later h ht ih =>
    intro k hk
    rcases Nat.lt_succ_iff_lt_or_eq.mp hk with hk | rfl
    · exact ih k hk
    · exact ⟨_, .later h ht⟩

/-- **No more calls than arguments that call again.** -/
theorem Ends.bounded {B : Finset σ} (hB : ∀ s t, next s = some t → s ∈ B) {n : Nat} {s : σ}
    (h : Ends next n s) : n ≤ B.card := by
  have hvisits : ∀ k, ∃ t, k < n → Ends next (k + 1) t := by
    intro k
    by_cases hk : k < n
    · obtain ⟨t, ht⟩ := h.visits k hk
      exact ⟨t, fun _ => ht⟩
    · exact ⟨s, fun hlt => absurd hlt hk⟩
  choose visited hvisited using hvisits
  have hmaps : ∀ k ∈ Finset.range n, visited k ∈ B := by
    intro k hk
    cases hvisited k (Finset.mem_range.mp hk) with
    | later hnext _ => exact hB _ _ hnext
  have hinj : Set.InjOn visited (Finset.range n) := by
    intro j hj k hk heq
    have hleft := hvisited j (Finset.mem_range.mp hj)
    have hright := hvisited k (Finset.mem_range.mp hk)
    rw [heq] at hleft
    exact Nat.succ.inj (hleft.unique hright)
  calc n = (Finset.range n).card := (Finset.card_range n).symm
    _ ≤ B.card := Finset.card_le_card_of_injOn visited hmaps hinj

/-- Where every argument that calls again is below `b`. -/
theorem Ends.le_bound {next : Nat → Option Nat} {b : Nat}
    (hb : ∀ s t, next s = some t → s < b) {n s : Nat} (h : Ends next n s) : n ≤ b := by
  have hcard := h.bounded (B := Finset.range b) fun s t hst => Finset.mem_range.mpr (hb s t hst)
  rwa [Finset.card_range] at hcard

/-- Where every call goes up and stays below `b`, the recursion ends. -/
theorem ends_of_increasing {next : Nat → Option Nat} {b : Nat} {P : Nat → Prop}
    (hP : ∀ s t, P s → next s = some t → P t ∧ s < b ∧ s < t) {s : Nat} (hs : P s) :
    ∃ n, Ends next n s := by
  induction hd : b - s using Nat.strongRecOn generalizing s with
  | ind d ih =>
    cases hnext : next s with
    | none => exact ⟨0, .here hnext⟩
    | some t =>
      obtain ⟨ht, hlt, hup⟩ := hP s t hs hnext
      obtain ⟨n, hn⟩ := ih (b - t) (by omega) ht rfl
      exact ⟨n + 1, .later hnext hn⟩

end Lib.Rounds
