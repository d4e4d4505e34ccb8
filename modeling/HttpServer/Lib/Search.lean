import Mathlib.Data.List.Basic
import Mathlib.Data.List.Infix
import Mathlib.Tactic.Common

/-! First occurrences of a word in a list.

`indexOf pat s` is the position of the first occurrence of `pat`, `findFrom pat s pos`
the same from a start position. A parser that looks for a delimiter is read
through two facts: a delimiter whose first letter does not occur in `u` is found
right behind `u` (`indexOf_delimiter`), and positions where the word cannot start
may be skipped (`indexOf_skip`). -/
namespace Lib.Search
variable {α : Type*} [DecidableEq α]

/-- The position of the first occurrence of `pat`. -/
def indexOf (pat : List α) : List α → Option Nat
  | [] => if pat = [] then some 0 else none
  | a :: s => if pat <+: a :: s then some 0 else (indexOf pat s).map (· + 1)

/-- The first occurrence at `pos` or behind it. -/
def findFrom (pat s : List α) (pos : Nat) : Option Nat :=
  if pos ≤ s.length then (indexOf pat (s.drop pos)).map (· + pos) else none

theorem indexOf_prefixed {pat s : List α} (h : pat <+: s) : indexOf pat s = some 0 := by
  cases s with
  | nil => simp [indexOf, List.prefix_nil.mp h]
  | cons a s => simp [indexOf, h]

theorem indexOf_cons_unprefixed {pat s : List α} {a : α} (h : ¬ pat <+: a :: s) :
    indexOf pat (a :: s) = (indexOf pat s).map (· + 1) := by
  simp [indexOf, h]

/-- What an occurrence at `i` says: the word starts there and nowhere before. -/
theorem indexOf_eq_some {pat s : List α} {i : Nat} (h : indexOf pat s = some i) :
    i ≤ s.length ∧ pat <+: s.drop i ∧ ∀ j < i, ¬ pat <+: s.drop j := by
  induction s generalizing i with
  | nil =>
    by_cases hp : pat = []
    · simp [indexOf, hp] at h
      subst h
      simp [hp]
    · simp [indexOf, hp] at h
  | cons a s ih =>
    by_cases hp : pat <+: a :: s
    · have hi : i = 0 := by simpa [indexOf_prefixed hp, eq_comm] using h
      subst hi
      exact ⟨Nat.zero_le _, hp, fun j hj => absurd hj (Nat.not_lt_zero j)⟩
    · rw [indexOf_cons_unprefixed hp] at h
      obtain ⟨k, hk, rfl⟩ := Option.map_eq_some_iff.mp h
      obtain ⟨hlen, hpre, hmin⟩ := ih hk
      refine ⟨by simpa using hlen, by simpa using hpre, fun j hj => ?_⟩
      cases j with
      | zero => exact hp
      | succ j => simpa using hmin j (by omega)

/-- Positions where the word does not start may be skipped. -/
theorem indexOf_skip {pat : List α} (u : List α) {v : List α}
    (h : ∀ j < u.length, ¬ pat <+: (u ++ v).drop j) :
    indexOf pat (u ++ v) = (indexOf pat v).map (· + u.length) := by
  induction u with
  | nil => simp
  | cons a u ih =>
    have h0 : ¬ pat <+: a :: (u ++ v) := by simpa using h 0 (by simp)
    have hu : ∀ j < u.length, ¬ pat <+: (u ++ v).drop j := by
      intro j hj
      simpa using h (j + 1) (by simpa using hj)
    rw [List.cons_append, indexOf_cons_unprefixed h0, ih hu, Option.map_map]
    congr 1

omit [DecidableEq α] in
/-- A word does not start inside a stretch that lacks its first letter. -/
theorem not_prefix_drop {a : α} {pat u : List α} (hu : a ∉ u) (v : List α) {j : Nat}
    (hj : j < u.length) : ¬ (a :: pat) <+: (u ++ v).drop j := by
  intro hp
  rw [List.drop_append_of_le_length (Nat.le_of_lt hj), List.drop_eq_getElem_cons hj,
    List.cons_append, List.cons_prefix_cons] at hp
  exact hu (hp.1 ▸ List.getElem_mem hj)

/-- The delimiter is found right behind a stretch that lacks its first letter. -/
theorem indexOf_delimiter {a : α} {pat u : List α} (hu : a ∉ u) (v : List α) :
    indexOf (a :: pat) (u ++ (a :: pat ++ v)) = some u.length := by
  rw [indexOf_skip u (fun j hj => not_prefix_drop hu _ hj),
    indexOf_prefixed (List.prefix_append _ _)]
  simp

theorem indexOf_absent {a : α} {pat s : List α} (hs : a ∉ s) : indexOf (a :: pat) s = none := by
  have := @indexOf_skip _ _ (a :: pat) s [] fun j hj => not_prefix_drop hs _ hj
  simpa [indexOf] using this

theorem findFrom_zero (pat s : List α) : findFrom pat s 0 = indexOf pat s := by
  simp [findFrom]

/-- A search from `pos` depends on what is left there alone. -/
theorem findFrom_eq {pat s v : List α} {pos : Nat} (hpos : pos ≤ s.length) (h : s.drop pos = v) :
    findFrom pat s pos = (indexOf pat v).map (· + pos) := by
  simp [findFrom, hpos, h]

theorem findFrom_eq_some {pat s : List α} {pos i : Nat} (h : findFrom pat s pos = some i) :
    pos ≤ i ∧ i ≤ s.length ∧ pat <+: s.drop i ∧ ∀ j, pos ≤ j → j < i → ¬ pat <+: s.drop j := by
  unfold findFrom at h
  split at h
  · obtain ⟨k, hk, rfl⟩ := Option.map_eq_some_iff.mp h
    obtain ⟨hlen, hpre, hmin⟩ := indexOf_eq_some hk
    rw [List.length_drop] at hlen
    rw [List.drop_drop] at hpre
    refine ⟨by omega, by omega, by rwa [Nat.add_comm] at hpre, fun j hj hjk => ?_⟩
    have := hmin (j - pos) (by omega)
    rwa [List.drop_drop, show pos + (j - pos) = j by omega] at this
  · cases h

/-- The room an occurrence takes. -/
theorem findFrom_fits {pat s : List α} {pos i : Nat} (h : findFrom pat s pos = some i) :
    i + pat.length ≤ s.length := by
  obtain ⟨_, hi, hpre, _⟩ := findFrom_eq_some h
  have := hpre.length_le
  rw [List.length_drop] at this
  omega

/-! ### What decides a search -/

/-- The first place where the word starts is the one that is found. -/
theorem indexOf_first {pat s : List α} {i : Nat} (hpre : pat <+: s.drop i) (hi : i ≤ s.length)
    (hmin : ∀ j < i, ¬ pat <+: s.drop j) : indexOf pat s = some i := by
  have hsplit : s = s.take i ++ s.drop i := (List.take_append_drop i s).symm
  have hlen : (s.take i).length = i := by
    rw [List.length_take, Nat.min_eq_left hi]
  rw [hsplit, indexOf_skip (s.take i) fun j hj => hsplit ▸ hmin j (hlen ▸ hj),
    indexOf_prefixed hpre, Option.map_some, hlen, Nat.zero_add]

theorem findFrom_first {pat s : List α} {pos i : Nat} (hpos : pos ≤ i) (hi : i ≤ s.length)
    (hpre : pat <+: s.drop i) (hmin : ∀ j, pos ≤ j → j < i → ¬ pat <+: s.drop j) :
    findFrom pat s pos = some i := by
  have hdrop : indexOf pat (s.drop pos) = some (i - pos) := by
    apply indexOf_first
    · rw [List.drop_drop, Nat.add_sub_cancel' hpos]
      exact hpre
    · rw [List.length_drop]
      omega
    · intro j hj
      rw [List.drop_drop]
      exact hmin (pos + j) (Nat.le_add_right ..) (by omega)
  rw [findFrom_eq (Nat.le_trans hpos hi) rfl, hdrop, Option.map_some, Nat.sub_add_cancel hpos]

omit [DecidableEq α] in
/-- Whether a word stands at a place is decided by the letters up to its end. -/
theorem prefix_drop_congr {pat s s' : List α} {n j : Nat} (h : s.take n = s'.take n)
    (hj : j + pat.length ≤ n) : pat <+: s.drop j ↔ pat <+: s'.drop j := by
  have hpiece : ∀ t : List α, (t.drop j).take pat.length = ((t.take n).drop j).take pat.length := by
    intro t
    rw [List.drop_take, List.take_take, Nat.min_eq_left (by omega)]
  have hiff : ∀ t : List α, pat <+: t.drop j ↔ (t.drop j).take pat.length = pat := fun t =>
    List.prefix_iff_eq_take.trans eq_comm
  rw [hiff s, hiff s', hpiece s, hpiece s', h]

/-- Strings that agree up to the end of the word found agree on where it is found. -/
theorem findFrom_congr {pat s s' : List α} {pos i n : Nat} (hf : findFrom pat s pos = some i)
    (hn : i + pat.length ≤ n) (h : s.take n = s'.take n) (hi' : i ≤ s'.length) :
    findFrom pat s' pos = some i := by
  obtain ⟨hpos, _, hpre, hmin⟩ := findFrom_eq_some hf
  refine findFrom_first hpos hi' ((prefix_drop_congr h hn).mp hpre) fun j hj hji hp => ?_
  exact hmin j hj hji ((prefix_drop_congr h (by omega)).mpr hp)

/-- A word that stands behind `pos` is found there or earlier. -/
theorem findFrom_le {pat s : List α} {pos k : Nat} (hk : pos ≤ k) (hlen : k ≤ s.length)
    (hpre : pat <+: s.drop k) : ∃ i, findFrom pat s pos = some i ∧ i ≤ k := by
  by_cases hmin : ∀ j, pos ≤ j → j < k → ¬ pat <+: s.drop j
  · exact ⟨k, findFrom_first hk hlen hpre hmin, Nat.le_refl k⟩
  · simp only [not_forall, not_not] at hmin
    obtain ⟨j, hj, hjk, hp⟩ := hmin
    obtain ⟨i, hi, hle⟩ := findFrom_le hj (by omega) hp
    exact ⟨i, hi, by omega⟩
termination_by k

/-! ### Words that do not occur -/

theorem indexOf_eq_none_iff {pat s : List α} : indexOf pat s = none ↔ ¬ pat <:+: s := by
  induction s with
  | nil =>
    rw [List.infix_nil, indexOf]
    split <;> simp_all
  | cons a s ih =>
    rw [List.infix_cons_iff]
    by_cases hp : pat <+: a :: s
    · simp [indexOf_prefixed hp, hp]
    · rw [indexOf_cons_unprefixed hp, Option.map_eq_none_iff, ih, not_or]
      exact ⟨fun h => ⟨hp, h⟩, fun h => h.2⟩

/-- A word of two letters that differ is found behind a stretch that lacks it, and behind no
other. -/
theorem indexOf_pair_iff {a b : α} (hab : a ≠ b) (u v : List α) :
    indexOf [a, b] (u ++ a :: b :: v) = some u.length ↔ ¬ [a, b] <:+: u := by
  refine ⟨fun h hinside => ?_, fun h => ?_⟩
  · obtain ⟨x, y, hxy⟩ := hinside
    obtain ⟨_, _, hmin⟩ := indexOf_eq_some h
    refine hmin x.length ?_ ?_
    · rw [← hxy, List.length_append, List.length_append, List.length_cons]
      omega
    · rw [← hxy, List.append_assoc, List.append_assoc, List.drop_left]
      exact List.prefix_append _ _
  · induction u with
    | nil => exact indexOf_prefixed ⟨v, rfl⟩
    | cons c u ih =>
      rw [List.infix_cons_iff, not_or] at h
      have hstart : ¬ [a, b] <+: c :: (u ++ a :: b :: v) := by
        intro hp
        obtain ⟨hc, hnext⟩ := List.cons_prefix_cons.mp hp
        cases u with
        | nil => exact hab (List.cons_prefix_cons.mp hnext).1.symm
        | cons d u =>
          refine h.1 (List.cons_prefix_cons.mpr ⟨hc, ?_⟩)
          exact List.cons_prefix_cons.mpr ⟨(List.cons_prefix_cons.mp hnext).1, List.nil_prefix⟩
      rw [List.cons_append, indexOf_cons_unprefixed hstart, ih h.2]
      rfl

omit [DecidableEq α] in
theorem prefix_append_cons_iff {a : α} {pat : List α} (ha : a ∉ pat) (u v : List α) :
    pat <+: u ++ a :: v ↔ pat <+: u := by
  induction u generalizing pat with
  | nil =>
    refine ⟨fun h => ?_, fun h => h.trans List.nil_prefix⟩
    cases pat with
    | nil => exact List.nil_prefix
    | cons b pat =>
      have hb := (List.cons_prefix_cons.mp h).1
      exact absurd (List.mem_cons_self ..) (hb ▸ ha)
  | cons c u ih =>
    cases pat with
    | nil => exact iff_of_true List.nil_prefix List.nil_prefix
    | cons b pat =>
      rw [List.cons_append, List.cons_prefix_cons, List.cons_prefix_cons,
        ih fun hmem => ha (List.mem_cons_of_mem b hmem)]

omit [DecidableEq α] in
/-- A word occurs on one side of a letter that it does not have. -/
theorem infix_append_cons_iff {a : α} {pat : List α} (ha : a ∉ pat) (u v : List α) :
    pat <:+: u ++ a :: v ↔ pat <:+: u ∨ pat <:+: v := by
  induction u with
  | nil =>
    rw [List.nil_append, List.infix_cons_iff, List.infix_nil, ← List.prefix_nil,
      ← prefix_append_cons_iff ha [] v, List.nil_append]
  | cons c u ih =>
    rw [List.cons_append, List.infix_cons_iff, ih, List.infix_cons_iff, ← List.cons_append,
      prefix_append_cons_iff ha, or_assoc]

/-- The word at the end is the first one where there is none in what goes before its last
letter. -/
theorem indexOf_last_iff (u pat : List α) (a : α) :
    indexOf (pat ++ [a]) (u ++ (pat ++ [a])) = some u.length ↔ ¬ pat ++ [a] <:+: u ++ pat := by
  refine ⟨fun h hinside => ?_, fun h => ?_⟩
  · obtain ⟨x, y, hxy⟩ := hinside
    have hlen := congrArg List.length hxy
    simp only [List.length_append, List.length_singleton] at hlen
    refine (indexOf_eq_some h).2.2 x.length (by omega) ?_
    rw [← List.append_assoc, ← hxy, List.append_assoc, List.append_assoc, List.drop_left]
    exact List.prefix_append _ _
  · refine indexOf_first ?_ ?_ fun j hj hpre => h ?_
    · rw [List.drop_left]
    · rw [List.length_append]
      exact Nat.le_add_right _ _
    · have hle : j ≤ (u ++ pat).length := by
        rw [List.length_append]
        omega
      rw [← List.append_assoc, List.drop_append_of_le_length hle] at hpre
      have hshort := List.prefix_of_prefix_length_le hpre (List.prefix_append _ _) (by
        rw [List.length_append, List.length_drop, List.length_append, List.length_singleton]
        omega)
      exact hshort.isInfix.trans (List.drop_suffix _ _).isInfix

end Lib.Search
