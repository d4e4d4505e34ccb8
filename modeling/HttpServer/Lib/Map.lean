import Mathlib.Data.Finmap

/-! Finite maps with one type of values, as a program fills them: entry after
entry, a later entry for the same key replacing the earlier one. -/
namespace Lib

/-- A finite map from `κ` to `ν`. -/
abbrev Map (κ ν : Type*) := Finmap fun _ : κ => ν

namespace Map
variable {κ ν : Type*} [DecidableEq κ]

/-- The entries stored one after the other. -/
def setAll (m : Map κ ν) (l : List (κ × ν)) : Map κ ν := l.foldl (fun m e => m.insert e.1 e.2) m

/-- The map of a list of entries: the last entry of a key wins. -/
def ofList (l : List (κ × ν)) : Map κ ν := setAll ∅ l

@[simp] theorem setAll_nil (m : Map κ ν) : setAll m [] = m := rfl

@[simp] theorem setAll_cons (m : Map κ ν) (e : κ × ν) (l : List (κ × ν)) :
    setAll m (e :: l) = setAll (m.insert e.1 e.2) l := rfl

theorem lookup_insert_eq (m : Map κ ν) (k k' : κ) (v : ν) :
    (m.insert k' v).lookup k = if k = k' then some v else m.lookup k := by
  split
  · next h => subst h; exact Finmap.lookup_insert m
  · next h => exact Finmap.lookup_insert_of_ne m h

@[simp] theorem setAll_concat (m : Map κ ν) (l : List (κ × ν)) (e : κ × ν) :
    setAll m (l ++ [e]) = (setAll m l).insert e.1 e.2 := by
  rw [setAll, List.foldl_append]
  rfl

/-- What is found was there before or is among the entries. -/
theorem mem_of_lookup_setAll {m : Map κ ν} {l : List (κ × ν)} {k : κ} {v : ν}
    (h : (setAll m l).lookup k = some v) : (k, v) ∈ l ∨ m.lookup k = some v := by
  induction l generalizing m with
  | nil => exact .inr h
  | cons e l ih =>
    rcases ih h with hl | hm
    · exact .inl (List.mem_cons_of_mem _ hl)
    · rw [lookup_insert_eq] at hm
      split at hm
      · next hk =>
        left
        rw [hk, ← Option.some.inj hm]
        exact List.mem_cons_self ..
      · exact .inr hm

/-- The last entry of a key decides, and what was stored before where there is none. -/
theorem lookup_setAll (m : Map κ ν) (l : List (κ × ν)) (k : κ) :
    (setAll m l).lookup k = (l.reverse.lookup k).or (m.lookup k) := by
  induction l generalizing m with
  | nil => simp
  | cons e l ih =>
    obtain ⟨k', v⟩ := e
    rw [setAll_cons, ih, List.reverse_cons, List.lookup_append, lookup_insert_eq, Option.or_assoc]
    congr 1
    by_cases h : k = k'
    · simp [h]
    · have hb : (k == k') = false := by simpa using h
      simp [List.lookup_cons, h, hb]

/-- The value the last entry of a key gives it. -/
def lastValue (l : List (κ × ν)) (k : κ) : Option ν := l.reverse.lookup k

theorem lookup_ofList (l : List (κ × ν)) (k : κ) : (ofList l).lookup k = lastValue l k := by
  simp [ofList, lookup_setAll, lastValue]

/-- Two lists of entries build the same map when each key's last entries agree. -/
theorem ofList_eq_iff (l l' : List (κ × ν)) :
    ofList l = ofList l' ↔ ∀ k, lastValue l k = lastValue l' k := by
  constructor
  · intro h k
    rw [← lookup_ofList, h, lookup_ofList]
  · intro h
    apply Finmap.ext_lookup
    intro k
    rw [lookup_ofList, h, lookup_ofList]

/-- Entries change nothing where the last of each key is there already. -/
theorem setAll_eq_self_iff (m : Map κ ν) (l : List (κ × ν)) :
    setAll m l = m ↔ ∀ k v, lastValue l k = some v → m.lookup k = some v := by
  constructor
  · intro h k v hlast
    rw [← h, lookup_setAll, ← lastValue, hlast, Option.some_or]
  · intro h
    apply Finmap.ext_lookup
    intro k
    rw [lookup_setAll, ← lastValue]
    cases hlast : lastValue l k with
    | none => rw [Option.none_or]
    | some v => rw [Option.some_or, h k v hlast]

/-- Storing what is there already changes nothing. -/
theorem setAll_of_agree (m : Map κ ν) (l : List (κ × ν))
    (h : ∀ e ∈ l, m.lookup e.1 = some e.2) : setAll m l = m := by
  rw [setAll_eq_self_iff]
  intro k v hlast
  rw [← lookup_ofList] at hlast
  rcases mem_of_lookup_setAll hlast with hmem | hempty
  · exact h (k, v) hmem
  · cases hempty

/-! ### Running over a map's own entries -/

/-- The entries of a representing list. -/
def pairs (al : AList fun _ : κ => ν) : List (κ × ν) := al.entries.map fun e => (e.1, e.2)

theorem mem_pairs (al : AList fun _ : κ => ν) (e : κ × ν) (h : e ∈ pairs al) :
    al.lookup e.1 = some e.2 := by
  obtain ⟨s, hs, rfl⟩ := List.mem_map.mp h
  exact AList.mem_lookup_iff.mpr hs

theorem lookup_setAll_pairs (m : Map κ ν) (al : AList fun _ : κ => ν) (k : κ) :
    (setAll m (pairs al)).lookup k = (al.lookup k).or (m.lookup k) := by
  rw [lookup_setAll]
  congr 1
  have hmem : ∀ v, (k, v) ∈ (pairs al).reverse ↔ al.lookup k = some v := by
    intro v
    constructor
    · intro h
      exact mem_pairs al _ (List.mem_reverse.mp h)
    · intro h
      exact List.mem_reverse.mpr (List.mem_map.mpr ⟨⟨k, v⟩, AList.mem_lookup_iff.mp h, rfl⟩)
  cases hl : al.lookup k with
  | none =>
    rw [List.lookup_eq_none_iff]
    intro p hp
    apply bne_iff_ne.mpr
    intro hk
    subst hk
    have := (hmem p.2).mp hp
    rw [hl] at this
    cases this
  | some v =>
    obtain ⟨l₁, l₂, hsplit⟩ := List.append_of_mem ((hmem v).mpr hl)
    cases hr : (pairs al).reverse.lookup k with
    | none =>
      rw [List.lookup_eq_none_iff] at hr
      have := hr (k, v) ((hmem v).mpr hl)
      simp at this
    | some w =>
      obtain ⟨l₁, l₂, hw, _⟩ := List.lookup_eq_some_iff.mp hr
      have hin : (k, w) ∈ (pairs al).reverse := by rw [hw]; simp
      rw [← hl, (hmem w).mp hin]

/-- Every entry of the map stored again under its own key, in whatever order the
map is run through. -/
def restore (m : Map κ ν) : Map κ ν :=
  m.liftOn (fun al => setAll m (pairs al)) fun a b h => by
    apply Finmap.ext_lookup
    intro k
    rw [lookup_setAll_pairs, lookup_setAll_pairs, AList.perm_lookup h]

theorem restore_eq (m : Map κ ν) : restore m = m := by
  refine Finmap.induction_on m fun al => ?_
  exact setAll_of_agree _ _ fun e he => mem_pairs al e he

end Map
end Lib
