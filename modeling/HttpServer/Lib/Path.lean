import Mathlib.Data.List.Basic
import Mathlib.Data.List.Infix
import Mathlib.Tactic.Common

/-! Walks in a tree of names.

A place is the list of names that lead to it from the root. A walk stays, goes up or goes
down by a name at each step, and seen as a whole climbs some levels and then goes down by
some names (`walk_eq`). It ends at or below the place it started from exactly where it comes
down again by the names of the levels it climbed (`prefix_walk_iff`). -/
namespace Lib.Path
variable {α : Type*}

inductive Step (α : Type*) where
  | stay
  | up
  | down (name : α)

/-- One step; above the root there is nothing. -/
def enter (place : List α) : Step α → List α
  | .stay => place
  | .up => place.dropLast
  | .down name => place ++ [name]

def walk (place : List α) (steps : List (Step α)) : List α := steps.foldl enter place

theorem walk_append (place : List α) (a b : List (Step α)) :
    walk place (a ++ b) = walk (walk place a) b := by
  unfold walk
  rw [List.foldl_append]

/-! ### Climbs -/

/-- Levels up, and then names down. -/
@[ext]
structure Climb (α : Type*) where
  ups : Nat
  names : List α

namespace Climb

/-- One more step: up takes back a name, where there is one. -/
def enter (c : Climb α) : Step α → Climb α
  | .stay => c
  | .up =>
    match c.names with
    | [] => ⟨c.ups + 1, []⟩
    | names => ⟨c.ups, names.dropLast⟩
  | .down name => ⟨c.ups, c.names ++ [name]⟩

/-- Where a climb leads. -/
def target (c : Climb α) (place : List α) : List α :=
  place.take (place.length - c.ups) ++ c.names

/-- The names that are left are the first that are come back by. -/
def Returns (c : Climb α) (place : List α) : Prop :=
  place.drop (place.length - c.ups) <+: c.names

instance [DecidableEq α] (c : Climb α) (place : List α) : Decidable (c.Returns place) := by
  unfold Returns
  infer_instance

theorem target_enter (c : Climb α) (s : Step α) (place : List α) :
    (c.enter s).target place = Path.enter (c.target place) s := by
  obtain ⟨ups, names⟩ := c
  cases s with
  | stay => rfl
  | up =>
    cases names with
    | nil =>
      show place.take (place.length - (ups + 1)) ++ [] =
        (place.take (place.length - ups) ++ []).dropLast
      rw [List.append_nil, List.append_nil, List.dropLast_eq_take, List.take_take,
        List.length_take]
      congr 1
      omega
    | cons name names =>
      show place.take (place.length - ups) ++ (name :: names).dropLast =
        (place.take (place.length - ups) ++ name :: names).dropLast
      rw [List.dropLast_append_of_ne_nil (List.cons_ne_nil name names)]
  | down name => exact (List.append_assoc ..).symm

/-- **A climb stays below its start** exactly where it returns by the names it left. -/
theorem prefix_target_iff (c : Climb α) (place : List α) :
    place <+: c.target place ↔ c.Returns place := by
  unfold target Returns
  conv => lhs; lhs; rw [← List.take_append_drop (place.length - c.ups) place]
  exact List.prefix_append_right_inj _

end Climb

/-- A walk as a climb. -/
def climb (steps : List (Step α)) : Climb α := steps.foldl Climb.enter ⟨0, []⟩

theorem foldl_target (steps : List (Step α)) (c : Climb α) (place : List α) :
    (steps.foldl Climb.enter c).target place = walk (c.target place) steps := by
  induction steps generalizing c with
  | nil => rfl
  | cons s steps ih =>
    rw [List.foldl_cons, ih, Climb.target_enter]
    rfl

theorem walk_eq (place : List α) (steps : List (Step α)) :
    walk place steps = (climb steps).target place := by
  have hstart : Climb.target ⟨0, []⟩ place = place := by
    simp [Climb.target]
  rw [climb, foldl_target, hstart]

theorem prefix_walk_iff (place : List α) (steps : List (Step α)) :
    place <+: walk place steps ↔ (climb steps).Returns place := by
  rw [walk_eq, Climb.prefix_target_iff]

/-- A walk that never goes up stays below its start. -/
theorem climb_returns {steps : List (Step α)} (h : Step.up ∉ steps) (place : List α) :
    (climb steps).Returns place := by
  have hups : ∀ c : Climb α, (steps.foldl Climb.enter c).ups = c.ups := by
    induction steps with
    | nil => exact fun c => rfl
    | cons s steps ih =>
      intro c
      rw [List.foldl_cons, ih fun hup => h (List.mem_cons_of_mem _ hup)]
      cases s with
      | stay => rfl
      | up => exact absurd (List.mem_cons_self ..) h
      | down name => rfl
  unfold Climb.Returns climb
  rw [hups, Nat.sub_zero, List.drop_length]
  exact List.nil_prefix

/-! ### Neighbours -/

/-- A climb as it is seen from where one step leads. -/
def Climb.beside (c : Climb α) : Step α → Climb α
  | .stay => c
  | .up => ⟨c.ups - 1, c.names⟩
  | .down _ => ⟨c.ups + 1, c.names⟩

/-- A walk ends at or below a neighbour of its start exactly where, seen from the neighbour,
it returns. -/
theorem enter_prefix_walk_iff (place : List α) (s : Step α) (steps : List (Step α)) :
    enter place s <+: walk place steps ↔ ((climb steps).beside s).Returns (enter place s) := by
  rw [walk_eq]
  generalize climb steps = c
  obtain ⟨ups, names⟩ := c
  cases s with
  | stay => exact Climb.prefix_target_iff _ place
  | up =>
    show place.dropLast <+: place.take (place.length - ups) ++ names ↔
      place.dropLast.drop (place.dropLast.length - (ups - 1)) <+: names
    cases ups with
    | zero =>
      have hleft : place.dropLast <+: place.take (place.length - 0) ++ names := by
        rw [Nat.sub_zero, List.take_length]
        exact (List.dropLast_prefix place).trans (List.prefix_append place names)
      have hright : place.dropLast.drop (place.dropLast.length - (0 - 1)) <+: names := by
        rw [Nat.zero_sub, Nat.sub_zero, List.drop_length]
        exact List.nil_prefix
      exact iff_of_true hleft hright
    | succ ups =>
      have hcut : place.take (place.length - (ups + 1)) =
          place.dropLast.take (place.length - (ups + 1)) := by
        rw [List.dropLast_eq_take, List.take_take]
        congr 1
        omega
      have hlen : place.dropLast.length - (ups + 1 - 1) = place.length - (ups + 1) := by
        rw [List.length_dropLast]
        omega
      rw [hcut, hlen]
      conv => lhs; lhs; rw [← List.take_append_drop (place.length - (ups + 1)) place.dropLast]
      exact List.prefix_append_right_inj _
  | down name =>
    show place ++ [name] <+: place.take (place.length - ups) ++ names ↔
      (place ++ [name]).drop ((place ++ [name]).length - (ups + 1)) <+: names
    have hlen : (place ++ [name]).length - (ups + 1) = place.length - ups := by
      rw [List.length_append]
      exact Nat.add_sub_add_right ..
    rw [hlen, List.drop_append_of_le_length (Nat.sub_le ..)]
    conv => lhs; lhs; rw [← List.take_append_drop (place.length - ups) place, List.append_assoc]
    exact List.prefix_append_right_inj _

end Lib.Path
