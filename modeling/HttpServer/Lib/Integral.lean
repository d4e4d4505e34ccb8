import Mathlib.Algebra.Group.Nat.Defs
import Mathlib.Tactic.Common

/-! Integer types of a machine: a width, with or without a sign.

A type has the numbers of its range (`InRange`); converted to it, a number becomes the one of
them that is equal modulo the type's modulus (`wrap`). Sums and products of converted numbers
may be converted once, at the end (`wrap_mul_add`). -/
namespace Lib

/-- No type lies between a short integer and the 32 bits that arithmetic is done in. -/
structure IntType where
  signed : Bool
  width : Nat
  pos : 0 < width
  standard : width ≤ 16 ∨ 32 ≤ width

namespace IntType
variable (T : IntType)

def modulus : Nat := 2 ^ T.width

def half : Nat := 2 ^ (T.width - 1)

def min : Int := if T.signed then -(T.half : Int) else 0

def max : Int := if T.signed then T.half - 1 else T.modulus - 1

def InRange (n : Int) : Prop := T.min ≤ n ∧ n ≤ T.max

instance : DecidablePred T.InRange :=
  fun n => inferInstanceAs (Decidable (T.min ≤ n ∧ n ≤ T.max))

/-- The number of the type that another is converted to. -/
def wrap (n : Int) : Int := if T.signed then n.bmod T.modulus else n % T.modulus

/-- What arithmetic on the type is done in. -/
def int : IntType := {signed := true, width := 32, pos := by decide, standard := by decide}

/-- The integer promotion: a type that is narrower than `int` is taken for `int`. -/
def promoted : IntType := if T.width < 32 then int else T

theorem half_pos : 0 < T.half := Nat.pow_pos (by decide)

theorem modulus_eq : T.modulus = 2 * T.half := by
  have hwidth : T.width = (T.width - 1) + 1 := (Nat.sub_add_cancel T.pos).symm
  rw [modulus, half, hwidth, Nat.pow_succ, Nat.mul_comm, Nat.add_sub_cancel]

theorem modulus_le (h : T.width ≤ 16) : T.modulus ≤ 65536 :=
  Nat.pow_le_pow_right (show 0 < 2 by decide) h

theorem zero_inRange : T.InRange 0 := by
  have hhalf := T.half_pos
  have hmodulus := T.modulus_eq
  unfold InRange min max
  split <;> omega

theorem inRange_of_nonneg {n : Int} (hn : 0 ≤ n) (hmax : n ≤ T.max) : T.InRange n :=
  ⟨Int.le_trans T.zero_inRange.1 hn, hmax⟩

/-- A converted number is in the range. -/
theorem inRange_wrap (n : Int) : T.InRange (T.wrap n) := by
  have hhalf := T.half_pos
  have hmodulus := T.modulus_eq
  unfold InRange min max wrap
  split
  · have hle := @Int.le_bmod n T.modulus (by omega)
    have hlt := @Int.bmod_lt n T.modulus (by omega)
    omega
  · have hle := Int.emod_nonneg n (show (T.modulus : Int) ≠ 0 by omega)
    have hlt := Int.emod_lt_of_pos n (show (0 : Int) < T.modulus by omega)
    omega

/-- A number of the type is converted to itself. -/
theorem wrap_of_inRange {n : Int} (h : T.InRange n) : T.wrap n = n := by
  have hmodulus := T.modulus_eq
  obtain ⟨hmin, hmax⟩ := h
  unfold wrap
  unfold min at hmin
  unfold max at hmax
  split
  · next hsigned =>
    rw [if_pos hsigned] at hmin hmax
    exact Int.bmod_eq_of_le (by omega) (by omega)
  · next hsigned =>
    rw [if_neg hsigned] at hmin hmax
    exact Int.emod_eq_of_lt hmin (by omega)

/-- Conversion keeps a number up to the modulus. -/
theorem wrap_emod (n : Int) : T.wrap n % T.modulus = n % T.modulus := by
  unfold wrap
  split
  · exact Int.bmod_emod
  · exact Int.emod_emod_of_dvd n (Int.dvd_refl _)

theorem wrap_congr {n m : Int} (h : n % T.modulus = m % T.modulus) : T.wrap n = T.wrap m := by
  unfold wrap
  split
  · rw [← Int.emod_bmod, h, Int.emod_bmod]
  · exact h

/-- **Numbers may be converted before they are multiplied and added, too.** -/
theorem wrap_mul_add (n k d : Int) : T.wrap (T.wrap n * k + d) = T.wrap (n * k + d) := by
  apply wrap_congr
  rw [Int.add_emod, Int.mul_emod, wrap_emod, ← Int.mul_emod, ← Int.add_emod]

theorem wrap_neg (n : Int) : T.wrap (-T.wrap n) = T.wrap (-n) := by
  have h := T.wrap_mul_add n (-1) 0
  rwa [Int.add_zero, Int.add_zero, Int.mul_neg_one, Int.mul_neg_one] at h

end IntType
end Lib
