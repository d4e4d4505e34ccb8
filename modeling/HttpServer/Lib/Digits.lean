import Mathlib.Algebra.Group.Nat.Defs
import Mathlib.Data.List.Basic
import Mathlib.Data.List.Induction
import Mathlib.Tactic.Common

/-! Numbers in positional notation, the most significant digit first.

`value` reads a list of digits, `places` writes the last `k` of them. A writer that
peels digits off with divisions or shifts is compared with `places`, a reader that
multiplies and adds with `value`; `value_places` puts the two together. -/
namespace Lib.Digits

/-- The number a list of digits stands for. -/
def value (base : Nat) (digits : List Nat) : Nat := digits.foldl (fun n d => n * base + d) 0

/-- The last `k` digits of a number. -/
def places (base : Nat) : Nat → Nat → List Nat
  | 0, _ => []
  | k + 1, n => places base k (n / base) ++ [n % base]

@[simp] theorem value_nil (base : Nat) : value base [] = 0 := rfl

theorem value_concat (base : Nat) (digits : List Nat) (d : Nat) :
    value base (digits ++ [d]) = value base digits * base + d := by
  simp [value]

@[simp] theorem places_length (base k n : Nat) : (places base k n).length = k := by
  induction k generalizing n with
  | zero => rfl
  | succ k ih => rw [places, List.length_append, ih, List.length_singleton]

theorem places_lt {base : Nat} (hbase : 0 < base) (k n : Nat) :
    ∀ d ∈ places base k n, d < base := by
  induction k generalizing n with
  | zero => exact fun d hd => absurd hd List.not_mem_nil
  | succ k ih =>
    intro d hd
    rcases List.mem_append.mp hd with hd | hd
    · exact ih _ d hd
    · rw [List.mem_singleton.mp hd]
      exact Nat.mod_lt n hbase

/-- Each digit by itself, found with one division. -/
theorem places_eq (base k n : Nat) :
    places base k n = (List.range k).reverse.map fun i => n / base ^ i % base := by
  induction k generalizing n with
  | zero => rfl
  | succ k ih =>
    rw [places, ih, List.range_succ_eq_map, List.reverse_cons, List.map_append,
      ← List.map_reverse, List.map_map, List.map_singleton, Nat.pow_zero, Nat.div_one]
    congr 1
    refine List.map_congr_left fun i _ => ?_
    rw [Nat.div_div_eq_div_mul, Function.comp_apply, Nat.pow_succ, Nat.mul_comm]

/-- Written and read again, a number that fits is the same. -/
theorem value_places {base k n : Nat} (hn : n < base ^ k) : value base (places base k n) = n := by
  induction k generalizing n with
  | zero =>
    rw [Nat.pow_zero] at hn
    rw [places, value_nil]
    omega
  | succ k ih =>
    have hdiv : n / base < base ^ k := by
      apply Nat.div_lt_of_lt_mul
      rwa [Nat.pow_succ, Nat.mul_comm] at hn
    rw [places, value_concat, ih hdiv, Nat.mul_comm]
    exact Nat.div_add_mod n base

/-- Digits below the base make a number below its power. -/
theorem value_lt {base : Nat} (digits : List Nat) (h : ∀ d ∈ digits, d < base) :
    value base digits < base ^ digits.length := by
  induction digits using List.reverseRecOn with
  | nil => exact Nat.lt_of_lt_of_eq Nat.zero_lt_one (Nat.pow_zero base).symm
  | append_singleton digits d ih =>
    have hd : d < base := h d (by simp)
    have hvalue := ih fun c hc => h c (List.mem_append_left _ hc)
    rw [value_concat, List.length_append, List.length_singleton, Nat.pow_succ]
    calc value base digits * base + d < value base digits * base + base := by omega
      _ = (value base digits + 1) * base := (Nat.succ_mul _ _).symm
      _ ≤ base ^ digits.length * base := Nat.mul_le_mul_right _ hvalue

/-- Zeros in front are worth nothing. -/
theorem value_dropWhile_zero (base : Nat) (digits : List Nat) :
    value base (digits.dropWhile (· == 0)) = value base digits := by
  induction digits with
  | nil => rfl
  | cons d digits ih =>
    by_cases hd : d = 0
    · rw [hd, List.dropWhile_cons_of_pos rfl, ih]
      simp [value]
    · rw [List.dropWhile_cons_of_neg (by simpa using hd)]

/-- The first digit is worth a power of the base. -/
theorem pow_le_value {base d : Nat} (hd : d ≠ 0) (digits : List Nat) :
    base ^ digits.length ≤ value base (d :: digits) := by
  induction digits using List.reverseRecOn with
  | nil =>
    rw [List.length_nil, Nat.pow_zero]
    simp only [value, List.foldl_cons, List.foldl_nil, Nat.zero_mul, Nat.zero_add]
    omega
  | append_singleton digits c ih =>
    rw [← List.cons_append, value_concat, List.length_append, List.length_singleton, Nat.pow_succ]
    exact Nat.le_add_right_of_le (Nat.mul_le_mul_right _ ih)

/-- **A number is below a power of the base as its digits, without the zeros in front,
are no more than the exponent.** -/
theorem value_lt_pow_iff {base : Nat} (hbase : 1 < base) {digits : List Nat}
    (hdigits : ∀ d ∈ digits, d < base) (k : Nat) :
    value base digits < base ^ k ↔ (digits.dropWhile (· == 0)).length ≤ k := by
  rw [← value_dropWhile_zero]
  refine ⟨fun h => ?_, fun h => ?_⟩
  · cases hsig : digits.dropWhile (· == 0) with
    | nil => exact Nat.zero_le k
    | cons d rest =>
      have hd : d ≠ 0 := by
        have hhead := List.head_dropWhile_not (· == 0) (l := digits)
          (by rw [hsig]; exact List.cons_ne_nil _ _)
        simpa [hsig] using hhead
      rw [hsig] at h
      have hpow := Nat.lt_of_le_of_lt (pow_le_value hd rest) h
      exact (Nat.pow_lt_pow_iff_right hbase).mp hpow
  · refine Nat.lt_of_lt_of_le (value_lt _ fun d hd => ?_) (Nat.pow_le_pow_right (by omega) h)
    exact hdigits d ((List.dropWhile_sublist _).subset hd)

end Lib.Digits
