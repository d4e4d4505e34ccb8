import HttpServer.Utils.Percent
import HttpServer.Utils.Text

/-! Which sizes `parseHexSize` reads as what they say.

The accumulator is a `size_t` that is shifted for every character, so what is read is the
value modulo 2^64 (`parseHexSize_eq`), and there is nothing that asks for a first digit. The
size is right where there is a digit and no more than sixteen of them count. -/
namespace HttpServer.Utils
open Lib

/-- A size is read just where there is one below 2^64, and as that number. -/
def ReadsSize (s : Bytes) : Prop :=
  ((parseHexSize s).isSome ↔ s ≠ [] ∧ ∃ n, hexValue s = some n ∧ n < 18446744073709551616) ∧
    ∀ out, parseHexSize s = some out → hexValue s = some out.toNat

/-- The characters of a size without the zeros in front. -/
def significant (s : Bytes) : Bytes := s.dropWhile (· == ch '0')

/-- Only one digit is worth nothing. -/
theorem hexDigit_zero : ∀ c, (hexDigit? c).isSome →
    ((hexDigit? c).getD 0 = 0 ↔ c = ch '0') :=
  every_byte (by decide +kernel)

/-- The digits of a size are its places to the base sixteen. -/
theorem hexValue_eq_value {s : Bytes} {n : Nat} (h : hexValue s = some n) :
    n = Digits.value 16 (s.map fun c => (hexDigit? c).getD 0) := by
  suffices hfold : ∀ (s : Bytes) (m : Nat),
      s.foldlM (fun n c => (hexDigit? c).map (n * 16 + ·)) m = some n →
        n = (s.map fun c => (hexDigit? c).getD 0).foldl (fun n d => n * 16 + d) m from
    hfold s 0 h
  intro s
  induction s with
  | nil => exact fun m hm => (Option.some.inj hm).symm
  | cons b s ih =>
    intro m hm
    rw [List.foldlM_cons] at hm
    rw [List.map_cons, List.foldl_cons]
    cases hd : hexDigit? b with
    | none =>
      rw [hd] at hm
      cases hm
    | some d =>
      rw [hd] at hm
      exact ih _ hm

theorem significant_digits {s : Bytes} (h : ∀ c ∈ s, (hexDigit? c).isSome) :
    ((s.map fun c => (hexDigit? c).getD 0).dropWhile (· == 0)).length =
      (significant s).length := by
  induction s with
  | nil => rfl
  | cons c s ih =>
    have hzero := hexDigit_zero c (h c (List.mem_cons_self ..))
    have hrest := fun b hb => h b (List.mem_cons_of_mem c hb)
    rw [significant, List.map_cons]
    by_cases hc : c = ch '0'
    · rw [List.dropWhile_cons_of_pos (by simpa using hzero.mpr hc),
        List.dropWhile_cons_of_pos (by simpa using hc)]
      exact ih hrest
    · have hworth : ¬ (hexDigit? c).getD 0 = 0 := fun hd => hc (hzero.mp hd)
      rw [List.dropWhile_cons_of_neg (by simpa using hworth),
        List.dropWhile_cons_of_neg (by simpa using hc), List.length_cons, List.length_map,
        List.length_cons]

/-- A size fits as many hexadecimal places as it has digits that count. -/
theorem hexValue_lt_iff {s : Bytes} {n : Nat} (h : hexValue s = some n) (k : Nat) :
    n < 16 ^ k ↔ (significant s).length ≤ k := by
  rw [hexValue_eq_value h, Digits.value_lt_pow_iff (by decide),
    significant_digits (hexValue_digits h)]
  intro d hd
  obtain ⟨c, _, rfl⟩ := List.mem_map.mp hd
  exact hexDigit_lt c

/-- A size is none where a byte of it is no digit. -/
theorem hexValue_eq_none {s : Bytes} : hexValue s = none ↔ ∃ c ∈ s, hexDigit? c = none := by
  refine ⟨fun h => ?_, fun ⟨c, hc, hnone⟩ => ?_⟩
  · suffices hfold : ∀ (s : Bytes) (m : Nat),
        s.foldlM (fun n c => (hexDigit? c).map (n * 16 + ·)) m = none →
          ∃ c ∈ s, hexDigit? c = none from hfold s 0 h
    intro s
    induction s with
    | nil => exact fun m hm => absurd hm (by simp)
    | cons b s ih =>
      intro m hm
      rw [List.foldlM_cons] at hm
      cases hd : hexDigit? b with
      | none => exact ⟨b, List.mem_cons_self .., hd⟩
      | some d =>
        rw [hd] at hm
        obtain ⟨c, hc, hnone⟩ := ih _ hm
        exact ⟨c, List.mem_cons_of_mem _ hc, hnone⟩
  · cases hs : hexValue s with
    | none => rfl
    | some n =>
      have hdigit := hexValue_digits hs c hc
      rw [hnone] at hdigit
      cases hdigit

/-- **A size is read as what it says exactly where it is not empty and, if all of it is
digits, at most sixteen of them count.** -/
theorem readsSize_iff (s : Bytes) :
    ReadsSize s ↔ s ≠ [] ∧ ((∃ c ∈ s, hexDigit? c = none) ∨ (significant s).length ≤ 16) := by
  rw [ReadsSize, parseHexSize_eq, ← hexValue_eq_none]
  cases hs : hexValue s with
  | none =>
    have hne : s ≠ [] := by
      intro hnil
      rw [hnil] at hs
      cases hs
    simp [hne]
  | some n =>
    have hfits : (significant s).length ≤ 16 ↔ n < 18446744073709551616 :=
      (hexValue_lt_iff hs 16).symm
    have hread : (UInt64.ofNat n).toNat = n % 18446744073709551616 := rfl
    simp only [Option.map_some, Option.isSome_some, true_iff, Option.some.injEq, exists_eq_left',
      reduceCtorEq, false_or, hfits, forall_eq']
    refine ⟨fun h => h.1, fun h => ⟨h, ?_⟩⟩
    rw [hread, Nat.mod_eq_of_lt h.2]

/-- No digit at all is taken for the size 0, and so are a one and sixteen zeros. -/
theorem size_misread :
    parseHexSize [] = some 0 ∧ ¬ ReadsSize [] ∧
      parseHexSize (text "10000000000000000") = some 0 ∧
      ¬ ReadsSize (text "10000000000000000") := by
  refine ⟨rfl, fun h => (h.1.mp rfl).1 rfl, by decide +kernel, fun h => ?_⟩
  have hread := h.2 0 (by decide +kernel)
  exact absurd hread (by decide +kernel)

end HttpServer.Utils
