import HttpServer.Lib.Integral
import HttpServer.Utils.Percent
import HttpServer.Utils.Text

/-! Integers in the environment.

`getEnv` of an integral type adds up digits in the type that its own is promoted to and
converts each sum back. Nothing looks at the range. In a type narrower than `int` the digits
are all added up, and what does not fit is reduced; in any other the sum itself leaves the
range, undefined where there is a sign. A sign without digits is taken for 0. -/
namespace HttpServer.Utils
open Lib

/-! ### What `getEnv` does -/

/-- An operation with this exact result: undefined where a signed type does not have it, and
reduced where an unsigned type does not. -/
def machine (T : IntType) (n : Int) : Except Fault Int :=
  if T.signed ∧ ¬ T.InRange n then .error .undefined else .ok (T.wrap n)

/-- The operation where no type may be left. -/
def checked (T : IntType) (n : Int) : Except Fault Int :=
  if T.InRange n then .ok n else .error .undefined

/-- The loop over the digits; nothing where another character is among them. -/
def integralLoop (T : IntType) (op : Int → Except Fault Int) :
    Int → Bytes → Except Fault (Option Int)
  | result, [] => .ok (some result)
  | result, c :: rest =>
    if isDigit c then do
      let product ← op (result * 10)
      let sum ← op (product + (c - ch '0').toNat)
      integralLoop T op (T.wrap sum) rest
    else .ok none

/-- A minus sign counts where the type has one. -/
def negative (T : IntType) (value : Bytes) : Bool := T.signed && value.head? == some (ch '-')

/-- `sv` from `pos` on. -/
def unsignedPart (T : IntType) (value : Bytes) : Bytes :=
  if negative T value then value.drop 1 else value

/-- The branch for integral types, with its arithmetic. -/
def parseIntegral (T : IntType) (op : Int → Except Fault Int) (value : Bytes)
    (defaultValue : Int) : Except Fault Int :=
  if value = [] then .ok defaultValue
  else do
    match ← integralLoop T op 0 (unsignedPart T value) with
    | none => .ok defaultValue
    | some result => if negative T value then (op (-result)).map T.wrap else .ok result

/-- `getEnv<T>(key, default_value)`. -/
def getEnv (T : IntType) (getenv : Bytes → Option Bytes) (key : Bytes) (defaultValue : Int) :
    Except Fault Int :=
  match getenv (cStr key) with
  | none => .ok defaultValue
  | some value => parseIntegral T (machine T.promoted) value defaultValue

/-! ### What it is for -/

/-- A numeral of one digit or more, with a minus sign in front where the type is signed. -/
def Denotes (T : IntType) (value : Bytes) (n : Int) : Prop :=
  ∃ digits, digits ≠ [] ∧ (∀ c ∈ digits, isDigit c) ∧
    (value = digits ∧ n = decimalValue digits ∨
      T.signed = true ∧ value = ch '-' :: digits ∧ n = -decimalValue digits)

/-- A numeral in the range is read, everything else is the default, and no operation leaves
the range of the type it is done in. -/
structure ParsesExactly (T : IntType) (getenv : Bytes → Option Bytes) (key value : Bytes)
    (defaultValue : Int) : Prop where
  numeral : ∀ n, Denotes T value n → T.InRange n → getEnv T getenv key defaultValue = .ok n
  other : (∀ n, Denotes T value n → ¬ T.InRange n) →
    getEnv T getenv key defaultValue = .ok defaultValue
  within : ∃ n, parseIntegral T (checked T.promoted) value defaultValue = .ok n

/-- What the digits at the front are worth. -/
def leading (T : IntType) (value : Bytes) : Nat :=
  decimalValue ((unsignedPart T value).takeWhile isDigit)

/-- Where the type is not promoted, the digits at the front fit; a numeral fits, or is the
default once it is reduced; and a sign alone is not read for another default than 0. -/
structure Fits (T : IntType) (value : Bytes) (defaultValue : Int) : Prop where
  leading : 32 ≤ T.width → (leading T value : Int) ≤ T.max
  numeral : ∀ n, Denotes T value n → T.InRange n ∨ T.wrap n = defaultValue
  sign : T.signed = true → value = [ch '-'] → defaultValue = 0

/-! ### Numerals -/

theorem digit_worth : ∀ c, isDigit c = true → (c - ch '0').toNat ≤ 9 ∧ c ≠ ch '-' :=
  every_byte (by decide +kernel)

/-- The number that digits make when they are read after another. -/
def readOn (n : Nat) (digits : Bytes) : Nat :=
  digits.foldl (fun n c => n * 10 + (c - ch '0').toNat) n

theorem decimalValue_eq (digits : Bytes) : decimalValue digits = readOn 0 digits :=
  List.foldl_map

theorem le_readOn (n : Nat) (digits : Bytes) : n ≤ readOn n digits := by
  induction digits generalizing n with
  | nil => exact Nat.le_refl n
  | cons c digits ih => exact Nat.le_trans (show n ≤ n * 10 + _ by omega) (ih _)

theorem negative_eq_true {T : IntType} {value : Bytes} :
    negative T value = true ↔ T.signed = true ∧ ∃ digits, value = ch '-' :: digits := by
  unfold negative
  rw [Bool.and_eq_true, beq_iff_eq]
  cases value with
  | nil => simp
  | cons c digits => simp

/-- A numeral is digits behind the sign, if there is one. -/
theorem denotes_iff {T : IntType} {value : Bytes} {n : Int} :
    Denotes T value n ↔ unsignedPart T value ≠ [] ∧ (∀ c ∈ unsignedPart T value, isDigit c) ∧
      n = if negative T value then -(decimalValue (unsignedPart T value) : Int)
        else decimalValue (unsignedPart T value) := by
  unfold unsignedPart
  refine ⟨fun ⟨digits, hne, hdigits, hform⟩ => ?_, fun ⟨hne, hdigits, hn⟩ => ?_⟩
  · rcases hform with ⟨rfl, hn⟩ | ⟨hsigned, rfl, hn⟩
    · have hplain : ¬ negative T value = true := by
        intro hneg
        obtain ⟨_, digits, rfl⟩ := negative_eq_true.mp hneg
        exact (digit_worth _ (hdigits _ (List.mem_cons_self ..))).2 rfl
      rw [if_neg hplain, if_neg hplain]
      exact ⟨hne, hdigits, hn⟩
    · have hneg : negative T (ch '-' :: digits) = true :=
        negative_eq_true.mpr ⟨hsigned, digits, rfl⟩
      rw [if_pos hneg, if_pos hneg]
      exact ⟨hne, hdigits, hn⟩
  · by_cases hneg : negative T value = true
    · rw [if_pos hneg] at hne hdigits
      rw [if_pos hneg, if_pos hneg] at hn
      obtain ⟨hsigned, digits, rfl⟩ := negative_eq_true.mp hneg
      exact ⟨digits, hne, hdigits, .inr ⟨hsigned, rfl, hn⟩⟩
    · rw [if_neg hneg] at hne hdigits
      rw [if_neg hneg, if_neg hneg] at hn
      exact ⟨value, hne, hdigits, .inl ⟨rfl, hn⟩⟩

theorem Denotes.unique {T : IntType} {value : Bytes} {n m : Int} (hn : Denotes T value n)
    (hm : Denotes T value m) : n = m :=
  (denotes_iff.mp hn).2.2.trans (denotes_iff.mp hm).2.2.symm

theorem unsignedPart_nil (T : IntType) : unsignedPart T [] = [] := by
  unfold unsignedPart
  split <;> rfl

/-- Something with nothing behind its sign is a sign alone. -/
theorem unsignedPart_eq_nil {T : IntType} {value : Bytes} (hne : value ≠ []) :
    unsignedPart T value = [] ↔ T.signed = true ∧ value = [ch '-'] := by
  unfold unsignedPart
  refine ⟨fun h => ?_, fun ⟨hsigned, hsign⟩ => ?_⟩
  · by_cases hneg : negative T value = true
    · rw [if_pos hneg] at h
      obtain ⟨hsigned, digits, rfl⟩ := negative_eq_true.mp hneg
      exact ⟨hsigned, congrArg _ h⟩
    · rw [if_neg hneg] at h
      exact absurd h hne
  · rw [if_pos (negative_eq_true.mpr ⟨hsigned, [], hsign⟩), hsign]
    rfl

/-! ### One operation -/

theorem machine_of_inRange {T : IntType} {n : Int} (h : T.InRange n) : machine T n = .ok n := by
  unfold machine
  rw [if_neg fun hover => hover.2 h, T.wrap_of_inRange h]

theorem checked_of_inRange {T : IntType} {n : Int} (h : T.InRange n) : checked T n = .ok n :=
  if_pos h

theorem promoted_wide {T : IntType} (h : 32 ≤ T.width) : T.promoted = T :=
  if_neg (Nat.not_lt.mpr h)

theorem promoted_narrow {T : IntType} (h : T.width < 32) {n : Int} (hlow : -1000000 ≤ n)
    (hhigh : n ≤ 1000000) : T.promoted.InRange n := by
  have hint : T.promoted = IntType.int := if_pos h
  have hmin : IntType.int.min = -2147483648 := by decide
  have hmax : IntType.int.max = 2147483647 := by decide
  rw [hint, IntType.InRange, hmin, hmax]
  omega

theorem wrap_narrow {T : IntType} (h : T.width < 32) (n : Int) :
    -65536 ≤ T.wrap n ∧ T.wrap n ≤ 65536 := by
  have hmodulus := T.modulus_le (by have hstandard := T.standard; omega)
  have htwice := T.modulus_eq
  obtain ⟨hmin, hmax⟩ := T.inRange_wrap n
  unfold IntType.min at hmin
  unfold IntType.max at hmax
  split at hmin
  · next hsigned =>
    rw [if_pos hsigned] at hmax
    omega
  · next hsigned =>
    rw [if_neg hsigned] at hmax
    omega

/-- One more digit: a narrow type has room in `int`, any other where the sum fits. -/
theorem digit_inRange {T : IntType} {n d : Nat} (hd : d ≤ 9)
    (hfits : 32 ≤ T.width → ((n * 10 + d : Nat) : Int) ≤ T.max) :
    T.promoted.InRange (T.wrap n * 10) ∧ T.promoted.InRange (T.wrap n * 10 + d) := by
  rcases Nat.lt_or_ge T.width 32 with hnarrow | hwide
  · obtain ⟨hlow, hhigh⟩ := wrap_narrow hnarrow n
    exact ⟨promoted_narrow hnarrow (by omega) (by omega),
      promoted_narrow hnarrow (by omega) (by omega)⟩
  · have hsum := hfits hwide
    have hwrap : T.wrap n = n := T.wrap_of_inRange (T.inRange_of_nonneg (by omega) (by omega))
    rw [promoted_wide hwide, hwrap]
    exact ⟨T.inRange_of_nonneg (by omega) (by omega), T.inRange_of_nonneg (by omega) (by omega)⟩

/-- The sign is put on in the same type. -/
theorem neg_inRange {T : IntType} (hsigned : T.signed = true) {n : Nat}
    (hfits : 32 ≤ T.width → (n : Int) ≤ T.max) : T.promoted.InRange (-T.wrap n) := by
  rcases Nat.lt_or_ge T.width 32 with hnarrow | hwide
  · obtain ⟨hlow, hhigh⟩ := wrap_narrow hnarrow n
    exact promoted_narrow hnarrow (by omega) (by omega)
  · have hmax := hfits hwide
    rw [promoted_wide hwide, T.wrap_of_inRange (T.inRange_of_nonneg (by omega) hmax)]
    unfold IntType.InRange IntType.min
    unfold IntType.max at hmax ⊢
    rw [if_pos hsigned] at hmax ⊢
    rw [if_pos hsigned]
    omega

/-! ### The loop -/

section
variable {T : IntType} {op : Int → Except Fault Int}

/-- Where nothing leaves the range the loop reads the digits, modulo the type's own range. -/
theorem integralLoop_reads (hop : ∀ n, T.promoted.InRange n → op n = .ok n) (n : Nat) (s : Bytes)
    (hfits : 32 ≤ T.width → (readOn n (s.takeWhile isDigit) : Int) ≤ T.max) :
    integralLoop T op (T.wrap n) s =
      .ok (if s.all isDigit then some (T.wrap (readOn n s)) else none) := by
  induction s generalizing n with
  | nil => rfl
  | cons c s ih =>
    unfold integralLoop
    by_cases hc : isDigit c = true
    · rw [List.takeWhile_cons_of_pos hc] at hfits
      obtain ⟨hproduct, hsum⟩ := @digit_inRange T n _ (digit_worth c hc).1 fun hwide =>
        Int.le_trans (Int.ofNat_le.mpr (le_readOn _ _)) (hfits hwide)
      have hnext : T.wrap (T.wrap n * 10 + (c - ch '0').toNat) =
          T.wrap ((n * 10 + (c - ch '0').toNat : Nat) : Int) := by
        rw [T.wrap_mul_add]
        rfl
      rw [if_pos hc, hop _ hproduct]
      simp only [bind, Except.bind, hop _ hsum]
      rw [hnext, ih _ hfits, List.all_cons, hc, Bool.true_and]
      rfl
    · rw [if_neg hc, List.all_cons, Bool.eq_false_iff.mpr hc, Bool.false_and]
      rfl

/-- Digits that do not fit the type that they are added up in leave its range. -/
theorem integralLoop_leaves (n : Nat) (s : Bytes) (hn : (n : Int) ≤ T.max)
    (hover : T.max < readOn n (s.takeWhile isDigit)) :
    integralLoop T (checked T) n s = .error .undefined := by
  induction s generalizing n with
  | nil => exact absurd hover (Int.not_lt.mpr hn)
  | cons c s ih =>
    unfold integralLoop
    by_cases hc : isDigit c = true
    · rw [List.takeWhile_cons_of_pos hc] at hover
      rw [if_pos hc]
      by_cases hproduct : T.InRange (n * 10)
      · rw [checked_of_inRange hproduct]
        by_cases hsum : T.InRange (n * 10 + (c - ch '0').toNat)
        · simp only [bind, Except.bind, checked_of_inRange hsum]
          rw [T.wrap_of_inRange hsum]
          exact ih (n * 10 + (c - ch '0').toNat) hsum.2 hover
        · simp only [bind, Except.bind]
          rw [checked, if_neg hsum]
      · rw [checked, if_neg hproduct]
        rfl
    · rw [List.takeWhile_cons_of_neg hc] at hover
      exact absurd hover (Int.not_lt.mpr hn)

/-- What is read where the digits at the front fit: the numeral modulo the range. -/
theorem parseIntegral_reads (hop : ∀ n, T.promoted.InRange n → op n = .ok n) {value : Bytes}
    (hne : value ≠ []) (hfits : 32 ≤ T.width → (leading T value : Int) ≤ T.max)
    (defaultValue : Int) :
    parseIntegral T op value defaultValue =
      .ok (if (unsignedPart T value).all isDigit then
        T.wrap (if negative T value then -(decimalValue (unsignedPart T value) : Int)
          else decimalValue (unsignedPart T value)) else defaultValue) := by
  have hread := integralLoop_reads hop 0 (unsignedPart T value)
    (by rw [← decimalValue_eq]; exact hfits)
  have hzero : T.wrap (0 : Nat) = 0 := T.wrap_of_inRange T.zero_inRange
  rw [hzero] at hread
  unfold parseIntegral
  rw [if_neg hne, hread]
  simp only [bind, Except.bind]
  rw [← decimalValue_eq]
  by_cases hall : (unsignedPart T value).all isDigit = true
  · rw [if_pos hall, if_pos hall]
    simp only
    by_cases hneg : negative T value = true
    · have hself : (unsignedPart T value).takeWhile isDigit = unsignedPart T value :=
        List.takeWhile_eq_self_iff.mpr (List.all_eq_true.mp hall)
      rw [leading, hself] at hfits
      rw [if_pos hneg, if_pos hneg, hop _ (neg_inRange (negative_eq_true.mp hneg).1 hfits)]
      exact congrArg Except.ok (T.wrap_neg _)
    · rw [if_neg hneg, if_neg hneg]
  · rw [if_neg hall, if_neg hall]

end

theorem getEnv_set {T : IntType} {getenv : Bytes → Option Bytes} {key value : Bytes}
    (hvalue : getenv (cStr key) = some value) (defaultValue : Int) :
    getEnv T getenv key defaultValue = parseIntegral T (machine T.promoted) value defaultValue := by
  unfold getEnv
  rw [hvalue]

/-- Otherwise an operation leaves the range. -/
theorem parseIntegral_leaves {T : IntType} {value : Bytes} (hwide : 32 ≤ T.width)
    (hover : T.max < leading T value) (defaultValue : Int) :
    parseIntegral T (checked T.promoted) value defaultValue = .error .undefined := by
  have hne : value ≠ [] := by
    intro hnil
    have hzero : leading T value = 0 := by
      rw [hnil, leading, unsignedPart_nil]
      rfl
    rw [hzero] at hover
    exact absurd T.zero_inRange.2 (Int.not_le.mpr hover)
  have hloop := integralLoop_leaves 0 (unsignedPart T value) T.zero_inRange.2
    (by rw [← decimalValue_eq]; exact hover)
  unfold parseIntegral
  rw [if_neg hne, promoted_wide hwide, show (0 : Int) = (0 : Nat) from rfl, hloop]
  rfl

/-- A sign without digits is read as 0, everything else as the numeral that it is, modulo the
range, or as the default. -/
theorem getEnv_reads {T : IntType} {getenv : Bytes → Option Bytes} {key value : Bytes}
    (hvalue : getenv (cStr key) = some value)
    (hfits : 32 ≤ T.width → (leading T value : Int) ≤ T.max) (defaultValue : Int) :
    (∀ n, Denotes T value n → getEnv T getenv key defaultValue = .ok (T.wrap n)) ∧
      ((∀ n, ¬ Denotes T value n) → getEnv T getenv key defaultValue =
        .ok (if T.signed = true ∧ value = [ch '-'] then 0 else defaultValue)) := by
  rw [getEnv_set hvalue]
  by_cases hne : value = []
  · refine ⟨fun n hn => ?_, fun _ => ?_⟩
    · rw [hne] at hn
      exact absurd (unsignedPart_nil T) (denotes_iff.mp hn).1
    · rw [hne, if_neg fun h => List.cons_ne_nil _ _ h.2.symm]
      exact if_pos rfl
  · rw [parseIntegral_reads (fun _ => machine_of_inRange) hne hfits]
    refine ⟨fun n hn => ?_, fun hno => congrArg Except.ok ?_⟩
    · obtain ⟨_, hdigits, rfl⟩ := denotes_iff.mp hn
      rw [if_pos (List.all_eq_true.mpr hdigits)]
    · by_cases hnil : unsignedPart T value = []
      · have hsign := (unsignedPart_eq_nil hne).mp hnil
        rw [if_pos hsign, hnil, if_pos (show ([] : Bytes).all isDigit = true from rfl),
          if_pos (negative_eq_true.mpr ⟨hsign.1, [], hsign.2⟩)]
        exact T.wrap_of_inRange T.zero_inRange
      · rw [if_neg fun hsign => hnil ((unsignedPart_eq_nil hne).mpr hsign), if_neg]
        intro hall
        exact hno _ (denotes_iff.mpr ⟨hnil, List.all_eq_true.mp hall, rfl⟩)

/-- **An integer is read exactly** where the digits fit the type that they are added up in,
what is reduced is the default anyway, and a sign comes with digits. -/
theorem parsesExactly_iff (T : IntType) {getenv : Bytes → Option Bytes} {key value : Bytes}
    (hvalue : getenv (cStr key) = some value) (defaultValue : Int) :
    ParsesExactly T getenv key value defaultValue ↔ Fits T value defaultValue := by
  refine ⟨fun h => ?_, fun h => ?_⟩
  · have hfits : 32 ≤ T.width → (leading T value : Int) ≤ T.max := by
      intro hwide
      apply Int.not_lt.mp
      intro hover
      obtain ⟨n, hn⟩ := h.within
      rw [parseIntegral_leaves hwide hover] at hn
      cases hn
    obtain ⟨hnumeral, hnone⟩ := getEnv_reads hvalue hfits defaultValue
    refine ⟨hfits, fun n hn => ?_, fun hsigned hsign => ?_⟩
    · by_cases hrange : T.InRange n
      · exact .inl hrange
      · have hdefault := h.other fun m hm => Denotes.unique hn hm ▸ hrange
        rw [hnumeral n hn] at hdefault
        exact .inr (Except.ok.inj hdefault)
    · have hno : ∀ n, ¬ Denotes T value n := by
        intro n hn
        refine (denotes_iff.mp hn).1 ((unsignedPart_eq_nil ?_).mpr ⟨hsigned, hsign⟩)
        rw [hsign]
        exact List.cons_ne_nil _ _
      have hdefault := h.other fun n hn => absurd hn (hno n)
      rw [hnone hno, if_pos ⟨hsigned, hsign⟩] at hdefault
      exact (Except.ok.inj hdefault).symm
  · obtain ⟨hnumeral, hnone⟩ := getEnv_reads hvalue h.leading defaultValue
    refine ⟨fun n hn hrange => ?_, fun hno => ?_, ?_⟩
    · rw [hnumeral n hn, T.wrap_of_inRange hrange]
    · by_cases hsome : ∃ n, Denotes T value n
      · obtain ⟨n, hn⟩ := hsome
        rw [hnumeral n hn, (h.numeral n hn).resolve_left (hno n hn)]
      · rw [hnone fun n hn => hsome ⟨n, hn⟩]
        split
        · next hsign => rw [h.sign hsign.1 hsign.2]
        · rfl
    · by_cases hnil : value = []
      · exact ⟨defaultValue, if_pos hnil⟩
      · exact ⟨_, parseIntegral_reads (fun _ => checked_of_inRange) hnil h.leading defaultValue⟩

/-! ### What is read wrongly -/

/-- What `getEnv` makes of a variable with this value. -/
def readEnv (T : IntType) (value : Bytes) (defaultValue : Int) : Except Fault Int :=
  getEnv T (fun _ => some value) (text "TEST_VAR") defaultValue

def uint8 : IntType := {signed := false, width := 8, pos := by decide, standard := by decide}

theorem parsesExactly_iff_port :
    ParsesExactly IntType.int (fun _ => some (text "8080")) (text "PORT") (text "8080") 80 ↔
      Fits IntType.int (text "8080") 80 :=
  @parsesExactly_iff IntType.int (fun _ => some (text "8080")) (text "PORT") _ rfl 80

/-- A sign alone is read as 0, 300 as 44, and the least `int` leaves the range. -/
theorem getEnv_misread :
    ¬ (∀ (T : IntType) (getenv : Bytes → Option Bytes) (key value : Bytes) (defaultValue : Int),
      getenv (cStr key) = some value → ParsesExactly T getenv key value defaultValue) ∧
    readEnv IntType.int (text "-") 1 = .ok 0 ∧ readEnv uint8 (text "300") 1 = .ok 44 ∧
    readEnv IntType.int (text "-2147483648") 1 = .error .undefined := by
  have hsign : readEnv IntType.int (text "-") 1 = .ok 0 := by decide +kernel
  refine ⟨fun h => ?_, hsign, by decide +kernel, by decide +kernel⟩
  have hother := (h IntType.int (fun _ => some (text "-")) (text "TEST_VAR") _ 1 rfl).other
  have hdefault : readEnv IntType.int (text "-") 1 = .ok 1 := by
    refine hother fun n hn => ?_
    exact absurd (show unsignedPart IntType.int (text "-") = [] by decide) (denotes_iff.mp hn).1
  rw [hsign] at hdefault
  cases hdefault

end HttpServer.Utils
