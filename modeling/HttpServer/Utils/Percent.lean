import HttpServer.Utils.Url

/-! Percent-encoding: what `urlDecode` makes of an escape and of what only looks like one.

`exactDecode` takes as an escape a percent sign with two hexadecimal digits behind it and
nothing else. `urlDecode` hands whatever two bytes follow to `strtol`; it decodes the same
where every percent sign with two bytes behind it is an escape, and nowhere else. -/
namespace HttpServer.Utils

/-- Escapes are replaced by their bytes, pluses by spaces, and everything else is copied. -/
def exactDecode : Bytes → Bytes
  | [] => []
  | c :: a :: b :: rest =>
    if c = ch '%' then
      match hexDigit? a, hexDigit? b with
      | some x, some y => UInt8.ofNat (16 * x + y) :: exactDecode rest
      | _, _ => ch '%' :: exactDecode (a :: b :: rest)
    else plusToSpace c :: exactDecode (a :: b :: rest)
  | c :: rest => plusToSpace c :: exactDecode rest

/-- No percent sign with two bytes behind it is anything but an escape. -/
def WellEscaped (s : Bytes) : Prop :=
  ∀ front a b rest, s = front ++ ch '%' :: a :: b :: rest →
    (hexDigit? a).isSome ∧ (hexDigit? b).isSome

/-! ### One byte -/

theorem urlDecode_plain {c : UInt8} (hc : c ≠ ch '%') (s : Bytes) :
    urlDecode (c :: s) = plusToSpace c :: urlDecode s := by
  cases s with
  | nil => rfl
  | cons a s =>
    cases s with
    | nil => rfl
    | cons b s => rw [urlDecode, if_neg hc]

theorem exactDecode_plain {c : UInt8} (hc : c ≠ ch '%') (s : Bytes) :
    exactDecode (c :: s) = plusToSpace c :: exactDecode s := by
  cases s with
  | nil => rfl
  | cons a s =>
    cases s with
    | nil => rfl
    | cons b s => rw [exactDecode, if_neg hc]

/-- Too near the end for an escape. -/
theorem urlDecode_short (c : UInt8) {s : Bytes} (hs : ∀ a b rest, s = a :: b :: rest → False) :
    urlDecode (c :: s) = plusToSpace c :: urlDecode s := by
  cases s with
  | nil => rfl
  | cons a s =>
    cases s with
    | nil => rfl
    | cons b s => exact absurd rfl (hs a b s)

theorem exactDecode_short (c : UInt8) {s : Bytes} (hs : ∀ a b rest, s = a :: b :: rest → False) :
    exactDecode (c :: s) = plusToSpace c :: exactDecode s := by
  cases s with
  | nil => rfl
  | cons a s =>
    cases s with
    | nil => rfl
    | cons b s => exact absurd rfl (hs a b s)

theorem urlDecode_percent (a b : UInt8) (rest : Bytes) :
    urlDecode (ch '%' :: a :: b :: rest) = toByte (strtol16 [a, b]) :: urlDecode rest := by
  rw [urlDecode, if_pos rfl]

theorem exactDecode_escape {a b : UInt8} {x y : Nat} (ha : hexDigit? a = some x)
    (hb : hexDigit? b = some y) (rest : Bytes) :
    exactDecode (ch '%' :: a :: b :: rest) = UInt8.ofNat (16 * x + y) :: exactDecode rest := by
  rw [exactDecode, if_pos rfl, ha, hb]

theorem exactDecode_percent {a b : UInt8} (h : ¬ ((hexDigit? a).isSome ∧ (hexDigit? b).isSome))
    (rest : Bytes) :
    exactDecode (ch '%' :: a :: b :: rest) = ch '%' :: exactDecode (a :: b :: rest) := by
  rw [exactDecode, if_pos rfl]
  cases ha : hexDigit? a with
  | none => rfl
  | some x =>
    cases hb : hexDigit? b with
    | none => rfl
    | some y => exact absurd ⟨by rw [ha]; rfl, by rw [hb]; rfl⟩ h

theorem wellEscaped_cons {c : UInt8} {s : Bytes} :
    WellEscaped (c :: s) ↔
      (c = ch '%' → ∀ a b rest, s = a :: b :: rest →
        (hexDigit? a).isSome ∧ (hexDigit? b).isSome) ∧ WellEscaped s := by
  refine ⟨fun h => ?_, fun h front a b rest hs => ?_⟩
  · refine ⟨?_, fun front a b rest hs => h (c :: front) a b rest (by rw [hs]; rfl)⟩
    intro hc a b rest hs
    exact h [] a b rest (by rw [hc, hs]; rfl)
  · obtain ⟨hhead, htail⟩ := h
    cases front with
    | nil =>
      injection hs with hc hs
      exact hhead hc a b rest hs
    | cons d front =>
      injection hs with _ hs
      exact htail front a b rest hs

/-! ### The number an escape holds -/

/-- A hexadecimal digit is none of the bytes `strtol` or `urlDecode` treats apart. -/
theorem hexDigit_ne : ∀ c, (hexDigit? c).isSome →
    c ≠ ch '%' ∧ c ≠ ch '+' ∧ c ≠ ch '-' ∧ c ≠ 0 ∧ isSpace c = false :=
  every_byte (by decide +kernel)

theorem hexDigit_lt : ∀ c, (hexDigit? c).getD 0 < 16 := every_byte (by decide +kernel)

theorem skipHexPrefix_short {s : Bytes} (h : s.length ≤ 2) : skipHexPrefix s = s := by
  cases s with
  | nil => rfl
  | cons z s =>
    cases s with
    | nil => rfl
    | cons x s =>
      cases s with
      | nil => rfl
      | cons d s => simp at h

theorem hexPrefix_one (c : UInt8) : hexPrefix [c] < 16 := by
  have hlt := hexDigit_lt c
  unfold hexPrefix
  cases hc : hexDigit? c with
  | none => simp [hc]
  | some x =>
    rw [hc] at hlt
    simpa [hc] using hlt

theorem hexPrefix_digits {a b : UInt8} {x y : Nat} (ha : hexDigit? a = some x)
    (hb : hexDigit? b = some y) : hexPrefix [a, b] = 16 * x + y := by
  simp [hexPrefix, ha, hb]

/-- Two bytes that are not both digits hold one digit at most. -/
theorem hexPrefix_two {a b : UInt8} (h : ¬ ((hexDigit? a).isSome ∧ (hexDigit? b).isSome)) :
    hexPrefix [a, b] < 16 := by
  cases ha : hexDigit? a with
  | none => simp [hexPrefix, ha]
  | some x =>
    cases hb : hexDigit? b with
    | some y => exact absurd ⟨by rw [ha]; rfl, by rw [hb]; rfl⟩ h
    | none =>
      have hone := hexPrefix_one a
      simpa [hexPrefix, ha, hb] using hone

theorem strtol16_digits {a b : UInt8} {x y : Nat} (ha : hexDigit? a = some x)
    (hb : hexDigit? b = some y) : strtol16 [a, b] = 16 * x + y := by
  obtain ⟨_, hplus, hminus, hzero, hspace⟩ := hexDigit_ne a (by rw [ha]; rfl)
  obtain ⟨_, _, _, hzero', _⟩ := hexDigit_ne b (by rw [hb]; rfl)
  have htake : ([a, b].takeWhile (· ≠ 0)).dropWhile isSpace = [a, b] := by
    simp [hzero, hzero', hspace]
  rw [strtol16, htake]
  simp only [hminus, hplus, if_false]
  rw [skipHexPrefix_short (show [a, b].length ≤ 2 from Nat.le_refl 2), hexPrefix_digits ha hb]
  rfl

/-- Anything but two digits is read as a number of one digit, with a sign perhaps. -/
theorem strtol16_bounds {a b : UInt8} (h : ¬ ((hexDigit? a).isSome ∧ (hexDigit? b).isSome)) :
    -16 < strtol16 [a, b] ∧ strtol16 [a, b] < 16 := by
  have hsub : (([a, b].takeWhile (· ≠ 0)).dropWhile isSpace).Sublist [a, b] :=
    (List.dropWhile_sublist _).trans (List.takeWhile_sublist _)
  have hlen := hsub.length_le
  unfold strtol16
  split
  · decide
  · next c rest hs =>
    rw [hs] at hsub hlen
    have hshort : rest.length ≤ 1 := by simpa using hlen
    have hrest : hexPrefix rest < 16 := by
      cases rest with
      | nil => decide
      | cons d rest =>
        have hnil : rest = [] := by simpa using hshort
        rw [hnil]
        exact hexPrefix_one d
    have hboth : hexPrefix (c :: rest) < 16 := by
      cases rest with
      | nil => exact hexPrefix_one c
      | cons d rest =>
        have hnil : rest = [] := by simpa using hshort
        rw [hnil] at hsub ⊢
        obtain ⟨rfl, rfl⟩ : c = a ∧ d = b := by simpa using hsub.eq_of_length rfl
        exact hexPrefix_two h
    rw [skipHexPrefix_short (show rest.length ≤ 2 by omega),
      skipHexPrefix_short (show (c :: rest).length ≤ 2 from Nat.succ_le_succ hshort)]
    split
    · omega
    · split
      · omega
      · omega

/-- No malformed escape is decoded to a percent sign. -/
theorem toByte_ne_percent {n : Int} (hlow : -16 < n) (hhigh : n < 16) : toByte n ≠ ch '%' := by
  intro heq
  have hnat := congrArg UInt8.toNat heq
  rw [toByte, UInt8.toNat_ofNat_of_lt' (show (n % 256).toNat < 256 by omega)] at hnat
  have hpercent : (ch '%').toNat = 37 := rfl
  omega

/-! ### The whole string -/

theorem wellEscaped_escape {a b : UInt8} {s : Bytes} (ha : (hexDigit? a).isSome)
    (hb : (hexDigit? b).isSome) (hs : WellEscaped s) : WellEscaped (ch '%' :: a :: b :: s) := by
  refine wellEscaped_cons.mpr ⟨fun _ a' b' rest h => ?_, wellEscaped_cons.mpr
    ⟨fun hc => absurd hc (hexDigit_ne a ha).1, wellEscaped_cons.mpr
      ⟨fun hc => absurd hc (hexDigit_ne b hb).1, hs⟩⟩⟩
  injection h with ha' h
  injection h with hb' _
  rw [← ha', ← hb']
  exact ⟨ha, hb⟩

theorem toByte_digits (x y : Nat) : toByte (16 * x + y) = UInt8.ofNat (16 * x + y) := by
  apply UInt8.toNat_inj.mp
  rw [toByte, UInt8.toNat_ofNat', UInt8.toNat_ofNat']
  omega

/-- Escapes and nothing that looks like one: the two decoders agree. -/
theorem urlDecode_wellEscaped {s : Bytes} (h : WellEscaped s) : urlDecode s = exactDecode s := by
  induction s using urlDecode.induct with
  | case1 => rfl
  | case2 a b rest ih =>
    obtain ⟨hhead, htail⟩ := wellEscaped_cons.mp h
    obtain ⟨ha, hb⟩ := hhead rfl a b rest rfl
    obtain ⟨x, hx⟩ := Option.isSome_iff_exists.mp ha
    obtain ⟨y, hy⟩ := Option.isSome_iff_exists.mp hb
    have hrest := (wellEscaped_cons.mp (wellEscaped_cons.mp htail).2).2
    rw [urlDecode_percent, exactDecode_escape hx hy, strtol16_digits hx hy, ih hrest]
    congr 1
    exact toByte_digits x y
  | case3 c a b rest hc ih =>
    rw [urlDecode_plain hc, exactDecode_plain hc, ih (wellEscaped_cons.mp h).2]
  | case4 c rest hshort ih =>
    rw [urlDecode_short c hshort, exactDecode_short c hshort, ih (wellEscaped_cons.mp h).2]

/-- An escape that is none sets the two decoders apart for good. -/
theorem wellEscaped_of_urlDecode {s : Bytes} (h : urlDecode s = exactDecode s) :
    WellEscaped s := by
  induction s using urlDecode.induct with
  | case1 =>
    intro front a b rest hs
    cases front with
    | nil => cases hs
    | cons d front => cases hs
  | case2 a b rest ih =>
    by_cases hdigits : (hexDigit? a).isSome ∧ (hexDigit? b).isSome
    · obtain ⟨x, hx⟩ := Option.isSome_iff_exists.mp hdigits.1
      obtain ⟨y, hy⟩ := Option.isSome_iff_exists.mp hdigits.2
      rw [urlDecode_percent, exactDecode_escape hx hy] at h
      exact wellEscaped_escape hdigits.1 hdigits.2 (ih (List.cons.inj h).2)
    · rw [urlDecode_percent, exactDecode_percent hdigits] at h
      obtain ⟨hlow, hhigh⟩ := strtol16_bounds hdigits
      exact absurd (List.cons.inj h).1 (toByte_ne_percent hlow hhigh)
  | case3 c a b rest hc ih =>
    rw [urlDecode_plain hc, exactDecode_plain hc] at h
    exact wellEscaped_cons.mpr ⟨fun hp => absurd hp hc, ih (List.cons.inj h).2⟩
  | case4 c rest hshort ih =>
    rw [urlDecode_short c hshort, exactDecode_short c hshort] at h
    exact wellEscaped_cons.mpr
      ⟨fun _ a b rest' hs => (hshort a b rest' hs).elim, ih (List.cons.inj h).2⟩

/-- **Only valid escapes are decoded as they should be**: the result is the string with
its escapes replaced, its pluses turned into spaces and everything else copied, exactly
where each percent sign with two bytes behind it is followed by two hexadecimal digits. -/
theorem urlDecode_exact_iff (s : Bytes) :
    urlDecode s = exactDecode s ↔
      ∀ front a b rest, s = front ++ ch '%' :: a :: b :: rest →
        (hexDigit? a).isSome ∧ (hexDigit? b).isSome :=
  ⟨wellEscaped_of_urlDecode, urlDecode_wellEscaped⟩

/-- A percent sign and two letters: one zero byte instead of the three characters. -/
theorem urlDecode_malformed :
    urlDecode (text "%zz") = [0] ∧ exactDecode (text "%zz") = text "%zz" ∧
      urlDecode (text "%zz") ≠ exactDecode (text "%zz") := by
  decide

/-! ### Encoding -/

/-- A letter or a digit of ASCII. -/
def isAlnum (c : UInt8) : Bool :=
  (ch '0' ≤ c && c ≤ ch '9') || (ch 'A' ≤ c && c ≤ ch 'Z') || (ch 'a' ≤ c && c ≤ ch 'z')

/-- The second string encodes the first: letters and digits stand for themselves, every
other byte is escaped in digits of either case, and a space may be a plus. -/
inductive Encodes : Bytes → Bytes → Prop where
  | nil : Encodes [] []
  | plain {c : UInt8} {s e : Bytes} : isAlnum c → Encodes s e → Encodes (c :: s) (c :: e)
  | plus {s e : Bytes} : Encodes s e → Encodes (ch ' ' :: s) (ch '+' :: e)
  | escape {c a b : UInt8} {s e : Bytes} : isAlnum c = false → hexDigit? a = some (c.toNat / 16) →
      hexDigit? b = some (c.toNat % 16) → Encodes s e → Encodes (c :: s) (ch '%' :: a :: b :: e)

theorem isAlnum_ne : ∀ c, isAlnum c = true → c ≠ ch '%' ∧ c ≠ ch '+' ∧ c ≠ ch ' ' ∧ c ≠ ch '&' ∧
    c ≠ ch '=' :=
  every_byte (by decide +kernel)

theorem hexDigit_separates : ∀ c, (hexDigit? c).isSome → c ≠ ch ' ' ∧ c ≠ ch '&' ∧ c ≠ ch '=' :=
  every_byte (by decide +kernel)

theorem exactDecode_encodes {s e : Bytes} (h : Encodes s e) : exactDecode e = s := by
  induction h with
  | nil => rfl
  | plain hc _ ih =>
    obtain ⟨hpercent, hplus, _⟩ := isAlnum_ne _ hc
    rw [exactDecode_plain hpercent, ih, plusToSpace, if_neg hplus]
  | plus _ ih =>
    rw [exactDecode_plain (by decide), ih]
    rfl
  | @escape c a b s e _ ha hb _ ih =>
    have hsum : 16 * (c.toNat / 16) + c.toNat % 16 = c.toNat := Nat.div_add_mod _ _
    rw [exactDecode_escape ha hb, ih, hsum, UInt8.ofNat_toNat]

theorem wellEscaped_encodes {s e : Bytes} (h : Encodes s e) : WellEscaped e := by
  induction h with
  | nil => exact wellEscaped_of_urlDecode rfl
  | plain hc _ ih => exact wellEscaped_cons.mpr ⟨fun hp => absurd hp (isAlnum_ne _ hc).1, ih⟩
  | plus _ ih => exact wellEscaped_cons.mpr ⟨fun hp => absurd hp (by decide), ih⟩
  | escape _ ha hb _ ih => exact wellEscaped_escape (by rw [ha]; rfl) (by rw [hb]; rfl) ih

/-- Nothing an encoding holds separates keys, values or the words of a request line. -/
theorem encodes_ne {s e : Bytes} (h : Encodes s e) :
    ∀ c ∈ e, c ≠ ch ' ' ∧ c ≠ ch '&' ∧ c ≠ ch '=' := by
  induction h with
  | nil => exact fun c hc => absurd hc List.not_mem_nil
  | plain hc _ ih =>
    obtain ⟨_, _, hspace, hamp, heq⟩ := isAlnum_ne _ hc
    exact List.forall_mem_cons.mpr ⟨⟨hspace, hamp, heq⟩, ih⟩
  | plus _ ih => exact List.forall_mem_cons.mpr ⟨by decide, ih⟩
  | @escape c a b s e _ ha hb _ ih =>
    exact List.forall_mem_cons.mpr ⟨by decide, List.forall_mem_cons.mpr
      ⟨hexDigit_separates a (by rw [ha]; rfl), List.forall_mem_cons.mpr
        ⟨hexDigit_separates b (by rw [hb]; rfl), ih⟩⟩⟩

/-- Decoding inverts encoding, whatever case and whichever sign for a space was chosen. -/
theorem urlDecode_encodes {s e : Bytes} (h : Encodes s e) : urlDecode e = s := by
  rw [urlDecode_wellEscaped (wellEscaped_encodes h), exactDecode_encodes h]

/-- One encoding of each string: upper case digits, and a space escaped like the rest. -/
def percentEncode (s : Bytes) : Bytes :=
  s.flatMap fun c =>
    if isAlnum c then [c]
    else [ch '%', (text "0123456789ABCDEF").getD (c.toNat / 16) 0,
      (text "0123456789ABCDEF").getD (c.toNat % 16) 0]

theorem encodes_percentEncode (s : Bytes) : Encodes s (percentEncode s) := by
  have hdigit : ∀ n < 16, hexDigit? ((text "0123456789ABCDEF").getD n 0) = some n := by decide
  induction s with
  | nil => exact .nil
  | cons c s ih =>
    have hc := c.toNat_lt
    rw [percentEncode, List.flatMap_cons, ← percentEncode]
    split
    · next halnum => exact .plain halnum ih
    · next halnum =>
      exact .escape (Bool.eq_false_iff.mpr halnum) (hdigit _ (by omega)) (hdigit _ (by omega)) ih

end HttpServer.Utils
