import Mathlib.Logic.Relation
import HttpServer.Client.Chunked
import HttpServer.Lib.Rounds

/-! The calls that `parse` makes of itself.

A call reads the size line at its position, appends the data behind it and calls itself
again behind the data. Positions and sizes are added modulo 2^64: from a size that fits no
body the sum can come out below the position it was added to, and the bounds check takes
it. `Overlong` says that a body leads to such a size; all others are read from front to
back (`parseChunkedBody_progress_iff`). -/
namespace HttpServer.Client
open Lib Lib.Rounds Lib.Search Utils

/-- The size line at `pos`: where the data behind it starts, and the size it gives. -/
def sizeLine? (s : Bytes) (pos : Nat) : Option (Nat × Nat) :=
  if s.length ≤ pos then none
  else
    (findFrom crlf s pos).bind fun lineEnd =>
      (parseHexSize ((s.drop pos).take (lineEnd - pos))).map fun n => (lineEnd + 2, n.toNat)

/-- Where `parse(pos)` calls itself. -/
def nextCall (s : Bytes) (pos : Nat) : Option Nat :=
  (sizeLine? s pos).bind fun line =>
    if line.2 = 0 ∨ s.length < sizeAdd line.1 line.2 then none
    else some (sizeAdd (sizeAdd line.1 line.2) 2)

theorem nextCall_eq_some {s : Bytes} {pos next : Nat} :
    nextCall s pos = some next ↔ ∃ start size, sizeLine? s pos = some (start, size) ∧
      size ≠ 0 ∧ sizeAdd start size ≤ s.length ∧ next = sizeAdd (sizeAdd start size) 2 := by
  constructor
  · intro h
    obtain ⟨⟨start, size⟩, hline, h⟩ := Option.bind_eq_some_iff.mp h
    simp only at h
    split at h
    · cases h
    · next hroom =>
      exact ⟨start, size, hline, fun hzero => hroom (.inl hzero),
        Nat.le_of_not_lt fun hlt => hroom (.inr hlt), (Option.some.inj h).symm⟩
  · intro ⟨start, size, hline, hsize, hroom, hnext⟩
    rw [nextCall, hline, Option.bind_some, if_neg, hnext]
    intro h
    rcases h with hzero | hlt
    · exact hsize hzero
    · exact Nat.not_lt.mpr hroom hlt

/-! ### Size lines -/

/-- A line of hexadecimal digits is read as its size modulo 2^64. -/
theorem sizeLine?_of {s line rest : Bytes} {pos value : Nat}
    (hline : s.drop pos = line ++ (crlf ++ rest)) (hvalue : hexValue line = some value) :
    sizeLine? s pos = some (pos + line.length + 2, value % 18446744073709551616) := by
  have hlen := congrArg List.length hline
  have htwo : crlf.length = 2 := rfl
  rw [List.length_drop, List.length_append, List.length_append] at hlen
  obtain ⟨hfind, hsize, _⟩ := size_line (by omega) (hexValue_no_break hvalue) hline
  rw [substr_of_le (by omega)] at hsize
  rw [sizeLine?, if_neg (by omega), hfind, Option.bind_some, Except.ok.inj hsize,
    parseHexSize_eq, hvalue]
  rfl

theorem sizeLine?_eq_some {s : Bytes} {pos start size : Nat}
    (h : sizeLine? s pos = some (start, size)) :
    ∃ line value rest, s.drop pos = line ++ (crlf ++ rest) ∧ hexValue line = some value ∧
      start = pos + line.length + 2 ∧ size = value % 18446744073709551616 ∧
      s.drop start = rest ∧ start ≤ s.length := by
  rw [sizeLine?] at h
  split at h
  · cases h
  · obtain ⟨lineEnd, hfind, h⟩ := Option.bind_eq_some_iff.mp h
    obtain ⟨n, hn, h⟩ := Option.map_eq_some_iff.mp h
    rw [parseHexSize_eq] at hn
    obtain ⟨value, hvalue, rfl⟩ := Option.map_eq_some_iff.mp hn
    cases h
    obtain ⟨hpos, hend, hat, _⟩ := findFrom_eq_some hfind
    obtain ⟨rest, hrest⟩ := hat
    have hroom := findFrom_fits hfind
    have hcut : s.drop pos = (s.drop pos).take (lineEnd - pos) ++ (crlf ++ rest) := by
      rw [hrest]
      conv => lhs; rw [← List.take_append_drop (lineEnd - pos) (s.drop pos)]
      rw [List.drop_drop, Nat.add_sub_cancel' hpos]
    have hlen : ((s.drop pos).take (lineEnd - pos)).length = lineEnd - pos := by
      rw [List.length_take, List.length_drop]
      omega
    refine ⟨_, value, rest, hcut, hvalue, by omega, rfl, ?_, hroom⟩
    rw [← List.drop_drop, ← hrest]
    rfl

/-! ### One call -/

/-- Without a size line `parse(pos)` fails, before the end of the body. -/
theorem parseChunks_unlined {s : Bytes} {pos : Nat} (hpos : ¬ s.length ≤ pos)
    (h : sizeLine? s pos = none) : ∃ message, ∀ fuel result,
      parseChunks s (fuel + 1) pos result = .error (.unexpected message) := by
  rw [sizeLine?, if_neg hpos] at h
  cases hfind : findFrom crlf s pos with
  | none =>
    refine ⟨text "Invalid chunked encoding: missing size line", fun fuel result => ?_⟩
    rw [parseChunks, if_neg hpos, hfind]
  | some lineEnd =>
    have hsubstr : substr s pos (lineEnd - pos) = .ok ((s.drop pos).take (lineEnd - pos)) :=
      substr_of_le (by omega) _
    rw [hfind, Option.bind_some, Option.map_eq_none_iff] at h
    refine ⟨text "Invalid chunk size", fun fuel result => ?_⟩
    rw [parseChunks, if_neg hpos, hfind]
    simp only [hsubstr, strings, Except.mapError, bind, Except.bind, h]

/-- With one, the size decides. -/
theorem parseChunks_line {s : Bytes} {pos start size : Nat}
    (h : sizeLine? s pos = some (start, size)) (fuel : Nat) (result : Bytes) :
    parseChunks s (fuel + 1) pos result =
      if size = 0 then .ok result
      else if s.length < sizeAdd start size then
        .error (.unexpected (text "Truncated chunk body"))
      else parseChunks s fuel (sizeAdd (sizeAdd start size) 2)
        (result ++ (s.drop start).take size) := by
  rw [sizeLine?] at h
  split at h
  · cases h
  · next hpos =>
    obtain ⟨lineEnd, hfind, h⟩ := Option.bind_eq_some_iff.mp h
    obtain ⟨n, hn, h⟩ := Option.map_eq_some_iff.mp h
    cases h
    have hzero : (n.toNat = 0) = (n = 0) :=
      propext ⟨fun h => UInt64.toNat_inj.mp h, fun h => congrArg UInt64.toNat h⟩
    have hsubstr : substr s pos (lineEnd - pos) = .ok ((s.drop pos).take (lineEnd - pos)) :=
      substr_of_le (by omega) _
    have hdata : substr s (lineEnd + 2) n.toNat = .ok ((s.drop (lineEnd + 2)).take n.toNat) :=
      substr_of_le (findFrom_fits hfind) _
    rw [parseChunks, if_neg hpos, hfind]
    simp only [hsubstr, strings, Except.mapError, bind, Except.bind, hn, hzero, hdata]

/-- What `parse(pos)` does, whatever has been read before: it succeeds, it fails, or it
appends the data of a chunk and calls itself. -/
theorem parseChunks_cases (s : Bytes) (pos : Nat) :
    ((s.length ≤ pos ∨ ∃ start, sizeLine? s pos = some (start, 0)) ∧ nextCall s pos = none ∧
      ∀ fuel result, parseChunks s (fuel + 1) pos result = .ok result) ∨
    (nextCall s pos = none ∧ ∃ message, ∀ fuel result,
      parseChunks s (fuel + 1) pos result = .error (.unexpected message)) ∨
    ∃ start size next, sizeLine? s pos = some (start, size) ∧ nextCall s pos = some next ∧
      ∀ fuel result, parseChunks s (fuel + 1) pos result =
        parseChunks s fuel next (result ++ (s.drop start).take size) := by
  by_cases hpos : s.length ≤ pos
  · have hline : sizeLine? s pos = none := by
      rw [sizeLine?, if_pos hpos]
    refine .inl ⟨.inl hpos, by rw [nextCall, hline]; rfl, fun fuel result => ?_⟩
    rw [parseChunks, if_pos hpos]
  · cases hline : sizeLine? s pos with
    | none => exact .inr (.inl ⟨by rw [nextCall, hline]; rfl, parseChunks_unlined hpos hline⟩)
    | some line =>
      obtain ⟨start, size⟩ := line
      have hcall := parseChunks_line hline
      by_cases hzero : size = 0
      · refine .inl ⟨.inr ⟨start, by rw [hzero]⟩, ?_, fun fuel result => ?_⟩
        · rw [nextCall, hline, Option.bind_some, if_pos (.inl hzero)]
        · rw [hcall, if_pos hzero]
      · by_cases hlt : s.length < sizeAdd start size
        · refine .inr (.inl ⟨?_, text "Truncated chunk body", fun fuel result => ?_⟩)
          · rw [nextCall, hline, Option.bind_some, if_pos (.inr hlt)]
          · rw [hcall, if_neg hzero, if_pos hlt]
        · refine .inr (.inr ⟨start, size, sizeAdd (sizeAdd start size) 2, rfl, ?_,
            fun fuel result => ?_⟩)
          · exact nextCall_eq_some.mpr ⟨_, _, hline, hzero, Nat.le_of_not_lt hlt, rfl⟩
          · rw [hcall, if_neg hzero, if_neg hlt]

/-- A call that calls itself is made before the end of the body. -/
theorem nextCall_inside {s : Bytes} {pos next : Nat} (h : nextCall s pos = some next) :
    pos < s.length := by
  obtain ⟨start, size, hline, _⟩ := nextCall_eq_some.mp h
  rw [sizeLine?] at hline
  split at hline
  · cases hline
  · next hpos => exact Nat.lt_of_not_le hpos

/-! ### Whether the recursion ends -/

theorem parseChunks_of_ends {s : Bytes} {n fuel pos : Nat} (h : Ends (nextCall s) n pos)
    (hfuel : n < fuel) (result : Bytes) : parseChunks s fuel pos result ≠ .error .endless := by
  induction h generalizing fuel result with
  | here hnext =>
    obtain ⟨fuel, rfl⟩ : ∃ k, fuel = k + 1 := ⟨fuel - 1, by omega⟩
    rcases parseChunks_cases s _ with ⟨_, _, hok⟩ | ⟨_, _, herror⟩ | ⟨_, _, _, _, hgoes, _⟩
    · rw [hok]
      simp
    · rw [herror]
      simp
    · rw [hnext] at hgoes
      cases hgoes
  | later hnext _ ih =>
    obtain ⟨fuel, rfl⟩ : ∃ k, fuel = k + 1 := ⟨fuel - 1, by omega⟩
    rcases parseChunks_cases s _ with ⟨_, hnone, _⟩ | ⟨hnone, _⟩ | ⟨_, _, next, _, hgoes, hcall⟩
    · rw [hnone] at hnext
      cases hnext
    · rw [hnone] at hnext
      cases hnext
    · rw [hgoes] at hnext
      cases hnext
      rw [hcall]
      exact ih (by omega) _

theorem ends_of_parseChunks {s : Bytes} {fuel pos : Nat} {result : Bytes}
    (h : parseChunks s fuel pos result ≠ .error .endless) : ∃ n, Ends (nextCall s) n pos := by
  induction fuel generalizing pos result with
  | zero => exact absurd rfl h
  | succ fuel ih =>
    rcases parseChunks_cases s pos with ⟨_, hnone, _⟩ | ⟨hnone, _⟩ | ⟨_, _, _, _, hgoes, hcall⟩
    · exact ⟨0, .here hnone⟩
    · exact ⟨0, .here hnone⟩
    · rw [hcall] at h
      obtain ⟨n, hn⟩ := ih h
      exact ⟨n + 1, .later hgoes hn⟩

/-- A recursion that ends has made no more calls than there are positions. -/
theorem parseChunks_ends {s : Bytes} {n pos : Nat} (h : Ends (nextCall s) n pos)
    (result : Bytes) : parseChunks s (s.length + 1) pos result ≠ .error .endless := by
  have hbound := h.le_bound fun _ _ hnext => nextCall_inside hnext
  exact parseChunks_of_ends h (by omega) result

/-- **The fuel is no limit**: what it does not suffice for never ends. -/
theorem parseChunkedBody_endless_iff (s : Bytes) :
    parseChunkedBody s = .error .endless ↔
      ∀ fuel, parseChunks s fuel 0 [] = .error .endless := by
  constructor
  · intro h fuel
    by_contra hends
    obtain ⟨n, hn⟩ := ends_of_parseChunks hends
    exact parseChunks_ends hn [] h
  · exact fun h => h _

/-! ### From front to back -/

/-- `parse` is called at `pos`. -/
def Reached (s : Bytes) (pos : Nat) : Prop :=
  Relation.ReflTransGen (fun p q => nextCall s p = some q) 0 pos

/-- The recursion ends, goes up, and appends what the body has. -/
structure Progress (s : Bytes) : Prop where
  ends : parseChunkedBody s ≠ .error .endless
  forward : ∀ pos next, Reached s pos → nextCall s pos = some next → pos < next
  inside : ∀ pos start size, Reached s pos → nextCall s pos ≠ none →
    sizeLine? s pos = some (start, size) → start + size ≤ s.length

/-- Behind chunks that fit the body stands a size whose sum with the position of its data
is no `size_t`. -/
inductive Overlong (s : Bytes) : Nat → Prop
  | here {pos start size : Nat} (hline : sizeLine? s pos = some (start, size))
    (hwrap : 18446744073709551616 ≤ start + size) : Overlong s pos
  | behind {pos start size : Nat} (hline : sizeLine? s pos = some (start, size))
    (hsize : size ≠ 0) (hroom : start + size ≤ s.length) (h : Overlong s (start + size + 2)) :
    Overlong s pos

theorem sizeLine?_lt {s : Bytes} {pos start size : Nat}
    (h : sizeLine? s pos = some (start, size)) :
    pos + 2 ≤ start ∧ start ≤ s.length ∧ size < 18446744073709551616 := by
  obtain ⟨line, value, rest, _, _, hstart, hsize, _, hroom⟩ := sizeLine?_eq_some h
  exact ⟨by omega, hroom, by omega⟩

/-- The bounds check takes every size that wraps around. -/
theorem nextCall_wrapped {s : Buffer} {pos start size : Nat}
    (hline : sizeLine? s.val pos = some (start, size))
    (hwrap : 18446744073709551616 ≤ start + size) : nextCall s.val pos ≠ none := by
  have hshort := s.property
  obtain ⟨_, hstart, hsize⟩ := sizeLine?_lt hline
  have hsum : sizeAdd start size ≤ s.val.length := by
    unfold sizeAdd
    omega
  rw [nextCall_eq_some.mpr ⟨start, size, hline, by omega, hsum, rfl⟩]
  exact Option.some_ne_none _

/-- A chunk that fits is followed by a call right behind it. -/
theorem nextCall_fits {s : Buffer} {pos start size : Nat}
    (hline : sizeLine? s.val pos = some (start, size)) (hsize : size ≠ 0)
    (hroom : start + size ≤ s.val.length) : nextCall s.val pos = some (start + size + 2) := by
  have hshort := s.property
  have hsum : sizeAdd start size = start + size := Nat.mod_eq_of_lt (by omega)
  have hnext : sizeAdd (start + size) 2 = start + size + 2 := Nat.mod_eq_of_lt (by omega)
  exact nextCall_eq_some.mpr ⟨start, size, hline, hsize, by omega, by rw [hsum, hnext]⟩

theorem Overlong.not_progress {s : Buffer} {pos : Nat} (h : Overlong s.val pos)
    (hreached : Reached s.val pos) : ¬ Progress s.val := by
  intro hprogress
  induction h with
  | here hline hwrap =>
    have hinside := hprogress.inside _ _ _ hreached (nextCall_wrapped hline hwrap) hline
    have hshort := s.property
    omega
  | behind hline hsize hroom _ ih =>
    exact ih (hreached.tail (nextCall_fits hline hsize hroom))

/-- A call that no such size stands before or at. -/
theorem nextCall_of_not_overlong {s : Buffer} {pos next : Nat} (h : ¬ Overlong s.val pos)
    (hnext : nextCall s.val pos = some next) :
    ¬ Overlong s.val next ∧ pos < s.val.length ∧ pos < next ∧
      ∀ start size, sizeLine? s.val pos = some (start, size) → start + size ≤ s.val.length := by
  obtain ⟨start, size, hline, hsize, hsum, _⟩ := nextCall_eq_some.mp hnext
  obtain ⟨hstart, _, _⟩ := sizeLine?_lt hline
  have hfits : start + size ≤ s.val.length := by
    have hlt : start + size < 18446744073709551616 :=
      Nat.lt_of_not_le fun hwrap => h (.here hline hwrap)
    rwa [sizeAdd, Nat.mod_eq_of_lt hlt] at hsum
  rw [nextCall_fits hline hsize hfits] at hnext
  cases hnext
  refine ⟨fun hnext => h (.behind hline hsize hfits hnext), by omega, by omega, ?_⟩
  intro start' size' hline'
  rw [hline] at hline'
  cases hline'
  exact hfits

theorem Reached.not_overlong {s : Buffer} (h : ¬ Overlong s.val 0) {pos : Nat}
    (hreached : Reached s.val pos) : ¬ Overlong s.val pos := by
  induction hreached with
  | refl => exact h
  | tail _ hnext ih => exact (nextCall_of_not_overlong ih hnext).1

theorem progress_of_not_overlong {s : Buffer} (h : ¬ Overlong s.val 0) : Progress s.val where
  ends := by
    obtain ⟨n, hn⟩ := ends_of_increasing (P := fun pos => ¬ Overlong s.val pos)
      (fun _ _ hpos hnext =>
        have hcall := nextCall_of_not_overlong hpos hnext
        ⟨hcall.1, hcall.2.1, hcall.2.2.1⟩) h
    exact parseChunks_ends hn []
  forward := fun _ _ hreached hnext =>
    (nextCall_of_not_overlong (hreached.not_overlong h) hnext).2.2.1
  inside := by
    intro pos start size hreached hcall hline
    obtain ⟨next, hnext⟩ := Option.ne_none_iff_exists'.mp hcall
    exact (nextCall_of_not_overlong (hreached.not_overlong h) hnext).2.2.2 _ _ hline

/-- **From front to back, if no sum wraps around, and only then.** -/
theorem parseChunkedBody_progress_iff (s : Buffer) :
    Progress s.val ↔ ¬ Overlong s.val 0 :=
  ⟨fun hprogress hlong => hlong.not_progress .refl hprogress, progress_of_not_overlong⟩

/-- A size that leads from behind a first chunk back to the same size line. -/
theorem parseChunkedBody_back :
    ¬ Progress (text "1\r\na\r\nFFFFFFFFFFFFFFEC\r\n") ∧
      parseChunkedBody (text "1\r\na\r\nFFFFFFFFFFFFFFEC\r\n") = .error .endless := by
  have hendless : parseChunkedBody (text "1\r\na\r\nFFFFFFFFFFFFFFEC\r\n") = .error .endless := by
    decide +kernel
  exact ⟨fun h => h.ends hendless, hendless⟩

end HttpServer.Client
