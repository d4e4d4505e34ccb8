import HttpServer.Server.Resource
import HttpServer.Utils.Text

/-! Entity tags and the versions of a file.

A tag is made of the time and the size of a file, in hexadecimal and with a dash between
them, and tells two of them apart (`computeEtag_injective`). But the time is a `time_t`
handed over as an `int`: one with bit 31 set gets no tag at all, and of two that differ by a
multiple of 2^32 nothing is left to tell. -/
namespace HttpServer
open Lib Utils

/-! ### Hexadecimal numbers -/

theorem fromIntToHex_injective {n m : UInt64} (h : fromIntToHex n = fromIntToHex m) : n = m := by
  have hn := parseHexSize_fromIntToHex n
  rw [h, parseHexSize_fromIntToHex] at hn
  exact (Option.some.inj hn).symm

/-- The separator is no digit. -/
theorem fromIntToHex_no_dash (n : UInt64) : ch '-' ∉ fromIntToHex n := by
  intro hdash
  rcases hexLoop_charset 16 n [] _ hdash with hc | hc
  · exact absurd hc (by decide)
  · cases hc

theorem ofNat_injective {n m : Nat} (hn : n < 18446744073709551616)
    (hm : m < 18446744073709551616) (h : UInt64.ofNat n = UInt64.ofNat m) : n = m := by
  have htoNat : n % 18446744073709551616 = m % 18446744073709551616 := congrArg UInt64.toNat h
  rwa [Nat.mod_eq_of_lt hn, Nat.mod_eq_of_lt hm] at htoNat

/-- **A tag says which time and which size it was made of.** -/
theorem computeEtag_injective {mtime mtime' : Int} {size size' : Nat}
    (hm : 0 ≤ mtime ∧ mtime < 18446744073709551616)
    (hm' : 0 ≤ mtime' ∧ mtime' < 18446744073709551616)
    (hs : size < 18446744073709551616) (hs' : size' < 18446744073709551616)
    (h : computeEtag mtime size = computeEtag mtime' size') : mtime = mtime' ∧ size = size' := by
  have hdash : text "-" = [ch '-'] := by decide
  rw [computeEtag, computeEtag, if_neg (by omega), if_neg (by omega), hdash] at h
  simp only [List.append_assoc, List.append_cancel_left_eq, List.cons_append,
    List.nil_append] at h
  have hlast : ch '-' ∉ fromIntToHex (UInt64.ofNat size) ++ text "\"" := by
    rw [List.mem_append, not_or]
    exact ⟨fromIntToHex_no_dash _, by decide⟩
  obtain ⟨htime, _, hsize⟩ :=
    (List.append_cons_inj_of_notMem (fromIntToHex_no_dash _) hlast).mp h
  have htime := ofNat_injective (by omega) (by omega) (fromIntToHex_injective htime)
  have hsize := fromIntToHex_injective (List.append_cancel_right hsize)
  exact ⟨by omega, ofNat_injective hs hs' hsize⟩

/-! ### The header -/

/-- A time that is not negative stays so as an `int` where bit 31 is not set. -/
theorem narrowToInt_nonneg_iff (mtime : Int) :
    0 ≤ narrowToInt mtime ↔ mtime % 4294967296 < 2147483648 := by
  unfold narrowToInt Int.bmod
  simp only
  split <;> omega

theorem narrowToInt_inj {mtime mtime' : Int} :
    narrowToInt mtime = narrowToInt mtime' ↔ mtime % 4294967296 = mtime' % 4294967296 := by
  unfold narrowToInt Int.bmod
  simp only
  split <;> split <;> omega

namespace Server
variable {W : Type}

/-- Of the headers of a file only the last is a tag. -/
theorem fileResponse_etag (type : Bytes) (st : FileStat) (content : Bytes) (res : Response) :
    (fileResponse type st content res).headers.lookup (text "ETag") =
      if 0 ≤ narrowToInt st.mtime then some (computeEtag (narrowToInt st.mtime) st.size)
      else res.headers.lookup (text "ETag") := by
  have hother : ∀ (r : Response) (key val : Bytes), text "ETag" ≠ key →
      (r.setHeader key val).headers.lookup (text "ETag") = r.headers.lookup (text "ETag") := by
    intro r key val hne
    rw [Response.lookup_setHeader, if_neg hne]
  have htag : computeEtag (narrowToInt st.mtime) st.size ≠ [] ↔ 0 ≤ narrowToInt st.mtime := by
    rw [computeEtag]
    split
    · next hneg => simp [Int.not_le.mpr hneg]
    · next hpos => simp [Int.not_lt.mp hpos, text]
  unfold fileResponse
  simp only [Response.append, htag]
  split
  · rw [Response.lookup_setHeader, if_pos rfl]
  · split
    · rw [hother _ _ _ (by decide), hother _ _ _ (by decide), hother _ _ _ (by decide),
        hother _ _ _ (by decide)]
    · rw [hother _ _ _ (by decide), hother _ _ _ (by decide), hother _ _ _ (by decide)]

/-- A request is served a regular file that is in this state, with the time of a `time_t`
from 1970 on and the size of an `off_t`. -/
structure Served (s : Server W) (fs : FileSystem) (req : Request) (st : FileStat) : Prop where
  found : ∃ found path content, s.resolvePath fs req = .ok (found, path) ∧
    fs.stat (cStr path) = some st ∧ fs.contents (cStr path) = some content ∧ found.mimeType ≠ []
  regular : st.isDir = false
  mtime : 0 ≤ st.mtime ∧ st.mtime < 9223372036854775808
  size : st.size < 9223372036854775808

/-- Whatever headers the response had, it has this tag afterwards. -/
def SetsEtag (s : Server W) (fs : FileSystem) (req : Request) (tag : Bytes) : Prop :=
  ∀ res, ∃ out, s.handleStaticResource fs req res = .ok out ∧
    out.2.headers.lookup (text "ETag") = some tag

theorem Served.setsEtag_iff {s : Server W} {fs : FileSystem} {req : Request} {st : FileStat}
    (h : Served s fs req st) (tag : Bytes) :
    s.SetsEtag fs req tag ↔
      0 ≤ narrowToInt st.mtime ∧ tag = computeEtag (narrowToInt st.mtime) st.size := by
  obtain ⟨found, path, content, hresolve, hstat, hread, htype⟩ := h.found
  have hserve : ∀ res, (s.handleStaticResource fs req res).map Prod.snd =
      .ok (fileResponse found.mimeType st content res) := by
    intro res
    rw [handleStaticResource_found hresolve, answerFile, hstat]
    simp only [hread, if_neg htype]
  have hsets : ∀ res, (∃ out, s.handleStaticResource fs req res = .ok out ∧
      out.2.headers.lookup (text "ETag") = some tag) ↔
        (fileResponse found.mimeType st content res).headers.lookup (text "ETag") = some tag := by
    intro res
    have hserved := hserve res
    cases hout : s.handleStaticResource fs req res with
    | error fault =>
      rw [hout] at hserved
      cases hserved
    | ok out =>
      rw [hout] at hserved
      rw [← Except.ok.inj hserved]
      simp
  refine ⟨fun hset => ?_, fun ⟨hpos, htag⟩ res => ?_⟩
  · have hlookup := (hsets {contentType := .plainText, sockfd := 0}).mp (hset _)
    rw [fileResponse_etag] at hlookup
    split at hlookup
    · next hpos => exact ⟨hpos, (Option.some.inj hlookup).symm⟩
    · cases hlookup
  · rw [hsets, fileResponse_etag, if_pos hpos, htag]

/-- Both states get a tag, and equal ones only where time and size are equal. -/
def Distinguishes (s : Server W) (fs fs' : FileSystem) (req : Request) (st st' : FileStat) :
    Prop :=
  ∃ tag tag', s.SetsEtag fs req tag ∧ s.SetsEtag fs' req tag' ∧
    (tag = tag' → st.mtime = st'.mtime ∧ st.size = st'.size)

/-- **Tags tell two states of a file apart** exactly where neither time has bit 31 set, and
two times that are equal modulo 2^32 come with two sizes or are the same. -/
theorem distinguishes_iff {s : Server W} {fs fs' : FileSystem} {req : Request}
    {st st' : FileStat} (h : Served s fs req st) (h' : Served s fs' req st') :
    s.Distinguishes fs fs' req st st' ↔
      st.mtime % 4294967296 < 2147483648 ∧ st'.mtime % 4294967296 < 2147483648 ∧
        (st.mtime % 4294967296 = st'.mtime % 4294967296 → st.size = st'.size →
          st.mtime = st'.mtime) := by
  have hrange : ∀ m : Int, narrowToInt m < 18446744073709551616 := fun m =>
    Int.lt_trans (Int.bmod_lt (by decide)) (by decide)
  have hwide : ∀ n, n < 9223372036854775808 → n < 18446744073709551616 := fun n hn =>
    Nat.lt_trans hn (by decide)
  rw [← narrowToInt_nonneg_iff, ← narrowToInt_nonneg_iff, ← narrowToInt_inj]
  refine ⟨fun ⟨tag, tag', hset, hset', htell⟩ => ?_, fun ⟨hpos, hpos', htell⟩ => ?_⟩
  · obtain ⟨hpos, htag⟩ := (h.setsEtag_iff tag).mp hset
    obtain ⟨hpos', htag'⟩ := (h'.setsEtag_iff tag').mp hset'
    refine ⟨hpos, hpos', fun htime hsize => (htell ?_).1⟩
    rw [htag, htag', htime, hsize]
  · refine ⟨_, _, (h.setsEtag_iff _).mpr ⟨hpos, rfl⟩, (h'.setsEtag_iff _).mpr ⟨hpos', rfl⟩,
      fun htag => ?_⟩
    obtain ⟨htime, hsize⟩ := computeEtag_injective ⟨hpos, hrange _⟩ ⟨hpos', hrange _⟩
      (hwide _ h.size) (hwide _ h'.size) htag
    exact ⟨htell htime hsize, hsize⟩

/-! ### One file at different times -/

/-- A file of two bytes that was written at this time. -/
def filesAt (mtime : Int) : FileSystem where
  stat := fun path =>
    if path = text "./assets/a.txt" then some {isDir := false, mtime := mtime, size := 2} else none
  contents := fun path => if path = text "./assets/a.txt" then some (text "hi") else none

/-- A request for it. -/
def requestAt : Request := {path := text "/a.txt", mimeType := text "text/plain"}

theorem served_at {mtime : Int} (h : 0 ≤ mtime ∧ mtime < 9223372036854775808) :
    Served sampleServer (filesAt mtime) requestAt {isDir := false, mtime := mtime, size := 2} where
  found := ⟨requestAt, text "./assets/a.txt", text "hi", rfl, rfl, rfl, by decide⟩
  regular := rfl
  mtime := h
  size := show 2 < 9223372036854775808 by decide

theorem distinguishes_iff_second :
    sampleServer.Distinguishes (filesAt 0) (filesAt 1) requestAt
        {isDir := false, mtime := 0, size := 2} {isDir := false, mtime := 1, size := 2} ↔
      (0 : Int) % 4294967296 < 2147483648 ∧ (1 : Int) % 4294967296 < 2147483648 ∧
        ((0 : Int) % 4294967296 = 1 % 4294967296 → 2 = 2 → (0 : Int) = 1) :=
  distinguishes_iff (served_at (by decide)) (served_at (by decide))

/-- A file from 1970 and one 2^32 seconds later have the same tag, and one 2^31 seconds
later has none. -/
theorem etag_narrowed :
    ¬ (∀ (s : Server Unit) (fs fs' : FileSystem) (req : Request) (st st' : FileStat),
      Served s fs req st → Served s fs' req st' → s.Distinguishes fs fs' req st st') ∧
    (∃ tag, sampleServer.SetsEtag (filesAt 0) requestAt tag ∧
      sampleServer.SetsEtag (filesAt 4294967296) requestAt tag) ∧
    ¬ ∃ tag, sampleServer.SetsEtag (filesAt 2147483648) requestAt tag := by
  have hset := (@served_at 0 (by decide)).setsEtag_iff
  have hset' := (@served_at 4294967296 (by decide)).setsEtag_iff
  have hset'' := (@served_at 2147483648 (by decide)).setsEtag_iff
  have hnone : ¬ ∃ tag, sampleServer.SetsEtag (filesAt 2147483648) requestAt tag := by
    intro ⟨tag, htag⟩
    exact absurd ((hset'' tag).mp htag).1 (by decide)
  refine ⟨fun h => ?_, ⟨computeEtag 0 2, (hset _).mpr ⟨by decide, rfl⟩,
    (hset' _).mpr ⟨by decide, by decide⟩⟩, hnone⟩
  obtain ⟨tag, _, htag, _⟩ := h _ _ _ _ _ _
    (@served_at 2147483648 (by decide)) (@served_at 0 (by decide))
  exact hnone ⟨tag, htag⟩

end Server
end HttpServer
