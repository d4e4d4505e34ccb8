import HttpServer.Client
import HttpServer.Request.Parse

/-! Chunked bodies written and read.

A size in hexadecimal is read back from its digits. Chunk by chunk the position moves over
what was written (`parseChunks_encode`), so that the data may hold anything, size lines and
line breaks included. -/
namespace HttpServer.Client
open Lib Lib.Search Utils

/-- A chunk ends a body where it is empty. -/
abbrev Chunk : Type := {c : Bytes // c ≠ []}

/-- The size, the data, a line break behind each. -/
def chunkBytes (c : Chunk) : Bytes :=
  fromIntToHex (UInt64.ofNat c.val.length) ++ (crlf ++ (c.val ++ crlf))

/-- What is sent for a list of chunks. -/
def encodeChunks (chunks : List Chunk) : Bytes :=
  chunks.flatMap chunkBytes ++ (text "0" ++ (crlf ++ crlf))

/-! ### Chunk by chunk -/

/-- A size line that starts at `pos`. -/
theorem size_line {body size rest : Bytes} {pos : Nat} (hpos : pos ≤ body.length)
    (hsize : ch '\r' ∉ size) (hdrop : body.drop pos = size ++ (crlf ++ rest)) :
    findFrom crlf body pos = some (pos + size.length) ∧
      substr body pos (pos + size.length - pos) = .ok size ∧
      body.drop (pos + size.length + 2) = rest := by
  refine ⟨?_, substr_between hpos hdrop (by omega), ?_⟩
  · rw [findFrom_eq hpos hdrop, Request.indexOf_crlf hsize, Option.map_some, Nat.add_comm]
  · rw [Nat.add_assoc, ← List.drop_drop, hdrop, ← List.drop_drop, List.drop_left]
    rfl

/-- One round on a chunk: its data is appended, and the next round starts behind it. -/
theorem parseChunks_chunk {body rest : Bytes} {pos fuel : Nat} (c : Chunk) (result : Bytes)
    (hpos : pos ≤ body.length) (hdrop : body.drop pos = chunkBytes c ++ rest)
    (hsmall : pos + (chunkBytes c).length < 9223372036854775808) :
    parseChunks body (fuel + 1) pos result =
      parseChunks body fuel (pos + (chunkBytes c).length) (result ++ c.val) := by
  have hpositive : 0 < c.val.length := List.length_pos_iff.mpr c.property
  have hlen : (chunkBytes c).length =
      (fromIntToHex (UInt64.ofNat c.val.length)).length + (2 + (c.val.length + 2)) := by
    simp only [chunkBytes, List.length_append]
    rfl
  have hroom := congrArg List.length hdrop
  rw [List.length_drop, List.length_append] at hroom
  have hline : body.drop pos = fromIntToHex (UInt64.ofNat c.val.length) ++
      (crlf ++ (c.val ++ (crlf ++ rest))) := by
    rw [hdrop]
    simp [chunkBytes]
  obtain ⟨hfind, hsize, hdata⟩ :=
    size_line hpos (fun hc => (fromIntToHex_no_break _ _ hc).1 rfl) hline
  generalize (fromIntToHex (UInt64.ofNat c.val.length)).length = n at hfind hsize hdata hlen
  have hlength : (UInt64.ofNat c.val.length).toNat = c.val.length :=
    Nat.mod_eq_of_lt (show c.val.length < 18446744073709551616 by omega)
  have hnonzero : ¬ UInt64.ofNat c.val.length = 0 := by
    intro hzero
    have := congrArg UInt64.toNat hzero
    rw [hlength] at this
    exact absurd this (Nat.ne_of_gt hpositive)
  have hend : sizeAdd (pos + n + 2) c.val.length = pos + n + 2 + c.val.length :=
    Nat.mod_eq_of_lt (by omega)
  have hnext : sizeAdd (pos + n + 2 + c.val.length) 2 = pos + (chunkBytes c).length := by
    rw [hlen]
    exact (Nat.mod_eq_of_lt (by omega)).trans (by omega)
  have hpiece : substr body (pos + n + 2) c.val.length = .ok c.val :=
    substr_between (by omega) hdata rfl
  rw [parseChunks, if_neg (by omega), hfind]
  simp only [hsize, strings, Except.mapError, bind, Except.bind,
    parseHexSize_fromIntToHex, hnonzero, if_false, hlength, hend]
  rw [if_neg (by omega), hpiece]
  simp only [hnext]

/-- The round that reads the size 0 ends the body, whatever stands behind it. -/
theorem parseChunks_end {body trailing : Bytes} {pos fuel : Nat} (result : Bytes)
    (hpos : pos ≤ body.length)
    (hdrop : body.drop pos = text "0" ++ (crlf ++ (crlf ++ trailing))) :
    parseChunks body (fuel + 1) pos result = .ok result := by
  have hroom := congrArg List.length hdrop
  rw [List.length_drop, List.length_append] at hroom
  have hone : (text "0").length = 1 := rfl
  obtain ⟨hfind, hsize, _⟩ := size_line hpos (by decide) hdrop
  have hzero : parseHexSize (text "0") = some 0 := rfl
  rw [parseChunks, if_neg (by omega), hfind]
  simp only [hsize, strings, Except.mapError, bind, Except.bind, hzero, if_true]

theorem parseChunks_encode (chunks : List Chunk) {body trailing : Bytes} {pos fuel : Nat}
    (result : Bytes) (hpos : pos ≤ body.length)
    (hdrop : body.drop pos = encodeChunks chunks ++ trailing)
    (hsmall : pos + (encodeChunks chunks).length < 9223372036854775808)
    (hfuel : chunks.length < fuel) :
    parseChunks body fuel pos result = .ok (result ++ chunks.flatMap Subtype.val) := by
  induction chunks generalizing pos fuel result with
  | nil =>
    obtain ⟨fuel, rfl⟩ : ∃ k, fuel = k + 1 := ⟨fuel - 1, by omega⟩
    have hend : body.drop pos = text "0" ++ (crlf ++ (crlf ++ trailing)) := by
      rw [hdrop]
      simp [encodeChunks]
    rw [parseChunks_end result hpos hend, List.flatMap_nil, List.append_nil]
  | cons c chunks ih =>
    rw [List.length_cons] at hfuel
    obtain ⟨fuel, rfl⟩ : ∃ k, fuel = k + 1 := ⟨fuel - 1, by omega⟩
    have hsplit : encodeChunks (c :: chunks) = chunkBytes c ++ encodeChunks chunks := by
      simp [encodeChunks]
    have hlen : (encodeChunks (c :: chunks)).length =
        (chunkBytes c).length + (encodeChunks chunks).length := by
      rw [hsplit, List.length_append]
    have hchunk : body.drop pos = chunkBytes c ++ (encodeChunks chunks ++ trailing) := by
      rw [hdrop, hsplit, List.append_assoc]
    have hroom := congrArg List.length hchunk
    rw [List.length_drop, List.length_append, List.length_append] at hroom
    have hrest : body.drop (pos + (chunkBytes c).length) = encodeChunks chunks ++ trailing := by
      rw [← List.drop_drop, hchunk, List.drop_left]
    have hpositive : 0 < (encodeChunks chunks).length := by
      rw [encodeChunks, List.length_append]
      exact Nat.lt_of_lt_of_le (by decide) (Nat.le_add_left ..)
    rw [parseChunks_chunk c result hpos hchunk (by omega),
      ih (result ++ c.val) (by omega) hrest (by omega) (by omega), List.flatMap_cons,
      List.append_assoc]

theorem length_le_encodeChunks (chunks : List Chunk) :
    chunks.length ≤ (encodeChunks chunks).length := by
  induction chunks with
  | nil => exact Nat.zero_le _
  | cons c chunks ih =>
    have hpositive : 0 < c.val.length := List.length_pos_iff.mpr c.property
    simp only [encodeChunks, List.flatMap_cons, chunkBytes, List.length_append,
      List.length_cons] at ih ⊢
    omega

/-- **Reading inverts writing**: a body written in chunks, of any data and with anything
behind it, is read as the data of its chunks. -/
theorem parseChunkedBody_encodeChunks (chunks : List Chunk) (trailing : Bytes)
    (hsmall : (encodeChunks chunks).length < 9223372036854775808) :
    parseChunkedBody (encodeChunks chunks ++ trailing) = .ok (chunks.flatMap Subtype.val) := by
  have hfuel := length_le_encodeChunks chunks
  exact parseChunks_encode chunks [] (Nat.zero_le _) rfl (by omega)
    (by rw [List.length_append]; omega)

/-- Two chunks, the first of which looks like the end of the body. -/
theorem parseChunkedBody_encodeChunks_two :
    parseChunkedBody (encodeChunks [⟨text "0\r\n\r\n", by decide⟩, ⟨text "b", by decide⟩] ++
      text "GET") = .ok (text "0\r\n\r\nb") :=
  parseChunkedBody_encodeChunks [⟨text "0\r\n\r\n", by decide⟩, ⟨text "b", by decide⟩]
    (text "GET") (by decide)

end HttpServer.Client
