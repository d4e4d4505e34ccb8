import HttpServer.Client.Calls

/-! What the TLS client reads of what the plain one does.

The loops are alike but for the end of the stream: `recv` returns 0 and the plain client takes what
it has for the response, `SSL_read` fails and the TLS client loses it. -/
namespace HttpServer.HttpsClient
open Client Utils

/-- The results hand over these pieces, with no failure but calls to be repeated. -/
inductive Delivers : List SslResult → List Piece → Prop
  | closed : Delivers [] []
  | again {results : List SslResult} {pieces : List Piece} {err : Int}
    (herr : err = SSL_ERROR_WANT_READ ∨ err = SSL_ERROR_WANT_WRITE)
    (h : Delivers results pieces) : Delivers (.failed err :: results) pieces
  | piece {results : List SslResult} {pieces : List Piece} (p : Piece)
    (h : Delivers results pieces) : Delivers (.bytes p :: results) (p :: pieces)

/-- A piece leaves room in the buffer. -/
def Short (p : Piece) : Prop := p.val.length < READ_BUFFER_SIZE

instance (p : Piece) : Decidable (Short p) :=
  inferInstanceAs (Decidable (p.val.length < READ_BUFFER_SIZE))

/-- The stream is read up to its first short piece; without one all of it is lost. -/
theorem readLoop_delivers {results : List SslResult} {pieces : List Piece}
    (h : Delivers results pieces) (s : HttpsClient) (ssl : Nat) (sock : Int) (response : Bytes) :
    (s.readLoop ssl sock response results).2 =
      if ∃ p ∈ pieces, Short p then .ok (response ++ whole (untilShort pieces))
      else .error (readFailed SSL_ERROR_ZERO_RETURN) := by
  induction h generalizing s response with
  | closed => rfl
  | again herr _ ih =>
    rw [readLoop, if_pos herr]
    exact ih _ response
  | @piece results pieces p _ ih =>
    have hle := p.property.2
    rw [readLoop, untilShort]
    by_cases hshort : Short p
    · have hroom : ¬ p.val.length = READ_BUFFER_SIZE := Nat.ne_of_lt hshort
      rw [if_pos (show p.val.length < READ_BUFFER_SIZE from hshort),
        if_pos ⟨p, List.mem_cons_self .., hshort⟩, if_neg hroom, whole, List.flatMap_singleton]
    · have hfull : p.val.length = READ_BUFFER_SIZE := Nat.le_antisymm hle (Nat.le_of_not_lt hshort)
      have hlater : (∃ q ∈ p :: pieces, Short q) ↔ ∃ q ∈ pieces, Short q := by
        exact (List.exists_mem_cons_iff ..).trans (or_iff_right hshort)
      rw [if_neg (show ¬ p.val.length < READ_BUFFER_SIZE from hshort), if_pos hfull, ih]
      simp only [hlater, whole, List.flatMap_cons, List.append_assoc]

/-- **The TLS client reads what the plain one does, if a piece leaves room in the buffer**, and
otherwise loses what the plain one returns. -/
theorem reads_alike_iff {results : List RecvResult} {sslResults : List SslResult}
    {pieces : List Piece} (h : Client.Delivers results pieces) (hssl : Delivers sslResults pieces)
    (s : HttpsClient) (ssl : Nat) (sock : Int) :
    ((s.readLoop ssl sock [] sslResults).2 = readResponse results ↔ ∃ p ∈ pieces, Short p) ∧
      ((∀ p ∈ pieces, ¬ Short p) → readResponse results = .ok (whole pieces) ∧
        (s.readLoop ssl sock [] sslResults).2 = .error (readFailed SSL_ERROR_ZERO_RETURN)) := by
  have hplain := readLoop_untilShort h []
  have htls := readLoop_delivers hssl s ssl sock []
  rw [readResponse, hplain, htls, List.nil_append]
  refine ⟨?_, fun hfull => ?_⟩
  · split
    · next hshort => exact iff_of_true rfl hshort
    · next hfull => exact iff_of_false (fun heq => by cases heq) hfull
  · have hnone : ¬ ∃ p ∈ pieces, Short p := by simpa using hfull
    rw [if_neg hnone, (whole_untilShort_iff pieces).mpr]
    · exact ⟨rfl, rfl⟩
    · intro p hp
      have hle := p.property.2
      exact Nat.le_antisymm hle (Nat.le_of_not_lt (hfull p (List.mem_of_mem_dropLast hp)))

/-- A body of one piece, that fills the buffer. -/
def fullPiece : Piece := ⟨List.replicate READ_BUFFER_SIZE 0, by decide +kernel⟩

theorem reads_alike_iff_full :
    ((⟨⟨text "localhost", 443, true⟩, [], true, some 7, []⟩ : HttpsClient).readLoop 7 5 []
        [.failed SSL_ERROR_WANT_READ, .bytes fullPiece]).2 = readResponse [.bytes fullPiece] ↔
      ∃ p ∈ [fullPiece], Short p :=
  (reads_alike_iff (.piece _ .closed) (.again (.inl rfl) (.piece _ .closed)) _ 7 5).1

end HttpServer.HttpsClient
