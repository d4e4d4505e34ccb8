import HttpServer.Client
import HttpServer.Server.Send

/-! `HttpClient::readResponse`: the response as the socket hands it over.

What `recv` returns is given as a list, which the end of the stream follows. The loop takes
a read that leaves room in the buffer for the last one: a response is read whole if each
piece but the last fills the buffer, and not otherwise (`readResponse_untilShort`). On a connection
that is left open behind the response the last one has to leave room as well, or the client waits
for more until its time is over (`readResponse_leftOpen_iff`). -/
namespace HttpServer.Client
open Utils

def READ_BUFFER_SIZE : Nat := 4096

/-- What one call of `recv` can put into the buffer. -/
abbrev Piece : Type := {b : Bytes // b ≠ [] ∧ b.length ≤ READ_BUFFER_SIZE}

def EINTR : Int := 4

inductive RecvResult where
  | bytes (piece : Piece)
  | failed (errno : Int)
  deriving DecidableEq

/-- The loop, with the `response` read by then. Behind the last result `recv` returns 0. -/
def readLoop (response : Bytes) : List RecvResult → Except Bytes Bytes
  | [] => .ok response
  | .failed errno :: rest =>
    if errno = EINTR then readLoop response rest
    else .error (text "recv failed: " ++ toDecimal errno)
  | .bytes piece :: rest =>
    let response := response ++ piece.val
    -- heuristic end-of-stream
    if piece.val.length < READ_BUFFER_SIZE then .ok response else readLoop response rest

def readResponse (results : List RecvResult) : Except Bytes Bytes := readLoop [] results

/-- The results hand over these pieces, with no failure but calls that were interrupted. -/
inductive Delivers : List RecvResult → List Piece → Prop
  | closed : Delivers [] []
  | interrupted {results : List RecvResult} {pieces : List Piece} (h : Delivers results pieces) :
    Delivers (.failed EINTR :: results) pieces
  | piece {results : List RecvResult} {pieces : List Piece} (p : Piece)
    (h : Delivers results pieces) : Delivers (.bytes p :: results) (p :: pieces)

/-- What a stream of pieces consists of. -/
def whole (pieces : List Piece) : Bytes := pieces.flatMap Subtype.val

theorem whole_eq_nil {pieces : List Piece} (h : whole pieces = []) : pieces = [] := by
  cases pieces with
  | nil => rfl
  | cons p pieces =>
    rw [whole, List.flatMap_cons] at h
    exact absurd (List.append_eq_nil_iff.mp h).1 p.property.1

/-- One piece, with what was read before it. -/
theorem readLoop_piece (response : Bytes) (p : Piece) (results : List RecvResult) :
    readLoop response (.bytes p :: results) =
      if p.val.length = READ_BUFFER_SIZE then readLoop (response ++ p.val) results
      else .ok (response ++ p.val) := by
  have hle := p.property.2
  rw [readLoop]
  by_cases hfull : p.val.length = READ_BUFFER_SIZE
  · rw [if_pos hfull, if_neg (by omega)]
  · rw [if_neg hfull, if_pos (by omega)]

theorem readLoop_interrupted (response : Bytes) (results : List RecvResult) :
    readLoop response (.failed EINTR :: results) = readLoop response results := by
  rw [readLoop, if_pos rfl]

/-- The pieces up to the first that leaves room in the buffer. -/
def untilShort : List Piece → List Piece
  | [] => []
  | p :: pieces => if p.val.length = READ_BUFFER_SIZE then p :: untilShort pieces else [p]

/-- From any point of the loop: the stream is read up to the first short piece. -/
theorem readLoop_untilShort {results : List RecvResult} {pieces : List Piece}
    (h : Delivers results pieces) (response : Bytes) :
    readLoop response results = .ok (response ++ whole (untilShort pieces)) := by
  induction h generalizing response with
  | closed => simp [readLoop, whole, untilShort]
  | interrupted _ ih =>
    rw [readLoop_interrupted]
    exact ih response
  | @piece results pieces p _ ih =>
    rw [readLoop_piece, untilShort]
    by_cases hfull : p.val.length = READ_BUFFER_SIZE
    · rw [if_pos hfull, if_pos hfull, ih, whole, whole, List.flatMap_cons, List.append_assoc]
    · rw [if_neg hfull, if_neg hfull, whole, List.flatMap_singleton]

/-- Nothing is left out if all pieces but the last fill the buffer. -/
theorem whole_untilShort_iff (pieces : List Piece) :
    whole (untilShort pieces) = whole pieces ↔
      ∀ p ∈ pieces.dropLast, p.val.length = READ_BUFFER_SIZE := by
  induction pieces with
  | nil => simp [untilShort]
  | cons p pieces ih =>
    rw [untilShort]
    cases pieces with
    | nil =>
      refine ⟨fun _ q hq => absurd hq List.not_mem_nil, fun _ => ?_⟩
      rw [untilShort, ite_self]
    | cons q pieces =>
      rw [List.dropLast_cons_of_ne_nil (List.cons_ne_nil q pieces), List.forall_mem_cons, ← ih]
      by_cases hfull : p.val.length = READ_BUFFER_SIZE
      · rw [if_pos hfull, whole, whole, List.flatMap_cons, List.flatMap_cons]
        exact ⟨fun h => ⟨hfull, List.append_cancel_left h⟩, fun h => congrArg _ h.2⟩
      · rw [if_neg hfull]
        constructor
        · intro hsame
          have hrest : whole (q :: pieces) = [] := by
            rw [whole, whole, List.flatMap_singleton, List.flatMap_cons] at hsame
            exact List.self_eq_append_right.mp hsame
          exact absurd (whole_eq_nil hrest) (List.cons_ne_nil q pieces)
        · exact fun h => absurd h.1 hfull

/-- **A response is read up to the first piece that leaves room in the buffer**, and so
whole if each piece but the last fills it, and only then. -/
theorem readResponse_untilShort {results : List RecvResult} {pieces : List Piece}
    (h : Delivers results pieces) :
    readResponse results = .ok (whole (untilShort pieces)) ∧
      (readResponse results = .ok (whole pieces) ↔
        ∀ p ∈ pieces.dropLast, p.val.length = READ_BUFFER_SIZE) := by
  have hread : readResponse results = .ok (whole (untilShort pieces)) := readLoop_untilShort h []
  refine ⟨hread, ?_⟩
  rw [hread, ← whole_untilShort_iff, Except.ok.injEq]

/-- A head and its body, each sent on its own. -/
def headThenBody : List Piece :=
  [⟨text "HTTP/1.1 200 OK\r\nContent-Length: 2\r\n\r\n", by decide +kernel⟩,
    ⟨text "hi", by decide +kernel⟩]

/-- The two pieces, and a call that was interrupted before them. -/
theorem readResponse_untilShort_two :
    readResponse (.failed EINTR :: headThenBody.map .bytes) =
        .ok (whole (untilShort headThenBody)) ∧
      (readResponse (.failed EINTR :: headThenBody.map .bytes) = .ok (whole headThenBody) ↔
        ∀ p ∈ headThenBody.dropLast, p.val.length = READ_BUFFER_SIZE) :=
  readResponse_untilShort (.interrupted (.piece _ (.piece _ .closed)))

/-- The body is left unread. -/
theorem readResponse_cut :
    Delivers (headThenBody.map .bytes) headThenBody ∧
      readResponse (headThenBody.map .bytes) ≠ .ok (whole headThenBody) :=
  ⟨.piece _ (.piece _ .closed), by decide +kernel⟩

/-! ### A connection left open -/

/-- Nothing follows, and the stream does not end: `recv` gives up when its time is over. -/
def leftOpen (results : List RecvResult) : List RecvResult := results ++ [.failed EAGAIN]

/-- The pieces fill the buffer up to the last one, which leaves room in it. -/
structure EndsShort (pieces : List Piece) : Prop where
  full : ∀ p ∈ pieces.dropLast, p.val.length = READ_BUFFER_SIZE
  short : ∃ p ∈ pieces, p.val.length < READ_BUFFER_SIZE

def timedOut : Bytes := text "recv failed: " ++ toDecimal EAGAIN

/-- From any point of the loop: the first short piece ends it, or the time does. -/
theorem readLoop_leftOpen {results : List RecvResult} {pieces : List Piece}
    (h : Delivers results pieces) (response : Bytes) :
    readLoop response (leftOpen results) =
      if ∃ p ∈ pieces, p.val.length < READ_BUFFER_SIZE then
        .ok (response ++ whole (untilShort pieces))
      else .error timedOut := by
  induction h generalizing response with
  | closed =>
    rw [if_neg (by simp)]
    rfl
  | interrupted _ ih =>
    rw [leftOpen, List.cons_append, readLoop_interrupted]
    exact ih response
  | @piece results pieces p _ ih =>
    rw [leftOpen, List.cons_append, readLoop_piece, untilShort]
    have hle := p.property.2
    by_cases hfull : p.val.length = READ_BUFFER_SIZE
    · have hrest : (∃ q ∈ p :: pieces, q.val.length < READ_BUFFER_SIZE) ↔
          ∃ q ∈ pieces, q.val.length < READ_BUFFER_SIZE := by
        rw [List.exists_mem_cons_iff]
        exact or_iff_right (by omega)
      rw [if_pos hfull, if_pos hfull, whole, List.flatMap_cons, ← List.append_assoc]
      simp only [hrest]
      exact ih (response ++ p.val)
    · have hshort : ∃ q ∈ p :: pieces, q.val.length < READ_BUFFER_SIZE :=
        ⟨p, List.mem_cons_self .., by omega⟩
      rw [if_neg hfull, if_neg hfull, if_pos hshort, whole, List.flatMap_singleton]

/-- What is read is a part of the stream from its start. -/
theorem whole_untilShort_prefix (pieces : List Piece) :
    whole (untilShort pieces) <+: whole pieces := by
  induction pieces with
  | nil => exact List.prefix_rfl
  | cons p pieces ih =>
    rw [untilShort]
    split
    · exact (List.prefix_append_right_inj p.val).mpr ih
    · rw [whole, List.flatMap_singleton]
      exact List.prefix_append ..

/-- **On a connection left open a response is read whole exactly if the pieces fill the buffer up to
the last one and that one leaves room**; else the client gives up, or has a part of it. -/
theorem readResponse_leftOpen_iff {results : List RecvResult} {pieces : List Piece}
    (h : Delivers results pieces) :
    (readResponse (leftOpen results) = .ok (whole pieces) ↔ EndsShort pieces) ∧
      (readResponse (leftOpen results) = .error timedOut ∨
        ∃ read, readResponse (leftOpen results) = .ok read ∧ read <+: whole pieces) := by
  have hread := readLoop_leftOpen h []
  rw [List.nil_append] at hread
  rw [readResponse, hread]
  by_cases hshort : ∃ p ∈ pieces, p.val.length < READ_BUFFER_SIZE
  · rw [if_pos hshort, Except.ok.injEq, whole_untilShort_iff]
    exact ⟨⟨fun hfull => ⟨hfull, hshort⟩, EndsShort.full⟩,
      .inr ⟨_, rfl, whole_untilShort_prefix pieces⟩⟩
  · rw [if_neg hshort]
    exact ⟨⟨nofun, fun hends => absurd hends.short hshort⟩, .inl rfl⟩

/-- Where all pieces but the last fill the buffer, the length of the response decides. -/
theorem endsShort_iff_length {pieces : List Piece}
    (hfull : ∀ p ∈ pieces.dropLast, p.val.length = READ_BUFFER_SIZE) :
    EndsShort pieces ↔ ¬ READ_BUFFER_SIZE ∣ (whole pieces).length := by
  refine Iff.trans ⟨EndsShort.short, fun hshort => ⟨hfull, hshort⟩⟩ ?_
  induction pieces with
  | nil => simp [whole]
  | cons p pieces ih =>
    rw [whole, List.flatMap_cons, ← whole, List.length_append, List.exists_mem_cons_iff]
    cases pieces with
    | nil =>
      -- no piece is empty
      have hpos := List.length_pos_of_ne_nil p.property.1
      have hle := p.property.2
      rw [whole, List.flatMap_nil, List.length_nil, Nat.add_zero]
      refine ⟨?_, fun hnot =>
        .inl (Nat.lt_of_le_of_ne hle fun heq => hnot heq.symm.dvd)⟩
      rintro (hshort | ⟨q, hq, _⟩)
      · exact Nat.not_dvd_of_pos_of_lt hpos hshort
      · cases hq
    | cons q pieces =>
      rw [List.dropLast_cons_of_ne_nil (List.cons_ne_nil q pieces), List.forall_mem_cons] at hfull
      rw [hfull.1, Nat.dvd_add_right (Nat.dvd_refl _), ← ih hfull.2]
      exact or_iff_right (Nat.lt_irrefl _)

/-! ### What the caller gets -/

/-- A connection over which the request goes out, and these results come back. -/
def recvNetwork (results : Bytes → List RecvResult) : Network where
  refused := none
  answer := fun written => readResponse (results written)

/-- Read whole, the response is parsed whole. -/
theorem get_recvNetwork (c : BaseClient) (unset : ContentType) (unsetFd : Int) (path : Bytes)
    {results : Bytes → List RecvResult} {pieces : List Piece}
    (h : ∀ written, Delivers (results written) pieces)
    (hfull : ∀ p ∈ pieces.dropLast, p.val.length = READ_BUFFER_SIZE) :
    (c.get (recvNetwork results) unset unsetFd path).result =
      parseResponse unset unsetFd (whole pieces) := by
  have hread : ∀ written, readResponse (results written) = .ok (whole pieces) := by
    intro written
    rw [← (whole_untilShort_iff pieces).mpr hfull]
    exact readLoop_untilShort (h written) []
  show ((readResponse (results _)).mapError ClientError.unexpected).bind _ = _
  rw [hread]
  rfl

end HttpServer.Client
