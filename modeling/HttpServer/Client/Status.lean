import HttpServer.Client
import HttpServer.Request.Parse
import HttpServer.Response.Build

/-! The status a client reads, and where it reads it.

`parseStatus` looks for `HTTP/1.1 ` in the whole message before it looks for `HTTP/1.0 `, so
the status line of an `HTTP/1.0` response is read only where nothing behind it looks like
one of `HTTP/1.1`, or says the same. -/
namespace HttpServer
open Lib.Search Utils

/-- The number of a status, by the enumeration. -/
def Status.code : Status → Nat
  | ok => 200
  | created => 201
  | accepted => 202
  | noContent => 204
  | multipleChoices => 300
  | movedPermanently => 301
  | movedTemporarily => 302
  | notModified => 304
  | badRequest => 400
  | unauthorized => 401
  | forbidden => 403
  | notFound => 404
  | internalServerError => 500
  | notImplemented => 501
  | badGateway => 502
  | serviceUnavailable => 503
  | other code => code

/-- One of the sixteen that have a line of their own. -/
def Status.Listed (status : Status) : Prop := ∀ code, status ≠ .other code

namespace Client

/-- The version a status line starts with. -/
def versionText (newer : Bool) : Bytes := if newer then text "HTTP/1.1 " else text "HTTP/1.0 "

/-- A response from its status line on: a version, a code, and whatever follows the space
behind it. -/
def statusText (newer : Bool) (status : Status) (rest : Bytes) : Bytes :=
  versionText newer ++ (toDecimal status.code ++ ch ' ' :: rest)

/-- What stands behind a version says this status: a word that is a number with it, or no
word at all, which says `ok`. -/
def Says (behind : Bytes) (status : Status) : Prop :=
  (ch ' ' ∉ behind ∧ status = .ok) ∨
    ∃ word tail n, behind = word ++ ch ' ' :: tail ∧ ch ' ' ∉ word ∧ stoi word = .ok n ∧
      statusOfCode n = status

/-! ### A status line -/

theorem statusOfCode_code {status : Status} (h : status.Listed) :
    statusOfCode status.code = status := by
  cases status with
  | other code => exact absurd rfl (h code)
  | _ => rfl

theorem stoi_code {status : Status} (h : status.Listed) :
    stoi (toDecimal status.code) = .ok (status.code : Int) := by
  cases status with
  | other code => exact absurd rfl (h code)
  | _ => decide +kernel

/-! ### Behind a version -/

/-- The word in front of the first space. -/
theorem word_unique {word word' tail tail' : Bytes} (hword : ch ' ' ∉ word)
    (hword' : ch ' ' ∉ word') (h : word ++ ch ' ' :: tail = word' ++ ch ' ' :: tail') :
    word = word' := by
  have hfirst : indexOf [ch ' '] (word ++ ch ' ' :: tail) = some word.length :=
    Request.indexOf_byte hword tail
  have hfirst' : indexOf [ch ' '] (word' ++ ch ' ' :: tail') = some word'.length :=
    Request.indexOf_byte hword' tail'
  rw [h, hfirst'] at hfirst
  exact (List.append_inj h (Option.some.inj hfirst).symm).1

/-- What is read at a version that stands at `statusStart`. -/
def readStatus (rawResponse : Bytes) (statusStart : Nat) : Except ClientError Status :=
  match findByte (ch ' ') rawResponse (statusStart + 9) with
  | none => .ok .ok
  | some statusEnd => do
    let statusStr ←
      strings (substr rawResponse (statusStart + 9) (statusEnd - (statusStart + 9)))
    let statusCode ← (stoi statusStr).mapError .thrown
    .ok (statusOfCode statusCode)

theorem parseStatus_at {raw : Bytes} {i : Nat}
    (hstart : (findFrom (text "HTTP/1.1 ") raw 0).or (findFrom (text "HTTP/1.0 ") raw 0) = some i) :
    parseStatus raw = readStatus raw i := by
  unfold parseStatus readStatus
  cases hnew : findFrom (text "HTTP/1.1 ") raw 0 with
  | some j =>
    rw [hnew, Option.some_or] at hstart
    obtain rfl := Option.some.inj hstart
    rfl
  | none =>
    rw [hnew, Option.none_or] at hstart
    generalize findFrom (text "HTTP/1.0 ") raw 0 = older at hstart ⊢
    obtain rfl := hstart
    rfl

theorem readStatus_word {raw word tail : Bytes} {i : Nat} (hroom : i + 9 ≤ raw.length)
    (hbehind : raw.drop (i + 9) = word ++ ch ' ' :: tail) (hword : ch ' ' ∉ word) :
    readStatus raw i = ((stoi word).mapError .thrown).map statusOfCode := by
  have hindex : indexOf [ch ' '] (word ++ ch ' ' :: tail) = some word.length :=
    Request.indexOf_byte hword tail
  have hfind : findByte (ch ' ') raw (i + 9) = some (word.length + (i + 9)) := by
    rw [findByte, findFrom_eq hroom hbehind, hindex, Option.map_some]
  have hcut : substr raw (i + 9) (word.length + (i + 9) - (i + 9)) = .ok word :=
    substr_between hroom hbehind (by omega)
  unfold readStatus
  simp only [hfind, hcut, strings, Except.mapError, bind, Except.bind]
  cases stoi word <;> rfl

theorem readStatus_no_word {raw : Bytes} {i : Nat} (hroom : i + 9 ≤ raw.length)
    (hbehind : ch ' ' ∉ raw.drop (i + 9)) : readStatus raw i = .ok .ok := by
  have hfind : findByte (ch ' ') raw (i + 9) = none := by
    rw [findByte, findFrom_eq hroom rfl, indexOf_absent hbehind, Option.map_none]
  unfold readStatus
  simp only [hfind]

/-- What is read is what the version that is found has behind it. -/
theorem parseStatus_eq_ok {raw : Bytes} {i : Nat}
    (hstart : (findFrom (text "HTTP/1.1 ") raw 0).or (findFrom (text "HTTP/1.0 ") raw 0) = some i)
    (status : Status) : parseStatus raw = .ok status ↔ Says (raw.drop (i + 9)) status := by
  have hroom : i + 9 ≤ raw.length := by
    rcases Option.or_eq_some_iff.mp hstart with h | h
    · exact findFrom_fits h
    · exact findFrom_fits h.2
  rw [parseStatus_at hstart]
  by_cases hspace : ch ' ' ∈ raw.drop (i + 9)
  · obtain ⟨_, hbehind⟩ := Request.findByte_mem hspace
    have hword : ch ' ' ∉ (raw.drop (i + 9)).takeWhile (· ≠ ch ' ') := by
      intro hc
      have := List.mem_takeWhile_imp hc
      simp at this
    rw [readStatus_word hroom hbehind hword]
    refine ⟨fun h => ?_, fun h => ?_⟩
    · right
      cases hn : stoi ((raw.drop (i + 9)).takeWhile (· ≠ ch ' ')) with
      | error e =>
        rw [hn] at h
        cases h
      | ok n =>
        rw [hn] at h
        exact ⟨_, _, n, hbehind, hword, hn, Except.ok.inj h⟩
    · rcases h with ⟨hnot, _⟩ | ⟨word, tail, n, hsplit, hword', hn, hstatus⟩
      · exact absurd hspace hnot
      · rw [word_unique hword hword' (hbehind.symm.trans hsplit), hn, ← hstatus]
        rfl
  · rw [readStatus_no_word hroom hspace]
    refine ⟨fun h => ?_, fun h => ?_⟩
    · exact .inl ⟨hspace, (Except.ok.inj h).symm⟩
    · rcases h with ⟨_, hstatus⟩ | ⟨word, tail, n, hsplit, _⟩
      · rw [hstatus]
      · rw [hsplit] at hspace
        exact absurd (by simp) hspace

/-! ### The status line and what follows it -/

theorem says_code {status : Status} (h : status.Listed) (rest : Bytes) :
    Says (toDecimal status.code ++ ch ' ' :: rest) status := by
  right
  refine ⟨toDecimal status.code, rest, status.code, rfl, ?_, stoi_code h, statusOfCode_code h⟩
  intro hc
  exact toDecimal_ne hc (by decide) rfl

theorem statusText_drop (newer : Bool) (status : Status) (rest : Bytes) :
    (statusText newer status rest).drop 9 = toDecimal status.code ++ ch ' ' :: rest := by
  have hlen : (versionText newer).length = 9 := by cases newer <;> rfl
  rw [statusText, ← hlen, List.drop_left]

theorem findFrom_version (newer : Bool) (status : Status) (rest : Bytes) :
    findFrom (versionText newer) (statusText newer status rest) 0 = some 0 := by
  rw [findFrom_zero]
  exact indexOf_prefixed (List.prefix_append _ _)

theorem parseStatus_line {newer : Bool} {status : Status} (h : status.Listed) (rest : Bytes) :
    parseStatus (statusText newer status rest) = .ok status ↔
      newer = true ∨ ∀ i, findFrom (text "HTTP/1.1 ") (statusText newer status rest) 0 = some i →
        Says ((statusText newer status rest).drop (i + 9)) status := by
  have hversion := findFrom_version newer status rest
  have hsays : Says ((statusText newer status rest).drop (0 + 9)) status := by
    rw [Nat.zero_add, statusText_drop]
    exact says_code h rest
  cases newer with
  | true =>
    have hstart := hversion
    simp only [versionText, if_true] at hstart
    simp only [true_or, iff_true]
    refine (parseStatus_eq_ok (i := 0) ?_ status).mpr hsays
    rw [hstart, Option.some_or]
  | false =>
    have hstart := hversion
    simp only [versionText, Bool.false_eq_true, if_false] at hstart
    simp only [Bool.false_eq_true, false_or]
    cases hnew : findFrom (text "HTTP/1.1 ") (statusText false status rest) 0 with
    | none =>
      have hread := (parseStatus_eq_ok (by rw [hnew, hstart, Option.none_or]) status).mpr hsays
      exact ⟨fun _ i hi => absurd hi.symm (Option.some_ne_none i), fun _ => hread⟩
    | some i =>
      rw [parseStatus_eq_ok (i := i) (by rw [hnew, Option.some_or]) status]
      exact ⟨fun hs j hj => Option.some.inj hj ▸ hs, fun hs => hs i rfl⟩

/-- A message of the server starts like this, in the older version. -/
theorem toBytes_statusText {status : Status} (h : status.Listed) :
    status.toBytes = statusText false status (status.toBytes.drop 13) := by
  cases status with
  | other code => exact absurd rfl (h code)
  | _ => decide +kernel

theorem build_statusText {fs : FileSystem} {chunked : Bool} {res : Response} {message : Bytes}
    (h : res.status.Listed) (hbuild : (res.build fs chunked).2 = some message) :
    ∃ rest, message = statusText false res.status rest := by
  by_cases hcontent : res.content = []
  · rw [Response.build, if_pos hcontent] at hbuild
    cases hbuild
  · rw [Response.build_eq hcontent] at hbuild
    rw [← Option.some.inj hbuild, toBytes_statusText h]
    simp only [statusText, List.append_assoc, List.cons_append]
    exact ⟨_, rfl⟩

/-- **The status is read from the status line** of every `HTTP/1.1` response, and of an
`HTTP/1.0` response, which all of the server's are, exactly where the first `HTTP/1.1 ` of
the whole message, if there is one, has the same status behind it. -/
theorem parseStatus_line_iff {status : Status} (h : status.Listed) :
    (∀ (newer : Bool) (rest : Bytes),
      parseStatus (statusText newer status rest) = .ok status ↔
        newer = true ∨ ∀ i, findFrom (text "HTTP/1.1 ") (statusText newer status rest) 0 = some i →
          Says ((statusText newer status rest).drop (i + 9)) status) ∧
    ∀ (fs : FileSystem) (chunked : Bool) (res : Response) (message : Bytes), res.status = status →
      (res.build fs chunked).2 = some message →
      (parseStatus message = .ok status ↔
        ∀ i, findFrom (text "HTTP/1.1 ") message 0 = some i →
          Says (message.drop (i + 9)) status) := by
  refine ⟨fun newer rest => parseStatus_line h rest, ?_⟩
  intro fs chunked res message hstatus hbuild
  rw [← hstatus] at h ⊢
  obtain ⟨rest, hrest⟩ := build_statusText h hbuild
  rw [hrest, parseStatus_line h rest]
  simp only [Bool.false_eq_true, false_or]

theorem parseStatus_line_iff_found :
    parseStatus (statusText false .notFound (text "Not Found\r\n\r\nno page")) = .ok .notFound ↔
      false = true ∨ ∀ i, findFrom (text "HTTP/1.1 ")
          (statusText false .notFound (text "Not Found\r\n\r\nno page")) 0 = some i →
        Says ((statusText false .notFound (text "Not Found\r\n\r\nno page")).drop (i + 9))
          .notFound :=
  (parseStatus_line_iff fun code hcode => by cases hcode).1 false _

/-- Content that speaks of `HTTP/1.1` is read as the status, or ends the call. -/
theorem parseStatus_misled :
    ¬ (∀ (newer : Bool) (status : Status) (rest : Bytes), status.Listed →
      parseStatus (statusText newer status rest) = .ok status) ∧
    parseStatus (text "HTTP/1.0 200 OK\r\n\r\nHTTP/1.1 404 Not Found") = .ok .notFound ∧
    parseStatus (text "HTTP/1.0 404 Not Found\r\n\r\nuse HTTP/1.1 here instead") =
      .error (.thrown .invalidArgument) := by
  refine ⟨fun h => ?_, by decide +kernel, by decide +kernel⟩
  have hread := h false .ok (text "OK\r\n\r\nHTTP/1.1 404 Not Found")
    fun code hcode => by cases hcode
  revert hread
  decide +kernel

end Client
end HttpServer
