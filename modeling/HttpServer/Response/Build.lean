import HttpServer.Lib.SortedMap
import HttpServer.Response

/-! What every response has, and what `build` makes of it.

A response comes from a constructor and is changed through its methods alone (`Made`), so
that its headers are in order and a `Connection` is always among them. `build` adds
headers where they are missing and writes the status line, the headers and the content. -/
namespace HttpServer.Response
open Lib Utils

/-! ### Storing headers -/

/-- The order of a `std::map` from strings. -/
abbrev Before (a b : Bytes) : Prop := a < b

theorem before_strict : SortedMap.Strict Before where
  irrefl := fun a => List.lt_irrefl a
  trans := fun _ _ _ h h' => List.lt_trans h h'
  total := fun _ _ hne h => Std.lt_of_le_of_ne h (Ne.symm hne)

theorem setEntry_eq (key val : Bytes) (headers : List (Bytes × Bytes)) :
    setEntry key val headers = SortedMap.set Before key val headers := by
  induction headers with
  | nil => rfl
  | cons e headers ih =>
    obtain ⟨k, v⟩ := e
    rw [setEntry, SortedMap.set, ih]

/-- Headers stored one after the other. -/
def setHeaders (res : Response) (headers : List (Bytes × Bytes)) : Response :=
  headers.foldl (fun res header => res.setHeader header.1 header.2) res

theorem setHeaders_eq (res : Response) (headers : List (Bytes × Bytes)) :
    res.setHeaders headers =
      {res with headers := SortedMap.setAll Before res.headers headers} := by
  induction headers generalizing res with
  | nil => rfl
  | cons e headers ih =>
    have hset : res.setHeader e.1 e.2 =
        {res with headers := SortedMap.set Before e.1 e.2 res.headers} := by
      rw [setHeader, setEntry_eq]
    show (res.setHeader e.1 e.2).setHeaders headers = _
    rw [ih, hset]
    rfl

/-- The constructor stores headers and nothing else. -/
theorem make_eq (unset : ContentType) (defaultHeaders : List (Bytes × Bytes)) (sockfd : Int) :
    make unset defaultHeaders sockfd =
      {contentType := unset, sockfd := sockfd
       headers := SortedMap.setAll Before []
        (defaultHeaders ++ [(text "Connection", text "keep-alive")])} := by
  have hheaders : make unset defaultHeaders sockfd =
      setHeaders {contentType := unset, sockfd := sockfd}
        (defaultHeaders ++ [(text "Connection", text "keep-alive")]) := by
    unfold make setHeaders
    rw [List.foldl_append]
    rfl
  rw [hheaders, setHeaders_eq]

theorem lookup_setHeader (res : Response) (key val k : Bytes) :
    (res.setHeader key val).headers.lookup k =
      if k = key then some val else res.headers.lookup k := by
  show (setEntry key val res.headers).lookup k = _
  rw [setEntry_eq, SortedMap.lookup_set]

/-! ### What `build` adds -/

/-- The type of the content, and what goes with an event stream. -/
def typeHeaders (res : Response) : List (Bytes × Bytes) :=
  if (res.headers.lookup (text "Content-Type")).isNone then
    (text "Content-Type", res.contentType.toBytes) ::
      (if res.contentType = .sse then [(text "Cache-Control", text "no-cache")] else [])
  else []

/-- The length of content that is sent in one piece. -/
def lengthHeaders (chunked : Bool) (res : Response) : List (Bytes × Bytes) :=
  if !chunked && (res.headers.lookup (text "Content-Length")).isNone then
    [(text "Content-Length", toDecimal res.content.length)]
  else []

theorem lookup_typeHeaders (res : Response) {k : Bytes} (htype : k ≠ text "Content-Type")
    (hcache : k ≠ text "Cache-Control") :
    (res.setHeaders res.typeHeaders).headers.lookup k = res.headers.lookup k := by
  unfold typeHeaders
  split
  · split
    · show ((res.setHeader _ _).setHeader _ _).headers.lookup k = _
      rw [lookup_setHeader, if_neg hcache, lookup_setHeader, if_neg htype]
    · show (res.setHeader _ _).headers.lookup k = _
      rw [lookup_setHeader, if_neg htype]
  · rfl

theorem addHeaders_eq (chunked : Bool) (res : Response) :
    res.addHeaders chunked =
      (res.setHeaders res.typeHeaders).setHeaders (lengthHeaders chunked res) := by
  have htype : (if (res.headers.lookup (text "Content-Type")).isNone then
      if (res.setHeader (text "Content-Type") res.contentType.toBytes).contentType = .sse then
        (res.setHeader (text "Content-Type") res.contentType.toBytes).setHeader
          (text "Cache-Control") (text "no-cache")
      else res.setHeader (text "Content-Type") res.contentType.toBytes
    else res) = res.setHeaders res.typeHeaders := by
    unfold typeHeaders
    split
    · show (if res.contentType = .sse then _ else _) = _
      split <;> rfl
    · rfl
  have hlength := lookup_typeHeaders res (k := text "Content-Length") (by decide) (by decide)
  have hcontent : (res.setHeaders res.typeHeaders).content = res.content := by
    rw [setHeaders_eq]
  unfold addHeaders
  simp only
  rw [htype, hlength, hcontent]
  unfold lengthHeaders
  split <;> rfl

theorem addHeaders_content (chunked : Bool) (res : Response) :
    (res.addHeaders chunked).content = res.content := by
  rw [addHeaders_eq, setHeaders_eq, setHeaders_eq]

/-- A length that was set stays, and one is set where there was none. -/
theorem addHeaders_length (res : Response) :
    (res.addHeaders false).headers.lookup (text "Content-Length") =
      some ((res.headers.lookup (text "Content-Length")).getD (toDecimal res.content.length)) := by
  have hlength := lookup_typeHeaders res (k := text "Content-Length") (by decide) (by decide)
  rw [addHeaders_eq]
  unfold lengthHeaders
  cases hl : res.headers.lookup (text "Content-Length") with
  | none =>
    show ((res.setHeaders res.typeHeaders).setHeader _ _).headers.lookup _ = _
    rw [lookup_setHeader, if_pos rfl]
    rfl
  | some length =>
    show (res.setHeaders res.typeHeaders).headers.lookup _ = _
    rw [hlength, hl]
    rfl

/-- A header after `build` was there before or is one that it adds. -/
theorem mem_addHeaders {chunked : Bool} {res : Response} {e : Bytes × Bytes}
    (h : e ∈ (res.addHeaders chunked).headers) : e ∈ res.headers ∨
      e = (text "Content-Type", res.contentType.toBytes) ∨
      e = (text "Cache-Control", text "no-cache") ∨
      e = (text "Content-Length", toDecimal res.content.length) := by
  rw [addHeaders_eq, setHeaders_eq, setHeaders_eq] at h
  rcases SortedMap.mem_setAll h with h | h
  · unfold lengthHeaders at h
    split at h
    · exact .inr (.inr (.inr (List.mem_singleton.mp h)))
    · cases h
  · rcases SortedMap.mem_setAll h with h | h
    · unfold typeHeaders at h
      split at h
      · rcases List.mem_cons.mp h with h | h
        · exact .inr (.inl h)
        · split at h
          · exact .inr (.inr (.inl (List.mem_singleton.mp h)))
          · cases h
      · cases h
    · exact .inl h

theorem loadContent_headers (fs : FileSystem) (res : Response) :
    (res.loadContent fs).headers = res.headers := by
  unfold loadContent
  split <;> rfl

/-! ### Every response -/

/-- What the constructors return and the methods keep: the default constructor is the
other one without headers. -/
inductive Made : Response → Prop where
  | make (unset : ContentType) (defaultHeaders : List (Bytes × Bytes)) (sockfd : Int) :
    Made (Response.make unset defaultHeaders sockfd)
  | setHeader {res : Response} (key val : Bytes) : Made res → Made (res.setHeader key val)
  | setContent {res : Response} (type : ContentType) (status : Status) (content : Bytes) :
    Made res → Made (res.setContent type status content)
  | setContentType {res : Response} (type : ContentType) :
    Made res → Made {res with contentType := type}
  | setStatus {res : Response} (status : Status) : Made res → Made {res with status := status}
  | append {res : Response} (content : Bytes) : Made res → Made (res.append content)
  | setStaticDirectory {res : Response} (directory : Bytes) :
    Made res → Made (res.setStaticDirectory directory)
  | build {res : Response} (fs : FileSystem) (chunked : Bool) :
    Made res → Made (res.build fs chunked).1
  | stream {res : Response} (fs : FileSystem) (content : Bytes) : Made res →
    Made (Response.build fs true {res with content := content, contentType := .sse}).1

/-- The headers are in order, and `Connection` is one of them. -/
structure Headed (headers : List (Bytes × Bytes)) : Prop where
  sorted : SortedMap.Sorted Before headers
  connection : headers.lookup (text "Connection") ≠ none

theorem Headed.setHeader {res : Response} (h : Headed res.headers) (key val : Bytes) :
    Headed (res.setHeader key val).headers where
  sorted := by
    show SortedMap.Sorted Before (setEntry key val res.headers)
    rw [setEntry_eq]
    exact h.sorted.set before_strict key val
  connection := by
    rw [lookup_setHeader]
    split
    · exact nofun
    · exact h.connection

theorem Headed.setHeaders {res : Response} (h : Headed res.headers)
    (headers : List (Bytes × Bytes)) : Headed (res.setHeaders headers).headers := by
  induction headers generalizing res with
  | nil => exact h
  | cons e headers ih => exact ih (h.setHeader e.1 e.2)

theorem Headed.build {res : Response} (h : Headed res.headers) (fs : FileSystem)
    (chunked : Bool) : Headed (res.build fs chunked).1.headers := by
  unfold Response.build
  split
  · exact h
  · show Headed ((res.loadContent fs).addHeaders chunked).headers
    rw [addHeaders_eq]
    rw [← loadContent_headers fs] at h
    exact (h.setHeaders _).setHeaders _

theorem headed_make (unset : ContentType) (defaultHeaders : List (Bytes × Bytes))
    (sockfd : Int) : Headed (Response.make unset defaultHeaders sockfd).headers := by
  have hsorted : SortedMap.Sorted Before
      (setHeaders {contentType := unset, sockfd := sockfd} defaultHeaders).headers := by
    rw [setHeaders_eq]
    exact SortedMap.Sorted.setAll before_strict .nil defaultHeaders
  constructor
  · show SortedMap.Sorted Before (setEntry _ _ (setHeaders _ defaultHeaders).headers)
    rw [setEntry_eq]
    exact hsorted.set before_strict _ _
  · show ((setHeaders _ defaultHeaders).setHeader _ _).headers.lookup _ ≠ none
    rw [lookup_setHeader, if_pos rfl]
    exact nofun

/-- Whatever was done to a response, its headers are in order and `Connection` is set. -/
theorem Made.headed {res : Response} (h : Made res) : Headed res.headers := by
  induction h with
  | make unset defaultHeaders sockfd => exact headed_make unset defaultHeaders sockfd
  | setHeader key val _ ih => exact ih.setHeader key val
  | setContent type status content _ ih => exact ih
  | setContentType type _ ih => exact ih
  | setStatus status _ ih => exact ih
  | append content _ ih => exact ih
  | setStaticDirectory directory _ ih => exact ih
  | build fs chunked _ ih => exact ih.build fs chunked
  | stream fs content _ ih =>
    refine Headed.build ?_ fs true
    exact ih

/-! ### The message -/

/-- The header lines as `build` writes them. -/
def fieldLines (headers : List (Bytes × Bytes)) : Bytes :=
  headers.flatMap fun header => header.1 ++ text ": " ++ header.2 ++ crlf

/-- Content is what there must be for a message, and nothing else is needed. -/
theorem build_eq {res : Response} (h : res.content ≠ []) (fs : FileSystem) (chunked : Bool) :
    res.build fs chunked = ((res.loadContent fs).addHeaders chunked,
      some (res.status.toBytes ++ fieldLines ((res.loadContent fs).addHeaders chunked).headers ++
        crlf ++ (res.loadContent fs).content)) := by
  unfold build
  simp only [if_neg h, addHeaders_content]
  rfl

end HttpServer.Response
