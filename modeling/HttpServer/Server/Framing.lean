import HttpServer.Request.Total
import HttpServer.Response.Message
import HttpServer.Server.Route

/-! The length of an answer.

Handlers write a response one thing at a time (`Write`), and no such thing touches its
headers. So the length in an answer is the one `build` counts, except where a file answers:
there it is the file's, set before the post-routing handler writes and after the
pre-routing handler did. The two agree exactly where both leave the length of the content
alone (`handleRoute_framed_iff`). -/
namespace HttpServer
open Lib Utils Response

/-! ### What handlers write -/

/-- One use of `<<` or of `setContent`. -/
inductive Write where
  | append (content : Bytes)
  | setType (type : ContentType)
  | setStatus (status : Status)
  | setContent (type : ContentType) (status : Status) (content : Bytes)

namespace Write

def apply (res : Response) : Write → Response
  | append content => res.append content
  | setType type => {res with contentType := type}
  | setStatus status => {res with status := status}
  | setContent type status content => res.setContent type status content

def applyAll (res : Response) (writes : List Write) : Response := writes.foldl apply res

/-- What is appended all in all. -/
def appended : List Write → Bytes
  | [] => []
  | append content :: writes => content ++ appended writes
  | _ :: writes => appended writes

/-- The content from the last `setContent` on, if there is one. -/
def replaced : List Write → Option Bytes
  | [] => none
  | setContent _ _ content :: writes => some ((replaced writes).getD (content ++ appended writes))
  | _ :: writes => replaced writes

/-- The type afterwards. -/
def typeAfter (before : ContentType) : List Write → ContentType
  | [] => before
  | setType after :: writes => typeAfter after writes
  | setContent after _ _ :: writes => typeAfter after writes
  | _ :: writes => typeAfter before writes

/-- What no single write changes stays. -/
theorem applyAll_keeps {β : Type} (f : Response → β) (h : ∀ res w, f (apply res w) = f res)
    (res : Response) (writes : List Write) : f (applyAll res writes) = f res := by
  induction writes generalizing res with
  | nil => rfl
  | cons w writes ih =>
    show f (applyAll (apply res w) writes) = f res
    rw [ih, h]

theorem applyAll_headers (res : Response) (writes : List Write) :
    (applyAll res writes).headers = res.headers := by
  apply applyAll_keeps Response.headers
  intro res w
  cases w <;> rfl

theorem applyAll_staticDirectory (res : Response) (writes : List Write) :
    (applyAll res writes).staticDirectory = res.staticDirectory := by
  apply applyAll_keeps Response.staticDirectory
  intro res w
  cases w <;> rfl

theorem applyAll_contentType (res : Response) (writes : List Write) :
    (applyAll res writes).contentType = typeAfter res.contentType writes := by
  induction writes generalizing res with
  | nil => rfl
  | cons w writes ih =>
    show (applyAll (apply res w) writes).contentType = _
    rw [ih]
    cases w <;> rfl

theorem applyAll_content (res : Response) (writes : List Write) :
    (applyAll res writes).content =
      (replaced writes).getD (res.content ++ appended writes) := by
  induction writes generalizing res with
  | nil => exact (List.append_nil _).symm
  | cons w writes ih =>
    show (applyAll (apply res w) writes).content = _
    rw [ih]
    cases w with
    | append content =>
      show (replaced writes).getD ((res.content ++ content) ++ appended writes) = _
      rw [List.append_assoc]
      rfl
    | setType type => rfl
    | setStatus status => rfl
    | setContent type status content => rfl

end Write

variable {W : Type}

/-- A handler that only writes, depending on all it can look at. -/
structure WritingHandler (W : Type) where
  writes : W → Request → Response → List Write
  /-- The descriptors it closes. -/
  closed : W → Request → Response → List Int

def WritingHandler.toHandler (w : WritingHandler W) : RequestHandler W :=
  fun world req res => (Write.applyAll res (w.writes world req res), w.closed world req res)

/-- A server all of whose handlers only write, with default headers of one line each, none
of which is a length. -/
structure WritingServer (W : Type) where
  server : Server W
  pre : Option (WritingHandler W)
  post : Option (WritingHandler W)
  pre_eq : server.preRoutingHandler = pre.map (·.toHandler)
  post_eq : server.postRoutingHandler = post.map (·.toHandler)
  route : ∀ req handler, (server.router.matchRequest req).2 = some handler →
    ∃ w : WritingHandler W, handler = w.toHandler
  tidy : ∀ e ∈ server.defaultHeaders, Tidy e
  no_length : ∀ e ∈ server.defaultHeaders, e.1 ≠ text "Content-Length"

/-- What a hook writes, if there is one. -/
def hookWrites (hook : Option (WritingHandler W)) (world : W) (req : Request) (res : Response) :
    List Write :=
  match hook with
  | none => []
  | some w => w.writes world req res

theorem callHandler_writes (hook : Option (WritingHandler W)) (world : W) (req : Request)
    (res : Response) :
    (Server.callHandler (hook.map (·.toHandler)) world req res).1 =
      Write.applyAll res (hookWrites hook world req res) := by
  cases hook <;> rfl

/-! ### Headers on the way -/

/-- Headers a message can be made of, and the length among them, if there is one. -/
structure Ready (length : Option Bytes) (headers : List (Bytes × Bytes)) : Prop where
  headed : Headed headers
  tidy : ∀ e ∈ headers, Tidy e
  length_eq : headers.lookup (text "Content-Length") = length

theorem mem_setHeader {res : Response} {key val : Bytes} {e : Bytes × Bytes}
    (h : e ∈ (res.setHeader key val).headers) : e = (key, val) ∨ e ∈ res.headers := by
  have hset : e ∈ setEntry key val res.headers := h
  rw [setEntry_eq] at hset
  exact SortedMap.eq_or_mem_of_mem_set hset

theorem Ready.setHeader {length : Option Bytes} {res : Response} (h : Ready length res.headers)
    {key val : Bytes} (htidy : Tidy (key, val)) (hkey : key ≠ text "Content-Length") :
    Ready length (res.setHeader key val).headers where
  headed := h.headed.setHeader key val
  tidy := by
    intro e he
    rcases mem_setHeader he with rfl | he
    · exact htidy
    · exact h.tidy e he
  length_eq := by
    rw [lookup_setHeader, if_neg (Ne.symm hkey), h.length_eq]

theorem Ready.setHeader_if {length : Option Bytes} {res : Response}
    (h : Ready length res.headers) {p : Prop} [Decidable p] {key val : Bytes}
    (htidy : Tidy (key, val)) (hkey : key ≠ text "Content-Length") :
    Ready length (if p then res.setHeader key val else res).headers := by
  split
  · exact h.setHeader htidy hkey
  · exact h

theorem Ready.setLength {length : Option Bytes} {res : Response} (h : Ready length res.headers)
    (n : Nat) :
    Ready (some (toDecimal n)) (res.setHeader (text "Content-Length") (toDecimal n)).headers where
  headed := h.headed.setHeader _ _
  tidy := by
    intro e he
    rcases mem_setHeader he with rfl | he
    · exact (portable_length n).toTidy
    · exact h.tidy e he
  length_eq := by
    rw [lookup_setHeader, if_pos rfl]

/-- The response a request starts with. -/
theorem WritingServer.ready_make (s : WritingServer W) (unset : ContentType) (sd : Int) :
    Ready none (Response.make unset s.server.defaultHeaders sd).headers := by
  have hmem : ∀ e ∈ (Response.make unset s.server.defaultHeaders sd).headers,
      e = (text "Connection", text "keep-alive") ∨ e ∈ s.server.defaultHeaders := by
    intro e he
    rw [make_eq] at he
    have hset := (SortedMap.mem_setAll he).resolve_right List.not_mem_nil
    rcases List.mem_append.mp hset with hdefault | hconnection
    · exact .inr hdefault
    · exact .inl (List.mem_singleton.mp hconnection)
  refine ⟨headed_make unset s.server.defaultHeaders sd, fun e he => ?_, ?_⟩
  · rcases hmem e he with rfl | he
    · exact (portable_literal (by decide) (by decide) (by decide) (by decide)).toTidy
    · exact s.tidy e he
  · rw [List.lookup_eq_none_iff]
    intro e he
    rcases hmem e he with rfl | he
    · exact bne_iff_ne.mpr (text_ne (by decide))
    · exact bne_iff_ne.mpr (s.no_length e he).symm

/-! ### The headers of a file -/

/-- Bytes that break no line. -/
def OneLine (b : Bytes) : Prop := ∀ c ∈ b, c ≠ ch '\r' ∧ c ≠ ch '\n'

theorem OneLine.append {a b : Bytes} (ha : OneLine a) (hb : OneLine b) : OneLine (a ++ b) := by
  intro c hc
  rcases List.mem_append.mp hc with hc | hc
  · exact ha c hc
  · exact hb c hc

theorem oneLine_toDecimal (n : Int) : OneLine (toDecimal n) := Request.decimal_no_break n

theorem oneLine_twoDigits (n : Nat) : OneLine (twoDigits n) := by
  unfold twoDigits
  split
  · have hzero : OneLine [ch '0'] := every (by decide)
    exact hzero.append (oneLine_toDecimal n)
  · exact oneLine_toDecimal n

theorem oneLine_getD {names : List String} (h : ∀ name ∈ names, OneLine (text name)) (n : Nat) :
    OneLine (text (names.getD n "")) := by
  rw [List.getD_eq_getElem?_getD]
  cases hn : names[n]? with
  | none => exact nofun
  | some name => exact h name (List.mem_of_getElem? hn)

theorem oneLine_dayNames : ∀ name ∈ dayNames, OneLine (text name) := by
  simp only [dayNames, List.forall_mem_cons]
  and_intros <;> first | exact every_char (by decide) | exact nofun

theorem oneLine_monthNames : ∀ name ∈ monthNames, OneLine (text name) := by
  simp only [monthNames, List.forall_mem_cons]
  and_intros <;> first | exact every_char (by decide) | exact nofun

theorem oneLine_httpDate (mtime : Int) : OneLine (fileMtimeToHttpDate mtime) := by
  have hcomma : OneLine (text ", ") := every_char (by decide)
  have hspace : OneLine (text " ") := every_char (by decide)
  have hcolon : OneLine (text ":") := every_char (by decide)
  have hzone : OneLine (text " GMT") := every_char (by decide)
  unfold fileMtimeToHttpDate
  split
  · exact nofun
  · simp only
    split
    · exact nofun
    · refine OneLine.append (.append (.append (.append (.append (.append (.append (.append
        (.append (.append (.append (.append ?_ hcomma) ?_) hspace) ?_) hspace) ?_) hspace) ?_)
        hcolon) ?_) hcolon) ?_ |>.append hzone
      · exact oneLine_getD oneLine_dayNames _
      · exact oneLine_twoDigits _
      · exact oneLine_getD oneLine_monthNames _
      · exact oneLine_toDecimal _
      · exact oneLine_twoDigits _
      · exact oneLine_twoDigits _
      · exact oneLine_twoDigits _

theorem oneLine_etag (mtime : Int) (size : Nat) : OneLine (computeEtag mtime size) := by
  have hweak : OneLine (text "W/\"") := every_char (by decide)
  have hdash : OneLine (text "-") := every_char (by decide)
  have hquote : OneLine (text "\"") := every_char (by decide)
  unfold computeEtag
  split
  · exact nofun
  · exact (((hweak.append (fromIntToHex_no_break _)).append hdash).append
      (fromIntToHex_no_break _)).append hquote

theorem oneLine_mimeTypes : ∀ e ∈ Request.mimeTypes, OneLine e.2 := by
  simp only [Request.mimeTypes, List.forall_mem_cons]
  and_intros <;> first | exact every_char (by decide) | exact nofun

theorem oneLine_getMimeType (path : Bytes) : OneLine (Request.getMimeType path) := by
  unfold Request.getMimeType
  simp only
  split
  · exact nofun
  · generalize (Request.afterLastDot (path.takeWhile (· ≠ ch '?'))).map Request.toLower = extension
    cases hl : Request.mimeTypes.lookup extension with
    | none => exact nofun
    | some type =>
      obtain ⟨before, after, hsplit, _⟩ := List.lookup_eq_some_iff.mp hl
      exact oneLine_mimeTypes (extension, type) (by rw [hsplit]; simp)

/-- The type a request has after parsing. -/
theorem oneLine_ofRaw {raw : Bytes} {req : Request} (h : Request.ofRaw raw = .ok req) :
    OneLine req.mimeType := by
  rw [Request.ofRaw_mimeType h]
  exact oneLine_getMimeType req.path

/-- A header of a file's answer. -/
theorem tidy_value {name : List Char} {value : Bytes}
    (hname : (name.all fun c =>
      decide (ch c ≠ ch ':' ∧ ch c ≠ ch '\r' ∧ ch c ≠ ch '\n')) = true)
    (hvalue : OneLine value) : Tidy (text (String.ofList name), value) :=
  ⟨every_char hname, hvalue⟩

theorem ready_fileResponse {length : Option Bytes} {res : Response} (h : Ready length res.headers)
    {mimeType : Bytes} (hmime : OneLine mimeType) (st : FileStat) (file : Bytes) :
    Ready (some (toDecimal file.length)) (Server.fileResponse mimeType st file res).headers := by
  have htype : Tidy (text "Content-Type", mimeType) := tidy_value (by decide) hmime
  have hcache : Tidy (text "Cache-Control", text "public, max-age=3600") :=
    tidy_value (by decide) (every_char (by decide))
  have hdate : Tidy (text "Last-Modified", fileMtimeToHttpDate st.mtime) :=
    tidy_value (by decide) (oneLine_httpDate st.mtime)
  have hetag : Tidy (text "ETag", computeEtag (narrowToInt st.mtime) st.size) :=
    tidy_value (by decide) (oneLine_etag (narrowToInt st.mtime) st.size)
  have hlength := ((h.setHeader htype (text_ne (by decide))).setHeader hcache
    (text_ne (by decide))).setLength file.length
  have hdated := hlength.setHeader_if (p := fileMtimeToHttpDate st.mtime ≠ []) hdate
    (text_ne (by decide))
  have htagged := hdated.setHeader_if (p := computeEtag (narrowToInt st.mtime) st.size ≠ []) hetag
    (text_ne (by decide))
  exact htagged

theorem resolvePath_mimeType {s : Server W} {fs : FileSystem} {req req' : Request} {path : Bytes}
    (h : s.resolvePath fs req = .ok (req', path)) (hreq : OneLine req.mimeType) :
    OneLine req'.mimeType := by
  unfold Server.resolvePath at h
  simp only at h
  split at h
  · split at h
    · cases h
    · obtain ⟨rfl, _⟩ := Prod.mk.inj (Except.ok.inj h)
      exact every_char (l := "text/html".toList) (by decide)
  · obtain ⟨rfl, _⟩ := Prod.mk.inj (Except.ok.inj h)
    exact hreq

/-! ### The length that was set -/

/-- The content behind the headers of a file is as long as the file: nothing stands before
it and nothing is appended, or what replaces it is as long; and where it is read as the
name of a page, the page is as long. -/
def LengthKept (fs : FileSystem) (directory : Bytes) (type : ContentType) (before file : Bytes)
    (writes : List Write) : Prop :=
  let left := (Write.replaced writes).getD (before ++ file ++ Write.appended writes)
  if Write.typeAfter type writes = .html ∧ text ".html" <:+ left then
    (readFile fs (directory ++ [ch '/'] ++ left)).length = file.length
  else
    match Write.replaced writes with
    | some content => content.length = file.length
    | none => before = [] ∧ Write.appended writes = []

theorem lengthKept_iff (fs : FileSystem) (res : Response) (before file : Bytes)
    (hcontent : res.content = before ++ file) (writes : List Write) :
    LengthKept fs res.staticDirectory res.contentType before file writes ↔
      file.length = ((Write.applyAll res writes).loadContent fs).content.length := by
  unfold LengthKept Response.loadContent
  simp only [Write.applyAll_contentType, Write.applyAll_content, Write.applyAll_staticDirectory,
    hcontent]
  split
  · exact eq_comm
  · cases hw : Write.replaced writes with
    | some content =>
      rw [Write.applyAll_content, hw]
      exact eq_comm
    | none =>
      rw [Write.applyAll_content, hw, hcontent, Option.getD_none]
      simp only [List.length_append]
      constructor
      · intro ⟨hbefore, happended⟩
        rw [hbefore, happended]
        simp
      · intro h
        exact ⟨List.length_eq_zero_iff.mp (by omega), List.length_eq_zero_iff.mp (by omega)⟩

/-- What `performRequest` routes: a fresh response that the pre-routing handler has
written. -/
def WritingServer.received (s : WritingServer W) (env : Env W) (sd : Int) (req : Request) :
    Response :=
  (Server.callHandler s.server.preRoutingHandler env.world req
    (Response.make env.unset s.server.defaultHeaders sd)).1

theorem WritingServer.ready_received (s : WritingServer W) (env : Env W) (sd : Int)
    (req : Request) : Ready none (s.received env sd req).headers := by
  unfold received
  rw [s.pre_eq, callHandler_writes, Write.applyAll_headers]
  exact s.ready_make env.unset sd

/-- After the post-routing handler has written, a message is framed exactly where the length
among its headers, if there is one, is the length of what it left. -/
theorem framed_posted_iff {fs : FileSystem} {res : Response} {length : Option Bytes}
    (h : Ready length res.headers) (writes : List Write) {message : Bytes}
    (hbuild : ((Write.applyAll res writes).build fs false).2 = some message) :
    Framed message ↔ ∀ n, length = some n →
      decimalValue n = ((Write.applyAll res writes).loadContent fs).content.length := by
  rw [framed_build_iff ?_ ?_ hbuild, Write.applyAll_headers, h.length_eq]
  · rw [Write.applyAll_headers]
    exact h.headed
  · rw [Write.applyAll_headers]
    exact h.tidy

/-- A file's answer comes with a type of one line. -/
theorem Served.fileResponse {s : Server W} {fs : FileSystem} {req req' : Request}
    {res res' : Response} {file : Bytes} (h : Served s fs req res file req' res')
    (hreq : OneLine req.mimeType) :
    ∃ mimeType st, OneLine mimeType ∧
      res' = Server.fileResponse mimeType st file (res.setStaticDirectory s.staticDirectory) := by
  obtain ⟨path, st, mimeType, hpath, _, _, hmime, hres⟩ := h.found
  refine ⟨mimeType, st, ?_, hres⟩
  have hresolved : OneLine req'.mimeType := by
    apply resolvePath_mimeType hpath
    rw [s.router.matchRequest_frame req]
    exact hreq
  unfold Request.mimeType? at hmime
  split at hmime
  · cases hmime
  · rwa [← Option.some.inj hmime]

/-- With a file, a message is framed exactly where its length is kept. -/
theorem Served.framed_iff {s : Server W} {fs : FileSystem} {req req' : Request}
    {res res' : Response} {file : Bytes} (h : Served s fs req res file req' res')
    (hreq : OneLine req.mimeType) (hready : Ready none res.headers) (writes : List Write)
    {message : Bytes} (hbuild : ((Write.applyAll res' writes).build fs false).2 = some message) :
    Framed message ↔
      LengthKept fs s.staticDirectory res.contentType res.content file writes := by
  obtain ⟨mimeType, st, hline, hres⟩ := h.fileResponse hreq
  have hstart : Ready none (res.setStaticDirectory s.staticDirectory).headers := hready
  have hkept : Ready (some (toDecimal file.length)) res'.headers := by
    rw [hres]
    exact ready_fileResponse hstart hline st file
  obtain ⟨hcontent, htype, hdirectory⟩ := fileResponse_fields mimeType st file
    (res.setStaticDirectory s.staticDirectory)
  rw [← hres] at hcontent htype hdirectory
  have hlength := lengthKept_iff fs res' res.content file hcontent writes
  rw [hdirectory, htype] at hlength
  rw [framed_posted_iff hkept writes hbuild]
  constructor
  · intro hdeclared
    have hfile := hdeclared _ rfl
    rw [decimalValue_toDecimal] at hfile
    exact hlength.mpr hfile
  · intro hlengthKept n hn
    rw [← Option.some.inj hn, decimalValue_toDecimal]
    exact hlength.mp hlengthKept

/-- **A message declares its length** exactly where no file answers, or the handlers leave
content as long as the file. -/
theorem handleRoute_framed_iff (s : WritingServer W) (env : Env W) (sd : Int) {raw : Bytes}
    {req : Request} (hreq : Request.ofRaw raw = .ok req) {actions : List Action} {message : Bytes}
    (h : s.server.handleRoute env req (s.received env sd req) = .ok (actions, some message)) :
    Framed message ↔ ∀ file req' res',
      Served s.server env.files req (s.received env sd req) file req' res' →
        LengthKept env.files s.server.staticDirectory (s.received env sd req).contentType
          (s.received env sd req).content file (hookWrites s.post env.world req' res') := by
  have hready : Ready none ((s.received env sd req).setStaticDirectory
      s.server.staticDirectory).headers := s.ready_received env sd req
  obtain ⟨routed, req', res', hhanded, _, hbody⟩ := handleRoute_handed h
  rw [s.post_eq, callHandler_writes] at hbody
  cases hhanded with
  | route handler hhandler =>
    obtain ⟨w, rfl⟩ := s.route _ _ hhandler
    have hkept : Ready none (w.toHandler env.world (s.server.router.matchRequest req).1
        ((s.received env sd req).setStaticDirectory s.server.staticDirectory)).1.headers := by
      show Ready none (Write.applyAll _ _).headers
      rw [Write.applyAll_headers]
      exact hready
    have hframed : Framed message := (framed_posted_iff hkept _ hbody.symm).mpr (fun _ => nofun)
    refine iff_of_true hframed fun file req₁ res₁ hserved => ?_
    rw [hserved.unrouted] at hhandler
    cases hhandler
  | @file file _ _ hserved =>
    rw [hserved.framed_iff (oneLine_ofRaw hreq) (s.ready_received env sd req) _ hbody.symm]
    constructor
    · intro hlengthKept file' req₁ res₁ hserved'
      obtain ⟨rfl, rfl, rfl⟩ := hserved.unique hserved'
      exact hlengthKept
    · intro hall
      exact hall file req' res' hserved
  | nothing hm hnone hres =>
    have hkept : Ready none res'.headers := by
      rcases hres with rfl | rfl
      · exact hready
      · exact hready
    have hframed : Framed message := (framed_posted_iff hkept _ hbody.symm).mpr (fun _ => nofun)
    exact iff_of_true hframed fun file req₁ res₁ hserved => absurd hserved (hnone file req₁ res₁)

/-! ### A hook beside a file -/

/-- The message that answers a request, if there is one. -/
def WritingServer.answer (s : WritingServer W) (env : Env W) (sd : Int) (raw : Bytes) :
    Option Bytes :=
  match Request.ofRaw raw with
  | .error _ => none
  | .ok req =>
    match s.server.handleRoute env req (s.received env sd req) with
    | .error _ => none
    | .ok (_, message) => message

theorem WritingServer.answer_eq {s : WritingServer W} {env : Env W} {sd : Int}
    {raw message : Bytes} (h : s.answer env sd raw = some message) :
    ∃ req actions, Request.ofRaw raw = .ok req ∧
      s.server.handleRoute env req (s.received env sd req) = .ok (actions, some message) := by
  unfold answer at h
  split at h
  · cases h
  · next req hreq =>
    split at h
    · cases h
    · next actions body hroute =>
      rw [h] at hroute
      exact ⟨req, actions, hreq, hroute⟩

/-- A pre-routing handler that says hello. -/
def greeting : WritingServer Unit where
  server :=
    {sockfd := 3, router := Router.empty,
     preRoutingHandler := some fun _ _ res => (res.append (text "hello"), [])}
  pre := some {writes := fun _ _ _ => [.append (text "hello")], closed := fun _ _ _ => []}
  post := none
  pre_eq := rfl
  post_eq := rfl
  route := by
    intro req handler h
    rw [Router.matchRequest_empty] at h
    cases h
  tidy := nofun
  no_length := nofun

/-- One file, of one byte. -/
def oneFile : Env Unit where
  files :=
    {stat := fun path =>
       if path = text "./assets/a.txt" then some {isDir := false, mtime := 0, size := 1} else none
     contents := fun path => if path = text "./assets/a.txt" then some (text "a") else none}
  unset := .plainText
  sent := fun _ => true
  world := ()

theorem answer_greeting : (greeting.answer oneFile 5 (text "GET /a.txt HTTP/1.1\r\n\r\n")).map
    (fun message => (declaredLength message, contentLength message)) = some (some 1, some 6) := by
  decide +kernel

theorem handleRoute_framed_iff_greeting : ∃ req actions message,
    Request.ofRaw (text "GET /a.txt HTTP/1.1\r\n\r\n") = .ok req ∧
      greeting.server.handleRoute oneFile req (greeting.received oneFile 5 req) =
        .ok (actions, some message) ∧
      (Framed message ↔ ∀ file req' res',
        Served greeting.server oneFile.files req (greeting.received oneFile 5 req) file req' res' →
          LengthKept oneFile.files greeting.server.staticDirectory
            (greeting.received oneFile 5 req).contentType (greeting.received oneFile 5 req).content
            file (hookWrites greeting.post oneFile.world req' res')) := by
  obtain ⟨message, hmessage, _⟩ := Option.map_eq_some_iff.mp answer_greeting
  obtain ⟨req, actions, hreq, hroute⟩ := WritingServer.answer_eq hmessage
  exact ⟨req, actions, message, hreq, hroute, handleRoute_framed_iff greeting oneFile 5 hreq hroute⟩

/-- A message that declares one byte and has six. -/
theorem greeting_not_framed : ¬ ∀ (s : WritingServer Unit) (env : Env Unit) (sd : Int)
    (raw : Bytes) (req : Request) (actions : List Action) (message : Bytes),
    Request.ofRaw raw = .ok req →
      s.server.handleRoute env req (s.received env sd req) = .ok (actions, some message) →
        Framed message := by
  intro h
  obtain ⟨message, hmessage, hlengths⟩ := Option.map_eq_some_iff.mp answer_greeting
  obtain ⟨req, actions, hreq, hroute⟩ := WritingServer.answer_eq hmessage
  obtain ⟨n, hdeclared, hlength⟩ := h greeting oneFile 5 _ req actions message hreq hroute
  obtain ⟨hone, hsix⟩ := Prod.mk.inj hlengths
  rw [hdeclared] at hone
  rw [hlength, hone] at hsix
  cases hsix

end HttpServer
