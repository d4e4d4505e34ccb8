import HttpServer.Client.Exchange
import HttpServer.Server.Framing

/-! A file on its way to the client.

What the server sets beside the content is fit for the header of a message, whatever the file and
its state (`fileResponse_portable`), so that a file is read as it is on the server, unless it is
empty or the status is misread (`file_comes_back_iff`). -/
namespace HttpServer
open Lib Lib.Search Utils Client

variable {W : Type}

/-! ### Values in a header -/

/-- Nothing that breaks a line or is taken for a blank behind a value. -/
def Unblank (c : UInt8) : Prop := c ≠ ch '\r' ∧ c ≠ ch '\n' ∧ c ≠ ch '\t'

instance (c : UInt8) : Decidable (Unblank c) :=
  inferInstanceAs (Decidable (c ≠ ch '\r' ∧ c ≠ ch '\n' ∧ c ≠ ch '\t'))

theorem portable_value {name value : Bytes} (hname : Response.Portable (name, []))
    (hbytes : ∀ c ∈ value, Unblank c)
    (hends : ∀ c, value.head? = some c ∨ value.getLast? = some c → c ≠ ch ' ') :
    Response.Portable (name, value) where
  name_bytes := hname.name_bytes
  value_bytes c hc := ⟨(hbytes c hc).1, (hbytes c hc).2.1⟩
  name_ne := hname.name_ne
  name_ends := hname.name_ends
  value_ends c hc :=
    ⟨hends c hc, (hbytes c (hc.elim List.mem_of_mem_head? List.mem_of_mem_getLast?)).2.2⟩

/-- A name of letters. -/
theorem portable_name {name : List Char} (hne : name ≠ [])
    (hname : (name.all fun c =>
      decide (ch c ≠ ch ':' ∧ ch c ≠ ch '\r' ∧ ch c ≠ ch '\n' ∧ ch c ≠ ch ' ' ∧
        ch c ≠ ch '\t')) = true) : Response.Portable (text (String.ofList name), []) :=
  @Response.portable_literal name [] hne hname rfl rfl

/-- Every type of the table. -/
theorem Request.getMimeType_portable {path : Bytes} (h : getMimeType path ≠ []) :
    Response.Portable (text "Content-Type", getMimeType path) := by
  have htable : ∀ e ∈ mimeTypes, Response.Portable (text "Content-Type", e.2) := by
    simp only [mimeTypes, List.forall_mem_cons]
    refine ⟨?_, ?_, ?_, ?_, ?_, ?_, ?_, ?_, ?_, ?_, ?_, ?_, ?_, ?_, ?_, ?_, ?_, ?_, ?_, ?_, ?_⟩
    case refine_21 => exact fun e he => absurd he List.not_mem_nil
    all_goals exact Response.portable_literal (by decide) (by decide) (by decide) (by decide)
  unfold getMimeType at h ⊢
  simp only at h ⊢
  split at h
  · exact absurd rfl h
  · next hext =>
    rw [if_neg hext]
    cases hlookup : mimeTypes.lookup ((afterLastDot (path.takeWhile (· ≠ ch '?'))).map toLower) with
    | none =>
      rw [hlookup] at h
      exact absurd rfl h
    | some type =>
      obtain ⟨l₁, l₂, hsplit, _⟩ := List.lookup_eq_some_iff.mp hlookup
      exact htable (_, type) (hsplit ▸ List.mem_append_right _ (List.mem_cons_self ..))

theorem toDecimal_unblank (n : Nat) : ∀ c ∈ toDecimal n, Unblank c := fun c hc =>
  ⟨toDecimal_ne hc (by decide), toDecimal_ne hc (by decide), toDecimal_ne hc (by decide)⟩

theorem fromIntToHex_unblank (n : UInt64) : ∀ c ∈ fromIntToHex n, Unblank c := by
  have hcharset : ∀ c ∈ hexCharset, Unblank c := every_char (by decide)
  intro c hc
  rcases hexLoop_charset 16 n [] c hc with hc | hc
  · exact hcharset c hc
  · cases hc

/-- A tag starts with a letter and ends in a quote. -/
theorem computeEtag_portable (mtime : Int) (size : Nat) :
    Response.Portable (text "ETag", computeEtag mtime size) := by
  have hname : Response.Portable (text "ETag", []) := portable_name (by decide) (by decide)
  have hfirst : ∀ c ∈ text "W/\"", Unblank c := every_char (by decide)
  have hdash : ∀ c ∈ text "-", Unblank c := every_char (by decide)
  have hlast : ∀ c ∈ text "\"", Unblank c := every_char (by decide)
  unfold computeEtag
  split
  · exact hname
  · refine portable_value hname ?_ ?_
    · simp only [List.forall_mem_append]
      exact ⟨⟨⟨⟨hfirst, fromIntToHex_unblank _⟩, hdash⟩, fromIntToHex_unblank _⟩, hlast⟩
    · rintro c (hc | hc)
      · simp only [List.append_assoc] at hc
        rw [← Option.some.inj hc]
        decide
      · rw [show text "\"" = [ch '"'] from text_ofList _, List.getLast?_concat] at hc
        rw [← Option.some.inj hc]
        decide

theorem twoDigits_unblank (n : Nat) : ∀ c ∈ twoDigits n, Unblank c := by
  unfold twoDigits
  split
  · exact List.forall_mem_cons.mpr ⟨by decide, toDecimal_unblank n⟩
  · exact toDecimal_unblank n

/-- What holds of the bytes of all names holds of those of one of them. -/
theorem getD_every {p : UInt8 → Prop} [DecidablePred p] {names : List String}
    (h : (names.all fun name => (text name).all fun c => decide (p c)) = true) (n : Nat) :
    ∀ c ∈ text (names.getD n ""), p c := by
  intro c hc
  rw [List.getD_eq_getElem?_getD] at hc
  cases hn : names[n]? with
  | none =>
    rw [hn] at hc
    exact absurd hc List.not_mem_nil
  | some name =>
    rw [hn] at hc
    have hname := List.all_eq_true.mp h name (List.mem_of_getElem? hn)
    exact of_decide_eq_true (List.all_eq_true.mp hname c hc)

/-- A date starts with a letter, or the comma behind the day, and ends in `GMT`. -/
theorem fileMtimeToHttpDate_portable (mtime : Int) :
    Response.Portable (text "Last-Modified", fileMtimeToHttpDate mtime) := by
  have hname : Response.Portable (text "Last-Modified", []) :=
    portable_name (by decide) (by decide)
  have hday : ∀ n, ∀ c ∈ text (dayNames.getD n ""), Unblank c ∧ c ≠ ch ' ' :=
    getD_every (by decide)
  have hmonth : ∀ n, ∀ c ∈ text (monthNames.getD n ""), Unblank c := getD_every (by decide)
  have hcomma : ∀ c ∈ text ", ", Unblank c := every_char (by decide)
  have hspace : ∀ c ∈ text " ", Unblank c := every_char (by decide)
  have hcolon : ∀ c ∈ text ":", Unblank c := every_char (by decide)
  have hzone : ∀ c ∈ text " GMT", Unblank c := every_char (by decide)
  unfold fileMtimeToHttpDate
  split
  · exact hname
  · simp only
    split
    · exact hname
    · refine portable_value hname ?_ ?_
      · simp only [List.forall_mem_append, and_assoc]
        exact ⟨fun c hc => (hday _ c hc).1, hcomma, twoDigits_unblank _, hspace, hmonth _, hspace,
          toDecimal_unblank _, hspace, twoDigits_unblank _, hcolon, twoDigits_unblank _, hcolon,
          twoDigits_unblank _, hzone⟩
      · rintro c (hc | hc)
        · simp only [List.append_assoc] at hc
          generalize mtime.toNat / 86400 + 4 = day at hc
          cases hfirst : text (dayNames.getD (day % 7) "") with
          | nil =>
            rw [hfirst, List.nil_append] at hc
            rw [← Option.some.inj hc]
            decide
          | cons d rest =>
            rw [hfirst] at hc
            have hd := (hday (day % 7) d (hfirst ▸ List.mem_cons_self ..)).2
            rwa [← Option.some.inj hc]
        · have hlast : text " GMT" = text " GM" ++ [ch 'T'] := by
            rw [text_ofList, text_ofList]
            rfl
          rw [hlast, ← List.append_assoc, List.getLast?_concat] at hc
          rw [← Option.some.inj hc]
          decide

/-! ### What the server sets -/

namespace Response

theorem lookup_setHeaders_isSome (res : Response) (headers : List (Bytes × Bytes)) (k : Bytes) :
    ((res.setHeaders headers).headers.lookup k).isSome ↔
      k ∈ headers.map Prod.fst ∨ (res.headers.lookup k).isSome := by
  induction headers generalizing res with
  | nil => simp [setHeaders]
  | cons e headers ih =>
    show (((res.setHeader e.1 e.2).setHeaders headers).headers.lookup k).isSome ↔ _
    rw [ih, lookup_setHeader, List.map_cons, List.mem_cons]
    by_cases hk : k = e.1
    · simp [hk]
    · simp [hk]

theorem mem_setHeaders {res : Response} {headers : List (Bytes × Bytes)} {e : Bytes × Bytes}
    (h : e ∈ (res.setHeaders headers).headers) : e ∈ headers ∨ e ∈ res.headers := by
  rw [setHeaders_eq] at h
  exact SortedMap.mem_setAll h

theorem make_setHeaders (unset : ContentType) (defaultHeaders : List (Bytes × Bytes))
    (sockfd : Int) : make unset defaultHeaders sockfd =
      setHeaders {contentType := unset, sockfd := sockfd}
        (defaultHeaders ++ [(text "Connection", text "keep-alive")]) := by
  rw [make_eq, setHeaders_eq]

/-- Nothing is added where the type and the length are there. -/
theorem addHeaders_self {res : Response} (htype : (res.headers.lookup (text "Content-Type")).isSome)
    (hlength : (res.headers.lookup (text "Content-Length")).isSome) :
    res.addHeaders false = res := by
  rw [addHeaders_eq]
  have hnotype : res.typeHeaders = [] := by
    rw [typeHeaders, if_neg (by simpa using htype)]
  have hnolength : lengthHeaders false res = [] := by
    rw [lengthHeaders, if_neg (by simpa using hlength)]
  rw [hnotype, hnolength]
  rfl

end Response

namespace Server

/-- The headers of a file. -/
def fileHeaders (mimeType : Bytes) (st : FileStat) (content : Bytes) : List (Bytes × Bytes) :=
  [(text "Content-Type", mimeType), (text "Cache-Control", text "public, max-age=3600"),
    (text "Content-Length", toDecimal content.length)] ++
  (if fileMtimeToHttpDate st.mtime ≠ [] then
    [(text "Last-Modified", fileMtimeToHttpDate st.mtime)] else []) ++
  (if computeEtag (narrowToInt st.mtime) st.size ≠ [] then
    [(text "ETag", computeEtag (narrowToInt st.mtime) st.size)] else [])

theorem fileResponse_eq (mimeType : Bytes) (st : FileStat) (content : Bytes) (res : Response) :
    fileResponse mimeType st content res =
      (res.setHeaders (fileHeaders mimeType st content)).append content := by
  unfold fileResponse fileHeaders
  simp only
  split <;> split <;> rfl

theorem fileResponse_headers (mimeType : Bytes) (st : FileStat) (content : Bytes)
    (res : Response) : (fileResponse mimeType st content res).headers =
      (res.setHeaders (fileHeaders mimeType st content)).headers := by
  have happend : ∀ r : Response, (r.append content).headers = r.headers := fun _ => rfl
  rw [fileResponse_eq, happend]

/-- Each of them is fit for a message, and none says that the content is coded. -/
theorem mem_fileHeaders {mimeType : Bytes} {st : FileStat} {content : Bytes}
    (htype : Response.Portable (text "Content-Type", mimeType)) {e : Bytes × Bytes}
    (he : e ∈ fileHeaders mimeType st content) :
    Response.Portable e ∧ e.1 ≠ text "Transfer-Encoding" := by
  have hif : ∀ {p : Prop} [Decidable p] {a e : Bytes × Bytes},
      e ∈ (if p then [a] else []) → e = a := by
    intro p _ a e hmem
    split at hmem
    · exact List.mem_singleton.mp hmem
    · cases hmem
  unfold fileHeaders at he
  simp only [List.mem_append, List.mem_cons, List.not_mem_nil, or_false] at he
  rcases he with ((rfl | rfl | rfl) | he) | he
  · exact ⟨htype, text_ne (by decide)⟩
  · exact ⟨Response.portable_literal (by decide) (by decide) (by decide) (by decide),
      text_ne (by decide)⟩
  · exact ⟨Response.portable_length _, text_ne (by decide)⟩
  · rw [hif he]
    exact ⟨fileMtimeToHttpDate_portable _, text_ne (by decide)⟩
  · rw [hif he]
    exact ⟨computeEtag_portable _ _, text_ne (by decide)⟩

/-- A directory's page is of a type of its own. -/
theorem resolvePath_mimeType {s : Server W} {fs : FileSystem} {req req' : Request} {path : Bytes}
    (h : s.resolvePath fs req = .ok (req', path)) :
    req'.mimeType = req.mimeType ∨ req'.mimeType = text "text/html" := by
  unfold resolvePath at h
  simp only at h
  split at h
  · split at h
    · cases h
    · rw [← (Prod.mk.inj (Except.ok.inj h)).1]
      exact .inr rfl
  · rw [← (Prod.mk.inj (Except.ok.inj h)).1]
    exact .inl rfl

/-- Where there are no hooks a file is all of the answer. -/
theorem answered_served {s : Server W} (hpre : s.preRoutingHandler = none)
    (hpost : s.postRoutingHandler = none) {env : Env W} {sd : Int} {req req' : Request}
    {res : Response} {file : Bytes}
    (h : HttpServer.Served s env.files req (Response.make env.unset s.defaultHeaders sd) file req'
      res) : s.answered env sd req = .ok res := by
  obtain ⟨hunrouted, hmethod, path, st, mimeType, hpath, hst, hfile, hmime, rfl⟩ := h
  have hframe := s.router.matchRequest_frame req
  unfold answered
  cases hmatch : s.router.matchRequest req with
  | mk routed handler =>
    rw [hmatch] at hunrouted hpath hframe
    have hread : routed.method = text "GET" ∨ routed.method = text "HEAD" := by
      rw [show routed = _ from hframe]
      exact hmethod
    simp only at hunrouted hpath
    simp only [hunrouted, hpre, hpost, callHandler, if_pos hread, handleStaticResource, hpath, hst,
      hfile, hmime, bind, Except.bind]

theorem served_type {s : Server W} {fs : FileSystem} {raw : Bytes} {req req' : Request}
    {path mimeType : Bytes} (hreq : Request.ofRaw raw = .ok req)
    (hpath : s.resolvePath fs (s.router.matchRequest req).1 = .ok (req', path))
    (hmime : req'.mimeType? = some mimeType) :
    Response.Portable (text "Content-Type", mimeType) := by
  unfold Request.mimeType? at hmime
  split at hmime
  · cases hmime
  · next htype =>
    rw [← Option.some.inj hmime]
    rcases resolvePath_mimeType hpath with heq | heq
    · rw [s.router.matchRequest_frame req] at heq
      have hsame : req'.mimeType = req.mimeType := heq
      have hasked := hsame.trans (Request.ofRaw_mimeType hreq)
      rw [hasked] at htype ⊢
      exact Request.getMimeType_portable htype
    · rw [heq]
      exact Response.portable_literal (by decide) (by decide) (by decide) (by decide)

/-- Every header of a file's response is fit for the message, and the type and the length are
among them. -/
theorem fileResponse_portable {mimeType : Bytes} {st : FileStat} {content : Bytes} {res : Response}
    (htype : Response.Portable (text "Content-Type", mimeType))
    (hres : ∀ e ∈ res.headers, Response.Portable e)
    (hcoding : res.headers.lookup (text "Transfer-Encoding") = none) :
    (∀ e ∈ (fileResponse mimeType st content res).headers, Response.Portable e) ∧
      (fileResponse mimeType st content res).headers.lookup (text "Transfer-Encoding") = none ∧
      (fileResponse mimeType st content res).addHeaders false =
        fileResponse mimeType st content res := by
  have hset : ∀ k, k ∈ (fileHeaders mimeType st content).map Prod.fst →
      ((fileResponse mimeType st content res).headers.lookup k).isSome := by
    intro k hk
    rw [fileResponse_headers, Response.lookup_setHeaders_isSome]
    exact .inl hk
  refine ⟨fun e he => ?_, ?_, Response.addHeaders_self (hset _ ?_) (hset _ ?_)⟩
  · rw [fileResponse_headers] at he
    rcases Response.mem_setHeaders he with he | he
    · exact (mem_fileHeaders htype he).1
    · exact hres e he
  · rw [← Option.not_isSome_iff_eq_none, fileResponse_headers, Response.lookup_setHeaders_isSome,
      hcoding]
    rintro (hmem | hmem)
    · obtain ⟨e, he, hname⟩ := List.mem_map.mp hmem
      exact (mem_fileHeaders htype he).2 hname
    · cases hmem
  · simp [fileHeaders]
  · simp [fileHeaders]

/-- A response with such headers only. -/
theorem make_portable {defaultHeaders : List (Bytes × Bytes)}
    (h : ∀ e ∈ defaultHeaders, Response.Portable e ∧ e.1 ≠ text "Transfer-Encoding")
    (unset : ContentType) (sockfd : Int) :
    (∀ e ∈ (Response.make unset defaultHeaders sockfd).headers, Response.Portable e) ∧
      (Response.make unset defaultHeaders sockfd).headers.lookup (text "Transfer-Encoding") =
        none := by
  have hall : ∀ e ∈ defaultHeaders ++ [(text "Connection", text "keep-alive")],
      Response.Portable e ∧ e.1 ≠ text "Transfer-Encoding" := by
    refine List.forall_mem_append.mpr ⟨h, fun e he => ?_⟩
    rw [List.mem_singleton.mp he]
    exact ⟨Response.portable_literal (by decide) (by decide) (by decide) (by decide),
      text_ne (by decide)⟩
  rw [Response.make_setHeaders]
  refine ⟨fun e he => ?_, ?_⟩
  · rcases Response.mem_setHeaders he with he | he
    · exact (hall e he).1
    · cases he
  · rw [← Option.not_isSome_iff_eq_none, Response.lookup_setHeaders_isSome]
    rintro (hmem | hmem)
    · obtain ⟨e, he, hname⟩ := List.mem_map.mp hmem
      exact (hall e he).2 hname
    · cases hmem

theorem served_empty {s : Server W} {env : Env W} {sd : Int} {req req' : Request} {res : Response}
    {file : Bytes}
    (h : HttpServer.Served s env.files req (Response.make env.unset s.defaultHeaders sd) file req'
      res) (hfile : file = []) : res.content = [] := by
  obtain ⟨path, st, mimeType, _, _, _, _, rfl⟩ := h.found
  rw [(fileResponse_fields ..).1, hfile, List.append_nil, Response.make_eq]
  rfl

/-- A file that is not empty is carried whole. -/
theorem served_carried {s : Server W} {env : Env W} {sd : Int} {raw : Bytes} {req req' : Request}
    {res : Response} {file : Bytes}
    (hheaders : ∀ e ∈ s.defaultHeaders, Response.Portable e ∧ e.1 ≠ text "Transfer-Encoding")
    (hreq : Request.ofRaw raw = .ok req)
    (h : HttpServer.Served s env.files req (Response.make env.unset s.defaultHeaders sd) file req'
      res) (hfile : file ≠ []) (hpage : ¬ (env.unset = .html ∧ text ".html" <:+ file)) :
    res.Carried ∧ res.status = .ok ∧ res.content = file ∧
      (res.build env.files false).1 = res := by
  obtain ⟨path, st, mimeType, hpath, _, _, hmime, rfl⟩ := h.found
  obtain ⟨hmake, hcoding⟩ := make_portable hheaders env.unset sd
  have hmade : Response.Made
      ((Response.make env.unset s.defaultHeaders sd).setStaticDirectory s.staticDirectory) :=
    .setStaticDirectory _ (.make env.unset s.defaultHeaders sd)
  obtain ⟨hportable, hplain, hself⟩ := @fileResponse_portable mimeType st file
    ((Response.make env.unset s.defaultHeaders sd).setStaticDirectory s.staticDirectory)
    (served_type hreq hpath hmime) hmake hcoding
  have hfields : ∃ headers, fileResponse mimeType st file
      ((Response.make env.unset s.defaultHeaders sd).setStaticDirectory s.staticDirectory) =
      {contentType := env.unset, content := file, staticDirectory := s.staticDirectory
       headers := headers, sockfd := sd} := by
    rw [fileResponse_eq, Response.setHeaders_eq, Response.make_eq]
    exact ⟨_, rfl⟩
  have hcarried := fileResponse_made mimeType st file hmade
  obtain ⟨headers, heq⟩ := hfields
  rw [heq] at hportable hplain hself hcarried ⊢
  refine ⟨⟨hcarried, hfile, hpage, hportable, hplain, nofun⟩, rfl, rfl, ?_⟩
  rw [Response.build_eq hfile, Response.loadContent, if_neg hpage]
  exact hself

end Server

/-- A file's request meets no handler. -/
theorem served_proper {s : Server W} (hpre : s.preRoutingHandler = none)
    (hpost : s.postRoutingHandler = none) {fs : FileSystem} {req req' : Request}
    {start res : Response} {file : Bytes} (h : Served s fs req start file req' res) :
    s.Proper req where
  route handler hhandler := by
    rw [h.unrouted] at hhandler
    cases hhandler
  pre handler hhandler := by
    rw [hpre] at hhandler
    cases hhandler
  post handler hhandler := by
    rw [hpost] at hhandler
    cases hhandler

/-- A response without content is not sent, and the client waits for it until its time is over. -/
theorem get_unanswered {s : Server W} {req : Request} (hproper : s.Proper req) (env : Env W)
    (wsRoutes : List (WsRoute W)) (sd : Int) (host : FieldValue) (port : Int) (keepAlive : Bool)
    (path : Token) (unset : ContentType) (unsetFd : Int)
    (hreq : Request.ofRaw (sendRequestText host.val keepAlive (text "GET") path.val) = .ok req)
    {res : Response} (hres : s.answered env sd req = .ok res) (hcontent : res.content = [])
    (hsent : ∀ message, env.sent message = true) {taken : Bytes → List HttpServer.Chunk}
    (htaken : TakenWhole taken (sendRequestText host.val keepAlive (text "GET") path.val))
    {cut : Bytes → List RecvResult} {pieces : Bytes → List Piece} (hcut : HandsOver cut pieces) :
    (BaseClient.get {host := host.val, port := port, keepAlive := keepAlive}
      (serverNetwork s env wsRoutes sd taken cut) unset unsetFd path.val).result =
        .error (.unexpected timedOut) := by
  have hanswer : (serverNetwork s env wsRoutes sd taken cut).answer
      (sendRequestText host.val keepAlive (text "GET") path.val) =
        readResponse (leftOpen (cut ((res.build env.files false).2.getD []))) :=
    serverNetwork_answer hproper wsRoutes .get hreq hres hsent htaken cut
  have hnothing : (res.build env.files false).2 = none := by
    rw [Response.build, if_pos hcontent]
  obtain ⟨hdelivers, hwhole⟩ := hcut []
  have hread := readLoop_leftOpen hdelivers []
  rw [whole_eq_nil hwhole, if_neg (by simp)] at hread
  rw [hnothing, Option.getD_none, readResponse, hread] at hanswer
  show (((serverNetwork s env wsRoutes sd taken cut).answer _).mapError
    ClientError.unexpected).bind (parseResponse unset unsetFd) = _
  rw [hanswer]
  rfl

/-- **A file comes back as it is on the server**, with the headers it was given, exactly if it is
not empty, the pieces in which the message comes fill the buffer up to the last one, which leaves
room in it, and nothing in the message that looks like a newer status line says otherwise. -/
theorem file_comes_back_iff {s : Server W} (hpre : s.preRoutingHandler = none)
    (hpost : s.postRoutingHandler = none)
    (hheaders : ∀ e ∈ s.defaultHeaders, Response.Portable e ∧ e.1 ≠ text "Transfer-Encoding")
    (env : Env W) (wsRoutes : List (WsRoute W)) (sd : Int) (host : FieldValue) (port : Int)
    (keepAlive : Bool) (path : Token) (unset : ContentType) (unsetFd : Int) {req req' : Request}
    (hreq : Request.ofRaw (sendRequestText host.val keepAlive (text "GET") path.val) = .ok req)
    {file : Bytes} {res : Response}
    (hserved : Served s env.files req (Response.make env.unset s.defaultHeaders sd) file req' res)
    (hpage : ¬ (env.unset = .html ∧ text ".html" <:+ file))
    (hsent : ∀ message, env.sent message = true) {taken : Bytes → List HttpServer.Chunk}
    (htaken : TakenWhole taken (sendRequestText host.val keepAlive (text "GET") path.val))
    {cut : Bytes → List RecvResult} {pieces : Bytes → List Piece} (hcut : HandsOver cut pieces) :
    (∃ parsed, (BaseClient.get {host := host.val, port := port, keepAlive := keepAlive}
        (serverNetwork s env wsRoutes sd taken cut) unset unsetFd path.val).result = .ok parsed ∧
        parsed.status = .ok ∧ parsed.headers = res.headers ∧ parsed.content = file) ↔
      file ≠ [] ∧ ∀ message, (res.build env.files false).2 = some message →
        EndsShort (pieces message) ∧
        ∀ i, findFrom (text "HTTP/1.1 ") message 0 = some i → Says (message.drop (i + 9)) .ok := by
  have hres := Server.answered_served hpre hpost hserved
  have hproper := served_proper hpre hpost hserved
  by_cases hfile : file = []
  · refine iff_of_false ?_ fun h => h.1 hfile
    rw [get_unanswered hproper env wsRoutes sd host port keepAlive path unset unsetFd hreq hres
      (Server.served_empty hserved hfile) hsent htaken hcut]
    rintro ⟨parsed, hparsed, _⟩
    cases hparsed
  · obtain ⟨hcarried, hstatus, hcontent, hself⟩ :=
      Server.served_carried hheaders hreq hserved hfile hpage
    have hback := exchange_carried_iff hproper env wsRoutes sd host port keepAlive .get path unset
      unsetFd hreq hres hcarried hsent htaken hcut
    rw [hstatus, hcontent, hself] at hback
    exact hback.trans (and_iff_right hfile).symm

/-- A server of files has one, of one byte. -/
theorem served_one : ∃ req req' res,
    Request.ofRaw (sendRequestText (text "localhost") true (text "GET") (text "/a.txt")) = .ok req ∧
      Served bareServer oneFile.files req (Response.make .plainText [] 5) (text "a") req' res := by
  have hfound : ((Request.ofRaw (sendRequestText (text "localhost") true (text "GET")
      (text "/a.txt"))).toOption.map fun req => decide (req.method = text "GET" ∧
        req.path = text "/a.txt" ∧ req.mimeType = text "text/plain")) = some true := by
    decide +kernel
  obtain ⟨req, hreq, hfields⟩ := Option.map_eq_some_iff.mp hfound
  obtain ⟨hmethod, hpath, htype⟩ := of_decide_eq_true hfields
  have hframe := bareServer.router.matchRequest_frame req
  have hresolve : bareServer.resolvePath oneFile.files (bareServer.router.matchRequest req).1 =
      .ok ((bareServer.router.matchRequest req).1, text "./assets/a.txt") := by
    rw [hframe]
    unfold Server.resolvePath
    simp only [hpath]
    rfl
  refine ⟨req, _, _, eq_ok_of_toOption hreq, ?_, .inl hmethod,
    text "./assets/a.txt", {isDir := false, mtime := 0, size := 1}, text "text/plain", hresolve,
    rfl, rfl, ?_, rfl⟩
  · exact Router.matchRequest_empty req
  · rw [hframe, Request.mimeType?, if_neg (by rw [htype]; decide), htype]

theorem file_comes_back_iff_one : ∃ (req req' : Request) (res : Response),
    Served bareServer oneFile.files req (Response.make .plainText [] 5) (text "a") req' res ∧
    ((∃ parsed, (BaseClient.get {host := text "localhost", port := 8080, keepAlive := true}
        (promptNetwork bareServer oneFile [] 5) .html 0 (text "/a.txt")).result = .ok parsed ∧
        parsed.status = .ok ∧ parsed.headers = res.headers ∧ parsed.content = text "a") ↔
      text "a" ≠ [] ∧ ∀ message, (res.build oneFile.files false).2 = some message →
        EndsShort (buffers READ_BUFFER_SIZE (by decide) message) ∧
        ∀ i, findFrom (text "HTTP/1.1 ") message 0 = some i → Says (message.drop (i + 9)) .ok) := by
  obtain ⟨req, req', res, hreq, hserved⟩ := served_one
  exact ⟨req, req', res, hserved, file_comes_back_iff rfl rfl
    (fun e he => absurd he List.not_mem_nil) oneFile [] 5
    ⟨text "localhost", every_char (by decide), by decide⟩ 8080 true
    ⟨text "/a.txt", every_char (by decide)⟩ .html 0 hreq hserved (fun h => absurd h.1 (by decide))
    (fun _ => rfl) (taken_buffers (by decide +kernel) (by decide +kernel)) handsOver_buffers⟩

end HttpServer
