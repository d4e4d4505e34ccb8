import HttpServer.Response.Build
import HttpServer.Server.Loop
import HttpServer.Server.Perform

/-! Requests that no route takes.

What is sent is what stands in the response, and only the static files put something
there: the file, or that there is none. Every other way through `handleStaticResource`, and
every method but two, leaves the response empty, and an empty response is not sent
(`unrouted_answered_iff`). -/
namespace HttpServer
open Lib Utils

variable {W : Type}

theorem build_none_iff (fs : FileSystem) (chunked : Bool) (res : Response) :
    (res.build fs chunked).2 = none ↔ res.content = [] := by
  unfold Response.build
  by_cases h : res.content = []
  · rw [if_pos h]
    exact ⟨fun _ => h, fun _ => rfl⟩
  · rw [if_neg h]
    exact ⟨fun hnone => absurd hnone (Option.some_ne_none _), fun hnil => absurd hnil h⟩

theorem make_content (unset : ContentType) (defaultHeaders : List (Bytes × Bytes)) (sockfd : Int) :
    (Response.make unset defaultHeaders sockfd).content = [] := by
  rw [Response.make_eq]

/-- The path of a file does not depend on the parameters. -/
theorem resolvePath_params (s : Server W) (fs : FileSystem) (req : Request)
    (params : Map Bytes Bytes) :
    s.resolvePath fs {req with params := params} =
      (s.resolvePath fs req).map fun found => ({found.1 with params := params}, found.2) := by
  unfold Server.resolvePath
  simp only
  split
  · split
    · rfl
    · rfl
  · rfl

/-! ### The answer -/

/-- `handleRoute` returns a message, which `performRequest` sends unless the bytes are a
frame or a handshake. -/
def Answered (s : Server W) (env : Env W) (wsRoutes : List (WsRoute W)) (sd : Int)
    (buffer : Bytes) (req : Request) : Prop :=
  ∃ message,
    s.handleRoute env req (Response.make env.unset s.defaultHeaders sd) =
      .ok ([], some message) ∧
    (wsRoutes = [] ∨ getWebSocketFrame buffer = none ∧ processWebsocketHandshake req = .ok none →
      s.performRequest env wsRoutes sd buffer =
        .ok (wsRoutes, [.send message (env.sent message)]))

/-- Without a route and a hook a request is handled by the static files alone. -/
theorem handleRoute_unrouted {s : Server W} {env : Env W} {req : Request} {res : Response}
    (hpost : s.postRoutingHandler = none) (hm : (s.router.matchRequest req).2 = none) :
    s.handleRoute env req res =
      if req.method = text "GET" ∨ req.method = text "HEAD" then
        (s.handleStaticResource env.files (s.router.matchRequest req).1
          (res.setStaticDirectory s.staticDirectory)).map fun served =>
            ([], (served.2.build env.files false).2)
      else .ok ([], ((res.setStaticDirectory s.staticDirectory).build env.files false).2) := by
  have hmethod : (s.router.matchRequest req).1.method = req.method := by
    rw [s.router.matchRequest_frame req]
  unfold Server.handleRoute
  simp only [hm, hmethod, hpost, Server.callHandler]
  split
  · cases s.handleStaticResource env.files (s.router.matchRequest req).1
      (res.setStaticDirectory s.staticDirectory) <;> rfl
  · rfl

/-- A request that is neither a frame nor a handshake is routed. -/
theorem performRequest_routed {s : Server W} {env : Env W} {wsRoutes : List (WsRoute W)}
    {sd : Int} {buffer : Bytes} {req : Request} (hreq : Request.ofRaw buffer = .ok req)
    (hpre : s.preRoutingHandler = none)
    (h : wsRoutes = [] ∨
      getWebSocketFrame buffer = none ∧ processWebsocketHandshake req = .ok none) :
    s.performRequest env wsRoutes sd buffer =
      (s.respond env req (Response.make env.unset s.defaultHeaders sd)).map
        fun answered => (wsRoutes, answered) := by
  unfold Server.performRequest
  simp only [hreq, bind, Except.bind, hpre, Server.callHandler, List.nil_append]
  by_cases hws : wsRoutes = []
  · simp only [hws, ne_eq, not_true_eq_false, if_false]
    cases s.respond env req (Response.make env.unset s.defaultHeaders sd) <;> rfl
  · obtain ⟨hf, hh⟩ := h.resolve_left hws
    simp only [ne_eq, hws, not_false_eq_true, if_true, hf, hh]
    cases s.respond env req (Response.make env.unset s.defaultHeaders sd) <;> rfl

/-- The file system has no file at the path, or one that can be sent. -/
def Sendable (fs : FileSystem) (req' : Request) (path : Bytes) : Prop :=
  fs.stat (cStr path) = none ∨ ∃ file, fs.contents (cStr path) = some file ∧ file ≠ [] ∧
    req'.mimeType ≠ []

theorem sendable_params {s : Server W} {fs : FileSystem} {req : Request}
    (params : Map Bytes Bytes) :
    (∃ req' path, s.resolvePath fs {req with params := params} = .ok (req', path) ∧
      Sendable fs req' path) ↔
    ∃ req' path, s.resolvePath fs req = .ok (req', path) ∧ Sendable fs req' path := by
  rw [resolvePath_params]
  cases s.resolvePath fs req with
  | error fault => simp [Except.map]
  | ok found =>
    constructor
    · intro ⟨req', path, h, hsend⟩
      cases h
      exact ⟨found.1, found.2, rfl, hsend⟩
    · intro ⟨req', path, h, hsend⟩
      cases h
      exact ⟨_, _, rfl, hsend⟩

/-- When the static files put something into an empty response. -/
theorem handleStaticResource_fills_iff {s : Server W} {fs : FileSystem} {req : Request}
    {res : Response} (hempty : res.content = []) :
    (∃ req' res', s.handleStaticResource fs req res = .ok (req', res') ∧ res'.content ≠ []) ↔
      ∃ req' path, s.resolvePath fs req = .ok (req', path) ∧ Sendable fs req' path := by
  constructor
  · intro ⟨req', res', h, hfull⟩
    obtain ⟨path, hpath, hcase⟩ := handleStaticResource_cases h
    refine ⟨req', path, hpath, ?_⟩
    rcases hcase with ⟨st, file, mimeType, _, hfile, hmime, rfl⟩ | ⟨hstat, _⟩ | ⟨_, rfl⟩
    · refine .inr ⟨file, hfile, ?_, ?_⟩
      · rwa [(fileResponse_fields ..).1, hempty, List.nil_append] at hfull
      · intro hnone
        rw [Request.mimeType?, if_pos hnone] at hmime
        cases hmime
    · exact .inl hstat
    · exact absurd hempty hfull
  · intro ⟨req', path, hpath, hsend⟩
    unfold Server.handleStaticResource
    rw [hpath]
    simp only [bind, Except.bind]
    cases hstat : fs.stat (cStr path) with
    | none => exact ⟨_, _, rfl, show text "Not Found" ≠ [] by decide⟩
    | some st =>
      rcases hsend with hnone | ⟨file, hfile, hfull, hmime⟩
      · rw [hstat] at hnone
        cases hnone
      · simp only [hfile, Request.mimeType?, if_neg hmime]
        refine ⟨_, _, rfl, ?_⟩
        rwa [(fileResponse_fields ..).1, hempty, List.nil_append]

/-- **A request that no route takes is answered if it is a GET or HEAD of a file that is
not there or that can be sent**, and not otherwise. -/
theorem unrouted_answered_iff {s : Server W} (env : Env W) (wsRoutes : List (WsRoute W))
    (sd : Int) {buffer : Bytes} {req : Request} (hreq : Request.ofRaw buffer = .ok req)
    (hpre : s.preRoutingHandler = none) (hpost : s.postRoutingHandler = none)
    (hm : (s.router.matchRequest req).2 = none) :
    Answered s env wsRoutes sd buffer req ↔
      (req.method = text "GET" ∨ req.method = text "HEAD") ∧
        ∃ req' path, s.resolvePath env.files req = .ok (req', path) ∧
          Sendable env.files req' path := by
  have hempty : ((Response.make env.unset s.defaultHeaders sd).setStaticDirectory
      s.staticDirectory).content = [] := make_content ..
  have hfills := @handleStaticResource_fills_iff _ s env.files (s.router.matchRequest req).1 _
    hempty
  rw [s.router.matchRequest_frame req, sendable_params, ← s.router.matchRequest_frame req] at hfills
  rw [← hfills]
  constructor
  · intro ⟨message, hroute, _⟩
    rw [handleRoute_unrouted hpost hm] at hroute
    split at hroute
    · next hmethod =>
      refine ⟨hmethod, ?_⟩
      cases hstatic : s.handleStaticResource env.files (s.router.matchRequest req).1
          ((Response.make env.unset s.defaultHeaders sd).setStaticDirectory
            s.staticDirectory) with
      | error fault =>
        rw [hstatic] at hroute
        cases hroute
      | ok served =>
        rw [hstatic] at hroute
        have hbuild : (served.2.build env.files false).2 = some message :=
          (Prod.mk.inj (Except.ok.inj hroute)).2
        refine ⟨served.1, served.2, rfl, fun hnil => ?_⟩
        rw [(build_none_iff ..).mpr hnil] at hbuild
        cases hbuild
    · have hbuild := (Prod.mk.inj (Except.ok.inj hroute)).2
      rw [(build_none_iff ..).mpr hempty] at hbuild
      cases hbuild
  · intro ⟨hmethod, req', res', hstatic, hfull⟩
    have hmessage : (res'.build env.files false).2 ≠ none :=
      fun hnone => hfull ((build_none_iff ..).mp hnone)
    obtain ⟨message, hbuild⟩ := Option.ne_none_iff_exists'.mp hmessage
    have hroute : s.handleRoute env req (Response.make env.unset s.defaultHeaders sd) =
        .ok ([], some message) := by
      rw [handleRoute_unrouted hpost hm, if_pos hmethod, hstatic, ← hbuild]
      rfl
    refine ⟨message, hroute, fun hplain => ?_⟩
    rw [performRequest_routed hreq hpre hplain, Server.respond, hroute]
    rfl

theorem unrouted_answered_missing : ∃ req,
    Answered bareServer Env.plain [] 5 (text "GET /x HTTP/1.1\r\n\r\n") req := by
  obtain ⟨req, hreq, hmethod⟩ := @Request.exists_ofRaw _ (text "GET /x HTTP/1.1\r\n\r\n")
    Request.method (text "GET") (by decide +kernel)
  refine ⟨req, (unrouted_answered_iff Env.plain [] 5 hreq rfl rfl
    (Router.matchRequest_empty req)).mpr ⟨.inl hmethod, ?_⟩⟩
  exact ⟨_, _, rfl, .inl rfl⟩

/-- A POST that no route takes waits for ever. -/
theorem unrouted_post_unanswered : ∃ req,
    Request.ofRaw (text "POST /x HTTP/1.1\r\n\r\n") = .ok req ∧
      (bareServer.router.matchRequest req).2 = none ∧
      ¬ Answered bareServer Env.plain [] 5 (text "POST /x HTTP/1.1\r\n\r\n") req := by
  obtain ⟨req, hreq⟩ := Request.ofRaw_total (text "POST /x HTTP/1.1\r\n\r\n")
  refine ⟨req, hreq, Router.matchRequest_empty req, fun ⟨message, hroute, hsent⟩ => ?_⟩
  have hquiet : ((bareServer.performRequest Env.plain [] 5
      (text "POST /x HTTP/1.1\r\n\r\n")).toOption.map fun result => result.2.length) =
        some 0 := by decide +kernel
  rw [hsent (.inl rfl)] at hquiet
  cases hquiet

end HttpServer
