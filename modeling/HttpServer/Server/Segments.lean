import HttpServer.Request.Parse
import HttpServer.Router.Routes
import HttpServer.Server.Bindings

/-! What the route handlers see of a connection's bytes.

Nothing is kept from one `recv` to the next: what a route handler is called with
is read off one `recv` result alone (`Server.invoked`), whatever the results
before it held and whatever other connections do. A request that arrives in one
piece is therefore seen whole, and a request cut in two is not. -/
namespace HttpServer
open Lib Lib.Tenure Lib.Runs

variable {W : Type}

/-! ### Invocations -/

/-- What a route handler is called with. -/
structure Invocation where
  method : Bytes
  path : Bytes
  headers : Map Bytes Bytes
  body : Bytes

def Request.invocation (req : Request) : Invocation :=
  {method := req.method, path := req.path, headers := req.headers, body := req.body}

/-- The call a request on the wire is meant to cause. -/
def WireRequest.invocation (w : WireRequest) : Invocation :=
  {method := w.method.val, path := w.target.val
   headers := Map.ofList (WireRequest.entries w.headers), body := w.body}

/-- A complete and well-formed request: an ASCII method, a body as long as its
`Content-Length` says, and no `Upgrade` header without a `Connection` header. -/
structure WireRequest.WellFormed (w : WireRequest) : Prop where
  ascii : ∀ c ∈ w.method.val, c < 0x80
  framed : w.Framed
  connection : (Map.ofList (entries w.headers)).lookup (text "Upgrade") ≠ none →
    (Map.ofList (entries w.headers)).lookup (text "Connection") ≠ none

/-- The call that one `recv` result makes where it is not answered by switching
protocols, on a server with or without WebSocket routes. -/
def Server.invoked (srv : Server W) (webSocket : Bool) (bytes : Bytes) : Option Invocation :=
  match Request.ofRaw bytes with
  | .error _ => none
  | .ok req =>
    if webSocket ∧ ((getWebSocketFrame bytes).isSome ∨
        ¬ (processWebsocketHandshake req).isOk) then none
    else if srv.router.routes req.method req.path then some req.invocation else none

/-- The bytes a connection's `recv` calls returned, first to last, without those
answered by switching protocols. -/
def receivedOn (conn : Nat) : List Event → List Bytes
  | [] => []
  | .received _ c bytes actions :: older =>
    receivedOn conn older ++ if c = conn ∧ (upgrades actions).isEmpty then [bytes] else []
  | _ :: older => receivedOn conn older

/-- The calls of route handlers a connection caused, first to last. -/
def invokedOn (conn : Nat) : List Event → List Invocation
  | [] => []
  | .received _ c _ actions :: older =>
    invokedOn conn older ++ if c = conn then (handled actions).map Request.invocation else []
  | _ :: older => invokedOn conn older

/-! ### One buffer -/

/-- A match changes nothing that a call is described by. -/
theorem Router.matchRequest_invocation {H : Type} (r : Router H) (req : Request) :
    (r.matchRequest req).1.invocation = req.invocation := by
  rw [Router.matchRequest_frame]
  rfl

namespace Server

/-- A request that finds its route is always answered. -/
theorem respond_ok {s : Server W} (env : Env W) {req : Request} (res : Response)
    (hroute : s.router.routes req.method req.path = true) :
    ∃ actions, respond s env req res = .ok actions := by
  rw [← Router.matchRequest_routes] at hroute
  obtain ⟨handler, hm⟩ := Option.isSome_iff_exists.mp hroute
  have hresult : ∃ result, handleRoute s env req res = .ok result := by
    unfold handleRoute
    generalize s.router.matchRequest req = found at hm
    obtain ⟨req', handler?⟩ := found
    cases hm
    exact ⟨_, rfl⟩
  obtain ⟨⟨routed, body⟩, hresult⟩ := hresult
  unfold respond
  simp only [hresult, bind, Except.bind]
  cases body with
  | none => exact ⟨_, rfl⟩
  | some message => exact ⟨_, rfl⟩

/-- A handshake that cannot be processed ends the loop. -/
theorem performRequest_error {s : Server W} {env : Env W} {wsRoutes : List (WsRoute W)} {sd : Int}
    {buffer : Bytes} {req : Request} {fault : Fault} (hws : wsRoutes ≠ [])
    (hf : getWebSocketFrame buffer = none) (hreq : Request.ofRaw buffer = .ok req)
    (hh : processWebsocketHandshake req = .error fault) :
    s.performRequest env wsRoutes sd buffer = .error fault := by
  unfold performRequest
  simp only [hreq, bind, Except.bind, hws, ne_eq, not_false_eq_true, if_true, hf, hh]

/-- **One buffer, one call at most**: the one that its bytes alone decide. -/
theorem performRequest_invoked {s : Server W} {env : Env W} {wsRoutes wsRoutes' : List (WsRoute W)}
    {sd : Int} {buffer : Bytes} {actions : List Action}
    (h : s.performRequest env wsRoutes sd buffer = .ok (wsRoutes', actions)) :
    (handled actions).map Request.invocation =
      if (upgrades actions).isEmpty then (s.invoked (decide (wsRoutes ≠ [])) buffer).toList
      else [] := by
  obtain ⟨req, hreq, hp⟩ := performRequest_cases h
  obtain ⟨closed, hpre, _⟩ := callHandler_actions s.preRoutingHandler env.world req
    (Response.make env.unset s.defaultHeaders sd)
  rw [hpre] at hp
  cases hp with
  | close hws hf => simp [invoked, hreq, hws, hf, handled]
  | frame opcode hws hf ho =>
    simp [invoked, hreq, hws, hf, handled_append, handled_closes, handled_dispatchWebSocket]
  | handshake message hws hf hh hs =>
    have hone : ∀ rest : List Action, handled (.send message true ::
        .upgrade req.normalizePath req.query
          (updateWsRoute req.normalizePath req.query sd wsRoutes).2 :: rest) = handled rest :=
      fun _ => rfl
    rw [handled_append, handled_closes, hone, handled_dispatchWebSocket]
    simp [upgrades]
  | request sends answered hf hsends hr =>
    have hplain : ∀ act ∈ closed.map Action.handlerClose ++ (sends ++ answered), act.Plain :=
      plain_append (plain_closes closed) (plain_append (plain_sends hsends) hr.plain)
    have hread : ¬ (decide (wsRoutes ≠ []) = true ∧ ((getWebSocketFrame buffer).isSome = true ∨
        ¬ (processWebsocketHandshake req).isOk = true)) := by
      intro hskip
      have hws : wsRoutes ≠ [] := of_decide_eq_true hskip.1
      have hnone : getWebSocketFrame buffer = none := hf.resolve_left hws
      rcases hskip.2 with hsome | herror
      · rw [hnone] at hsome
        cases hsome
      · cases hh : processWebsocketHandshake req with
        | error fault =>
          rw [performRequest_error hws hnone hreq hh] at h
          cases h
        | ok message =>
          rw [hh] at herror
          exact herror rfl
    rw [(plain_websocket hplain).1, List.isEmpty_nil, if_pos rfl, handled_append, handled_append,
      handled_closes, handled_sends hsends, List.nil_append, List.nil_append, hr.handled, invoked,
      Router.matchRequest_routes]
    simp only [hreq, if_neg hread]
    split
    · exact congrArg (fun i => [i]) (Router.matchRequest_invocation s.router req)
    · rfl

/-- A buffer that ends the loop calls no route handler. -/
theorem performRequest_fault {s : Server W} {env : Env W} {wsRoutes : List (WsRoute W)}
    {sd : Int} {buffer : Bytes} {fault : Fault}
    (h : s.performRequest env wsRoutes sd buffer = .error fault) :
    s.invoked (decide (wsRoutes ≠ [])) buffer = none := by
  obtain ⟨req, hreq⟩ := Request.ofRaw_total buffer
  simp only [invoked, hreq]
  split
  · rfl
  · next hread =>
    split
    · next hroute =>
      obtain ⟨answered, hok⟩ := respond_ok env
        (callHandler s.preRoutingHandler env.world req
          (Response.make env.unset s.defaultHeaders sd)).1 hroute
      exfalso
      unfold performRequest at h
      simp only [hreq, bind, Except.bind] at h
      split at h
      · next hws =>
        cases hf : getWebSocketFrame buffer with
        | some opcode => exact hread ⟨decide_eq_true hws, .inl (by rw [hf]; rfl)⟩
        | none =>
          cases hh : processWebsocketHandshake req with
          | error fault => exact hread ⟨decide_eq_true hws, .inr (by rw [hh]; exact nofun)⟩
          | ok message? =>
            simp only [hf, hh, hok] at h
            cases message? with
            | none => cases h
            | some message =>
              simp only at h
              split at h <;> cases h
      · simp only [hok] at h
        cases h
    · rfl

/-! ### One request in one piece -/

/-- The bytes of a request are no frame. -/
theorem getWebSocketFrame_wire {w : WireRequest} (h : ∀ c ∈ w.method.val, c < 0x80) :
    getWebSocketFrame w.bytes = none := by
  have hhead : ∃ c rest, w.bytes = c :: rest ∧ c < 0x80 := by
    rw [WireRequest.bytes, WireRequest.requestLine]
    cases hm : w.method.val with
    | nil => exact ⟨ch ' ', _, rfl, by decide⟩
    | cons c rest =>
      refine ⟨c, _, rfl, h c ?_⟩
      rw [hm]
      exact List.mem_cons_self ..
  obtain ⟨c, rest, hbytes, hc⟩ := hhead
  have hfin : c &&& 0x80 = 0 := by
    have hbits : ∀ b : BitVec 8, b < 0x80#8 → b &&& 0x80#8 = 0#8 := by decide
    exact UInt8.toBitVec_inj.mp (hbits c.toBitVec hc)
  rw [hbytes]
  cases rest with
  | nil => rfl
  | cons c' rest => simp [getWebSocketFrame, hfin]

/-- Only an `Upgrade` header without a `Connection` header cannot be processed. -/
theorem processWebsocketHandshake_isOk {req : Request}
    (h : req.headers.lookup (text "Upgrade") ≠ none →
      req.headers.lookup (text "Connection") ≠ none) :
    (processWebsocketHandshake req).isOk = true := by
  unfold processWebsocketHandshake
  split
  · rfl
  · next hup =>
    split
    · next hconn => exact absurd hconn (h (by rw [hup]; exact nofun))
    · repeat' split
      all_goals rfl

/-- **A request in one piece makes the call it is meant to**, if it has a route. -/
theorem invoked_wire (s : Server W) (webSocket : Bool) {w : WireRequest} (h : w.WellFormed) :
    s.invoked webSocket w.bytes =
      if s.router.routes w.method.val w.target.val then some w.invocation else none := by
  obtain ⟨req, hreq, hmethod, hpath, _, hbody, hheaders, _⟩ := Request.ofRaw_wire w
  have hok : (processWebsocketHandshake req).isOk = true :=
    processWebsocketHandshake_isOk (by rw [hheaders]; exact h.connection)
  simp [invoked, getWebSocketFrame_wire h.ascii, hreq, hok, hmethod, hpath, Request.invocation,
    WireRequest.invocation, hheaders, hbody]

/-- So a list of them makes the calls of those that have a route. -/
theorem filterMap_invoked_wire (s : Server W) (webSocket : Bool) {requests : List WireRequest}
    (h : ∀ w ∈ requests, w.WellFormed) :
    (requests.map WireRequest.bytes).filterMap (s.invoked webSocket) =
      (requests.filter fun w => s.router.routes w.method.val w.target.val).map
        WireRequest.invocation := by
  induction requests with
  | nil => rfl
  | cons w requests ih =>
    have hw := s.invoked_wire webSocket (h w (List.mem_cons_self ..))
    have hrest := ih fun w' hw' => h w' (List.mem_cons_of_mem _ hw')
    rw [List.map_cons, List.filterMap_cons, hw, hrest, List.filter_cons]
    cases s.router.routes w.method.val w.target.val <;> rfl

end Server

/-! ### Runs -/

/-- What was called because of an entry is what its bytes alone decide. -/
def Apiece (srv : Server W) (webSocket : Bool) : Event → Prop
  | .received _ _ bytes actions => (handled actions).map Request.invocation =
      if (upgrades actions).isEmpty then (srv.invoked webSocket bytes).toList else []
  | _ => True

structure Heard (srv : Server W) (webSocket : Bool) (s : State W) : Prop where
  routes : decide (s.wsRoutes ≠ []) = webSocket
  apiece : ∀ e ∈ s.log, Apiece srv webSocket e

theorem heard_step {srv : Server W} {webSocket : Bool} (s : State W) (a : Answer W)
    (h : Heard srv webSocket s) : Heard srv webSocket (step srv s a) := by
  have hws : decide ((step srv s a).wsRoutes ≠ []) = webSocket := by
    have hlen := congrArg List.length (step_fixed srv s a)
    simp only [List.length_map] at hlen
    rw [← h.routes]
    simp only [ne_eq, ← List.length_eq_zero_iff, hlen]
  refine ⟨hws, throughout_entries_iff.mp (throughout_step s a (fun older e he => ?_)
    (fun fd conn bytes fault _ hperf => ?_) (fun fd conn bytes wsRoutes actions _ hperf => ?_)
    (throughout_entries_iff.mpr h.apiece))⟩
  · cases e with
    | received => exact absurd trivial he
    | _ => trivial
  · have hnone := Server.performRequest_fault hperf
    rw [h.routes] at hnone
    simp [Apiece, handled, upgrades, hnone]
  · have hone := Server.performRequest_invoked hperf
    rw [h.routes] at hone
    exact hone

/-- Entry by entry, hence for a connection's whole history. -/
theorem invokedOn_eq {srv : Server W} {webSocket : Bool} (conn : Nat) {log : List Event}
    (h : ∀ e ∈ log, Apiece srv webSocket e) :
    invokedOn conn log = (receivedOn conn log).filterMap (srv.invoked webSocket) := by
  induction log with
  | nil => rfl
  | cons e older ih =>
    have hrest := ih fun e' he' => h e' (List.mem_cons_of_mem _ he')
    have he := h e (List.mem_cons_self ..)
    cases e with
    | received fd c bytes actions =>
      have hone : (handled actions).map Request.invocation =
        if (upgrades actions).isEmpty then (srv.invoked webSocket bytes).toList else [] := he
      rw [invokedOn, receivedOn, List.filterMap_append, hrest, hone]
      by_cases hc : c = conn
      · cases (upgrades actions).isEmpty
        · simp [hc]
        · cases hb : srv.invoked webSocket bytes <;> simp [hc, hb]
      · simp [hc]
    | _ => exact hrest

/-- **Every `recv` result is a request of its own**: what a connection's route
handlers are called with is read off its `recv` results one by one, on every run.
Where each of them is one complete request, each request that has a route makes
one call, with its method, path, headers and whole body. -/
theorem requests_heard_apiece (srv : Server W) (wsRoutes : List (WsRoute W))
    (answers : List (Answer W)) (conn : Nat) :
    invokedOn conn (runLoop srv (State.initial wsRoutes) answers).log =
      (receivedOn conn (runLoop srv (State.initial wsRoutes) answers).log).filterMap
        (srv.invoked (decide (wsRoutes ≠ []))) ∧
    ∀ requests : List WireRequest, (∀ w ∈ requests, w.WellFormed) →
      receivedOn conn (runLoop srv (State.initial wsRoutes) answers).log =
        requests.map WireRequest.bytes →
      invokedOn conn (runLoop srv (State.initial wsRoutes) answers).log =
        (requests.filter fun w => srv.router.routes w.method.val w.target.val).map
          WireRequest.invocation := by
  have hinitial : Heard srv (decide (wsRoutes ≠ [])) (State.initial wsRoutes) :=
    ⟨rfl, fun e he => absurd he List.not_mem_nil⟩
  have hrun := invariant_always heard_step hinitial answers
  have hall := invokedOn_eq conn hrun.apiece
  refine ⟨hall, fun requests hwell hreceived => ?_⟩
  rw [hall, hreceived, srv.filterMap_invoked_wire _ hwell]

/-! ### One request, whole and cut -/

def postPing : WireRequest :=
  {method := ⟨text "POST", every (by decide)⟩, target := ⟨text "/a", every (by decide)⟩
   version := ⟨text "HTTP/1.1", every (by decide)⟩
   headers := [(⟨text "Content-Length", every (by decide)⟩,
    ⟨text "4", every (by decide), by decide⟩)]
   body := text "ping"}

theorem postPing_wellFormed : postPing.WellFormed where
  ascii := every (by decide)
  framed := by
    have hlength : (Map.ofList (WireRequest.entries postPing.headers)).lookup
        (text "Content-Length") = some (text "4") := by decide +kernel
    rw [WireRequest.Framed, hlength]
    decide
  connection h := absurd (by decide +kernel) h

/-- A server whose one route takes the request. -/
def pingServer : Server Unit :=
  {sockfd := 3, router := Router.ofCalls [⟨text "POST", text "/a", fun _ _ res => (res, [])⟩]}

/-- One connection, and what its `recv` calls return. -/
def oneConnection (chunks : List Chunk) : List (Answer Unit) :=
  [.ready 3 pollIn, .accept [5], .nothing] ++
    chunks.flatMap fun bytes => [.ready 5 pollIn, .nothing, .data bytes, .nothing]

/-- No route has its path. -/
def strayGet : WireRequest :=
  {method := ⟨text "GET", every (by decide)⟩, target := ⟨text "/b", every (by decide)⟩
   version := ⟨text "HTTP/1.1", every (by decide)⟩
   headers := []
   body := []}

theorem strayGet_wellFormed : strayGet.WellFormed where
  ascii := every (by decide)
  framed := by
    have hlength : (Map.ofList (WireRequest.entries strayGet.headers)).lookup
        (text "Content-Length") = none := by decide +kernel
    rw [WireRequest.Framed, hlength]
    decide
  connection h := absurd (by decide +kernel) h

theorem requests_heard_apiece_whole :
    invokedOn 0 (runLoop pingServer (State.initial [])
      (oneConnection [⟨postPing.bytes, by decide⟩, ⟨strayGet.bytes, by decide⟩,
        ⟨postPing.bytes, by decide⟩])).log = [postPing.invocation, postPing.invocation] := by
  have hwell : ∀ w ∈ [postPing, strayGet, postPing], w.WellFormed := by
    simp only [List.forall_mem_cons]
    exact ⟨postPing_wellFormed, strayGet_wellFormed, postPing_wellFormed, nofun⟩
  rw [(requests_heard_apiece pingServer [] (oneConnection [⟨postPing.bytes, by decide⟩,
    ⟨strayGet.bytes, by decide⟩, ⟨postPing.bytes, by decide⟩]) 0).2 [postPing, strayGet, postPing]
      hwell (by decide +kernel)]
  have hroute : pingServer.router.routes postPing.method.val postPing.target.val = true := by
    decide +kernel
  have hstray : pingServer.router.routes strayGet.method.val strayGet.target.val = false := by
    decide +kernel
  simp [hroute, hstray]

/-- Cut behind its header, the same request is heard without its body. -/
theorem cut_request_loses_body :
    ¬ ∀ (srv : Server Unit) (wsRoutes : List (WsRoute Unit)) (answers : List (Answer Unit))
        (conn : Nat) (requests : List WireRequest),
      (∀ w ∈ requests, w.WellFormed ∧ srv.router.routes w.method.val w.target.val = true) →
      (receivedOn conn (runLoop srv (State.initial wsRoutes) answers).log).flatten =
        (requests.map WireRequest.bytes).flatten →
      invokedOn conn (runLoop srv (State.initial wsRoutes) answers).log =
        requests.map WireRequest.invocation := by
  intro h
  have hcut := h pingServer [] (oneConnection [⟨postPing.bytes.take 39, by decide⟩,
    ⟨text "ping", by decide⟩]) 0 [postPing]
    (fun w hw => List.mem_singleton.mp hw ▸ ⟨postPing_wellFormed, by decide +kernel⟩)
    (by decide +kernel)
  have hbodies := congrArg (List.map Invocation.body) hcut
  revert hbodies
  decide +kernel

end HttpServer
