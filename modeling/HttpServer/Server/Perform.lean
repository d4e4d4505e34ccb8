import HttpServer.Request.Total
import HttpServer.Server.Route

/-! What one call of `performRequest` can do.

Four things: a Close frame closes the socket, any other frame is dispatched, a
handshake binds its path's route to the socket, and everything else is routed
and answered (`performRequest_cases`). Only the third changes the WebSocket
routes. -/
namespace HttpServer
open Lib

variable {W : Type}

/-! ### The table of routes -/

/-- Where the path has no route nothing changes. -/
theorem updateWsRoute_absent {path : Bytes} {wsRoutes : List (WsRoute W)}
    (h : ∀ r ∈ wsRoutes, r.path ≠ path) (query : Map Bytes Bytes) (fd : Int) :
    updateWsRoute path query fd wsRoutes = (wsRoutes, false) := by
  induction wsRoutes with
  | nil => rfl
  | cons r rest ih =>
    have hr : r.path ≠ path := h r (List.mem_cons_self ..)
    rw [updateWsRoute, if_neg hr, ih fun r' hr' => h r' (List.mem_cons_of_mem _ hr')]

/-- Where it has one, the first takes the descriptor and the query. -/
theorem updateWsRoute_present {path : Bytes} {before after : List (WsRoute W)} {r : WsRoute W}
    (hb : ∀ r' ∈ before, r'.path ≠ path) (hr : r.path = path) (query : Map Bytes Bytes) (fd : Int) :
    updateWsRoute path query fd (before ++ r :: after) =
      (before ++ {r with sockfd := fd, query := query} :: after, true) := by
  induction before with
  | nil => rw [List.nil_append, updateWsRoute, if_pos hr, List.nil_append]
  | cons b before ih =>
    have hne : b.path ≠ path := hb b (List.mem_cons_self ..)
    rw [List.cons_append, updateWsRoute, if_neg hne,
      ih fun r' hr' => hb r' (List.mem_cons_of_mem _ hr'), List.cons_append]

/-- A table either has no route of a path or splits at the first one. -/
theorem route_split (path : Bytes) (wsRoutes : List (WsRoute W)) :
    (∀ r ∈ wsRoutes, r.path ≠ path) ∨
      ∃ before r after, wsRoutes = before ++ r :: after ∧ (∀ r' ∈ before, r'.path ≠ path) ∧
        r.path = path := by
  induction wsRoutes with
  | nil => exact .inl fun r hr => absurd hr List.not_mem_nil
  | cons r rest ih =>
    by_cases hr : r.path = path
    · exact .inr ⟨[], r, rest, rfl, fun r' hr' => absurd hr' List.not_mem_nil, hr⟩
    · rcases ih with h | ⟨before, r', after, hsplit, hb, hr'⟩
      · left
        intro r' hr'
        rcases List.mem_cons.mp hr' with rfl | hr'
        · exact hr
        · exact h r' hr'
      · refine .inr ⟨r :: before, r', after, by rw [hsplit, List.cons_append], ?_, hr'⟩
        intro r' hr'
        rcases List.mem_cons.mp hr' with rfl | hr'
        · exact hr
        · exact hb r' hr'

/-- The paths and the handlers stay what they were. -/
theorem updateWsRoute_fixed (path : Bytes) (query : Map Bytes Bytes) (fd : Int)
    (wsRoutes : List (WsRoute W)) :
    (updateWsRoute path query fd wsRoutes).1.map (fun r => (r.path, r.handler)) =
      wsRoutes.map fun r => (r.path, r.handler) := by
  rcases route_split path wsRoutes with h | ⟨before, r, after, rfl, hb, hr⟩
  · rw [updateWsRoute_absent h]
  · simp [updateWsRoute_present hb hr]

/-! ### Quiet handlers -/

/-- A handler that closes no descriptor. -/
def RequestHandler.Quiet (handler : RequestHandler W) : Prop :=
  ∀ world req res, (handler world req res).2 = []

/-- No handler of the server closes a descriptor. -/
structure Server.Quiet (s : Server W) : Prop where
  route : ∀ req handler, (s.router.matchRequest req).2 = some handler →
    RequestHandler.Quiet handler
  pre : ∀ handler ∈ s.preRoutingHandler, RequestHandler.Quiet handler
  post : ∀ handler ∈ s.postRoutingHandler, RequestHandler.Quiet handler

def QuietRoutes (wsRoutes : List (WsRoute W)) : Prop :=
  ∀ r ∈ wsRoutes, ∀ world ws, r.handler world ws = []

theorem QuietRoutes.of_fixed {wsRoutes wsRoutes' : List (WsRoute W)} (h : QuietRoutes wsRoutes)
    (hfix : wsRoutes'.map (fun r => (r.path, r.handler)) =
      wsRoutes.map fun r => (r.path, r.handler)) : QuietRoutes wsRoutes' := by
  intro r hr
  have hmem : (r.path, r.handler) ∈ wsRoutes'.map fun r => (r.path, r.handler) :=
    List.mem_map.mpr ⟨r, hr, rfl⟩
  rw [hfix] at hmem
  obtain ⟨r', hr', heq⟩ := List.mem_map.mp hmem
  have hhandler : r'.handler = r.handler := (Prod.ext_iff.mp heq).2
  rw [← hhandler]
  exact h r' hr'

/-! ### Routed requests -/

/-- The server itself has no part in the action: no socket closed by it, no route
bound, no WebSocket handler called. -/
def Action.Plain : Action → Prop
  | handle _ | send _ _ | handlerClose _ => True
  | upgrade _ _ _ | dispatch _ _ | close _ => False

/-- The requests that route handlers were called with. -/
def handled (actions : List Action) : List Request :=
  actions.filterMap fun
    | .handle req => some req
    | _ => none

theorem handled_append (a b : List Action) : handled (a ++ b) = handled a ++ handled b :=
  List.filterMap_append

theorem handled_closes (closed : List Int) : handled (closed.map .handlerClose) = [] := by
  simp [handled, List.filterMap_map]

/-- The handshakes answered: path, query and whether a route has the path. -/
def upgrades (actions : List Action) : List (Bytes × Map Bytes Bytes × Bool) :=
  actions.filterMap fun
    | .upgrade path query bound => some (path, query, bound)
    | _ => none

/-- The WebSocket handlers called: the path of the route, and what it was given. -/
def dispatches (actions : List Action) : List (Bytes × WebSocket) :=
  actions.filterMap fun
    | .dispatch path ws => some (path, ws)
    | _ => none

theorem upgrades_append (a b : List Action) : upgrades (a ++ b) = upgrades a ++ upgrades b :=
  List.filterMap_append

theorem dispatches_append (a b : List Action) :
    dispatches (a ++ b) = dispatches a ++ dispatches b :=
  List.filterMap_append

theorem plain_append {a b : List Action} (ha : ∀ act ∈ a, act.Plain) (hb : ∀ act ∈ b, act.Plain) :
    ∀ act ∈ a ++ b, act.Plain :=
  List.forall_mem_append.mpr ⟨ha, hb⟩

theorem plain_closes (closed : List Int) : ∀ act ∈ closed.map Action.handlerClose, act.Plain := by
  intro act hact
  obtain ⟨fd, _, rfl⟩ := List.mem_map.mp hact
  trivial

theorem plain_sends {sends : List Action}
    (h : ∀ act ∈ sends, ∃ message, act = .send message false) : ∀ act ∈ sends, act.Plain := by
  intro act hact
  obtain ⟨message, rfl⟩ := h act hact
  trivial

theorem handled_sends {sends : List Action}
    (h : ∀ act ∈ sends, ∃ message, act = .send message false) : handled sends = [] := by
  apply List.filterMap_eq_nil_iff.mpr
  intro act hact
  obtain ⟨message, rfl⟩ := h act hact
  rfl

/-- Plain actions have nothing to do with WebSockets. -/
theorem plain_websocket {actions : List Action} (h : ∀ act ∈ actions, act.Plain) :
    upgrades actions = [] ∧ dispatches actions = [] := by
  constructor
  · apply List.filterMap_eq_nil_iff.mpr
    intro act hact
    have hplain := h act hact
    cases act <;> first | rfl | exact hplain.elim
  · apply List.filterMap_eq_nil_iff.mpr
    intro act hact
    have hplain := h act hact
    cases act <;> first | rfl | exact hplain.elim

namespace Server

/-- A hook or a handler has closing descriptors as its only action. -/
theorem callHandler_actions (handler : Option (RequestHandler W)) (world : W) (req : Request)
    (res : Response) :
    ∃ closed : List Int, (callHandler handler world req res).2 = closed.map .handlerClose ∧
      ((∀ h ∈ handler, RequestHandler.Quiet h) → closed = []) := by
  cases handler with
  | none => exact ⟨[], rfl, fun _ => rfl⟩
  | some handler => exact ⟨(handler world req res).2, rfl, fun hq => hq handler rfl world req res⟩

/-- What routing a request does: at most one handler is called, the one the router
finds, and nothing else but closing descriptors and sending. -/
structure Routed (s : Server W) (req : Request) (actions : List Action) : Prop where
  plain : ∀ act ∈ actions, act.Plain
  quiet : s.Quiet → ∀ act ∈ actions, ∀ fd, act ≠ .handlerClose fd
  handled : handled actions =
    if (s.router.matchRequest req).2.isSome then [(s.router.matchRequest req).1] else []

theorem handleRoute_routed {s : Server W} {env : Env W} {req : Request} {res : Response}
    {actions : List Action} {body : Option Bytes}
    (h : handleRoute s env req res = .ok (actions, body)) : Routed s req actions := by
  obtain ⟨routed, req', res', hhanded, rfl, _⟩ := handleRoute_handed h
  obtain ⟨post, hpost, hpostq⟩ := callHandler_actions s.postRoutingHandler env.world req' res'
  have hunrouted : (s.router.matchRequest req).2 = none →
      Routed s req ([] ++ (callHandler s.postRoutingHandler env.world req' res').2) := by
    intro hm
    rw [List.nil_append, hpost]
    refine ⟨plain_closes post, fun hq => ?_, ?_⟩
    · rw [hpostq hq.post]
      exact fun act hact => absurd hact List.not_mem_nil
    · rw [hm, handled_closes]
      rfl
  cases hhanded with
  | file hserved => exact hunrouted hserved.unrouted
  | nothing hm hnone hres => exact hunrouted hm
  | route handler hm =>
    obtain ⟨closed, hc, hcq⟩ :=
      callHandler_actions (some handler) env.world (s.router.matchRequest req).1
        (res.setStaticDirectory s.staticDirectory)
    rw [hpost, hc, List.cons_append, ← List.map_append]
    refine ⟨fun act hact => ?_, fun hq => ?_, ?_⟩
    · rcases List.mem_cons.mp hact with rfl | hact
      · trivial
      · exact plain_closes _ act hact
    · have hquiet : ∀ h ∈ some handler, RequestHandler.Quiet h := by
        intro h hh
        cases hh
        exact hq.route req handler hm
      rw [hpostq hq.post, hcq hquiet]
      intro act hact fd heq
      subst heq
      simp at hact
    · rw [hm]
      simp [handled]

theorem respond_routed {s : Server W} {env : Env W} {req : Request} {res : Response}
    {actions : List Action} (h : respond s env req res = .ok actions) : Routed s req actions := by
  unfold respond at h
  obtain ⟨⟨routed, body⟩, hr, h⟩ := bind_eq_ok h
  have hrouted := handleRoute_routed hr
  cases body with
  | none => exact Except.ok.inj h ▸ hrouted
  | some message =>
    rw [← Except.ok.inj h]
    refine ⟨fun act hact => ?_, fun hq act hact fd => ?_, ?_⟩
    · rcases List.mem_append.mp hact with hact | hact
      · exact hrouted.plain act hact
      · rw [List.mem_singleton.mp hact]
        trivial
    · rcases List.mem_append.mp hact with hact | hact
      · exact hrouted.quiet hq act hact fd
      · rw [List.mem_singleton.mp hact]
        exact nofun
    · rw [handled_append, hrouted.handled]
      exact List.append_nil _

/-! ### The four outcomes -/

/-- How `performRequest` leaves the routes and what it did, when the hook in front
did `pre`. -/
inductive Performed (s : Server W) (env : Env W) (wsRoutes : List (WsRoute W)) (sd : Int)
    (buffer : Bytes) (req : Request) (pre : List Action) :
    List (WsRoute W) → List Action → Prop
  | close (hws : wsRoutes ≠ []) (hf : getWebSocketFrame buffer = some WsOpcode.close) :
    Performed s env wsRoutes sd buffer req pre wsRoutes (pre ++ [.close sd])
  | frame (opcode : WsOpcode) (hws : wsRoutes ≠ []) (hf : getWebSocketFrame buffer = some opcode)
    (ho : opcode ≠ WsOpcode.close) :
    Performed s env wsRoutes sd buffer req pre wsRoutes
      (pre ++ dispatchWebSocket env wsRoutes sd buffer)
  | handshake (message : Bytes) (hws : wsRoutes ≠ []) (hf : getWebSocketFrame buffer = none)
    (hh : processWebsocketHandshake req = .ok (some message)) (hs : env.sent message = true) :
    Performed s env wsRoutes sd buffer req pre
      (updateWsRoute req.normalizePath req.query sd wsRoutes).1
      (pre ++ (.send message true ::
        .upgrade req.normalizePath req.query
          (updateWsRoute req.normalizePath req.query sd wsRoutes).2 ::
        dispatchWebSocket env (updateWsRoute req.normalizePath req.query sd wsRoutes).1 sd buffer))
  | request (sends answered : List Action) (hf : wsRoutes = [] ∨ getWebSocketFrame buffer = none)
    (hsends : ∀ act ∈ sends, ∃ message, act = .send message false)
    (hr : Routed s req answered) :
    Performed s env wsRoutes sd buffer req pre wsRoutes (pre ++ (sends ++ answered))

/-- The plain request, which three branches end in. -/
theorem Performed.of_respond {s : Server W} {env : Env W} {wsRoutes wsRoutes' : List (WsRoute W)}
    {sd : Int} {buffer : Bytes} {req : Request} {res : Response} {pre actions : List Action}
    (sends : List Action) (hf : wsRoutes = [] ∨ getWebSocketFrame buffer = none)
    (hsends : ∀ act ∈ sends, ∃ message, act = .send message false)
    (h : ((respond s env req res).bind fun answered => .ok (wsRoutes, pre ++ (sends ++ answered))) =
      .ok (wsRoutes', actions)) :
    Performed s env wsRoutes sd buffer req pre wsRoutes' actions := by
  obtain ⟨answered, hr, h⟩ := bind_eq_ok h
  obtain ⟨rfl, rfl⟩ := Prod.mk.inj (Except.ok.inj h)
  exact .request sends answered hf hsends (respond_routed hr)

theorem performRequest_cases {s : Server W} {env : Env W} {wsRoutes wsRoutes' : List (WsRoute W)}
    {sd : Int} {buffer : Bytes} {actions : List Action}
    (h : s.performRequest env wsRoutes sd buffer = .ok (wsRoutes', actions)) :
    ∃ req, Request.ofRaw buffer = .ok req ∧
      Performed s env wsRoutes sd buffer req
        (callHandler s.preRoutingHandler env.world req
          (Response.make env.unset s.defaultHeaders sd)).2 wsRoutes' actions := by
  obtain ⟨req, hreq⟩ := Request.ofRaw_total buffer
  refine ⟨req, hreq, ?_⟩
  unfold performRequest at h
  simp only [hreq, bind, Except.bind] at h
  split at h
  · next hws =>
    cases hf : getWebSocketFrame buffer with
    | some opcode =>
      simp only [hf] at h
      split at h
      · next hclose =>
        cases h
        exact .close hws (hclose ▸ hf)
      · next hclose =>
        cases h
        exact .frame opcode hws hf hclose
    | none =>
      simp only [hf] at h
      cases hh : processWebsocketHandshake req with
      | error fault => simp [hh] at h
      | ok message? =>
        simp only [hh] at h
        cases message? with
        | none => exact .of_respond [] (.inr hf) (fun act hact => absurd hact List.not_mem_nil) h
        | some message =>
          simp only at h
          split at h
          · next hsent =>
            cases h
            exact .handshake message hws hf hh hsent
          · refine .of_respond [.send message false] (.inr hf) (fun act hact => ?_) h
            exact ⟨message, List.mem_singleton.mp hact⟩
  · next hws =>
    exact .of_respond [] (.inl (by simpa using hws))
      (fun act hact => absurd hact List.not_mem_nil) h

/-- A request leaves the paths and the handlers of the WebSocket routes alone. -/
theorem performRequest_fixed {s : Server W} {env : Env W} {wsRoutes wsRoutes' : List (WsRoute W)}
    {sd : Int} {buffer : Bytes} {actions : List Action}
    (h : s.performRequest env wsRoutes sd buffer = .ok (wsRoutes', actions)) :
    wsRoutes'.map (fun r => (r.path, r.handler)) = wsRoutes.map fun r => (r.path, r.handler) := by
  obtain ⟨req, _, hp⟩ := performRequest_cases h
  cases hp with
  | close => rfl
  | frame => rfl
  | handshake => exact updateWsRoute_fixed ..
  | request => rfl

theorem dispatchWebSocket_quiet {wsRoutes : List (WsRoute W)} (hq : QuietRoutes wsRoutes)
    (env : Env W) (sd : Int) (buffer : Bytes) :
    ∀ act ∈ dispatchWebSocket env wsRoutes sd buffer, ∃ path ws, act = .dispatch path ws := by
  unfold dispatchWebSocket
  intro act hact
  cases hr : getWsRouteBySocketId sd wsRoutes with
  | none =>
    rw [hr] at hact
    exact absurd hact List.not_mem_nil
  | some route =>
    have hmem : route ∈ wsRoutes := List.mem_of_find?_eq_some hr
    simp only [hr, hq route hmem, List.map_nil] at hact
    exact ⟨_, _, List.mem_singleton.mp hact⟩

/-- The server itself closes a descriptor only by a Close frame. -/
theorem performRequest_close {s : Server W} {env : Env W} {wsRoutes wsRoutes' : List (WsRoute W)}
    {sd : Int} {buffer : Bytes} {actions : List Action}
    (hn : wsRoutes = [] ∨ getWebSocketFrame buffer ≠ some WsOpcode.close)
    (h : s.performRequest env wsRoutes sd buffer = .ok (wsRoutes', actions)) (fd : Int) :
    Action.close fd ∉ actions := by
  obtain ⟨req, _, hp⟩ := performRequest_cases h
  obtain ⟨closed, hpre, _⟩ := callHandler_actions s.preRoutingHandler env.world req
    (Response.make env.unset s.defaultHeaders sd)
  rw [hpre] at hp
  have hclosed : ∀ closed : List Int, Action.close fd ∉ closed.map Action.handlerClose := by
    intro closed hact
    obtain ⟨_, _, heq⟩ := List.mem_map.mp hact
    cases heq
  have hdispatch : ∀ wsRoutes, Action.close fd ∉ dispatchWebSocket env wsRoutes sd buffer := by
    intro wsRoutes hact
    unfold dispatchWebSocket at hact
    cases hr : getWsRouteBySocketId sd wsRoutes with
    | none =>
      rw [hr] at hact
      cases hact
    | some route =>
      rw [hr] at hact
      exact hclosed _ ((List.mem_cons.mp hact).resolve_left nofun)
  cases hp with
  | close hws hf => exact absurd hf (hn.resolve_left hws)
  | frame => exact List.not_mem_append (hclosed closed) (hdispatch _)
  | handshake =>
    refine List.not_mem_append (hclosed closed) fun hact =>
      hdispatch (updateWsRoute req.normalizePath req.query sd wsRoutes).1 ?_
    exact (List.mem_cons.mp ((List.mem_cons.mp hact).resolve_left nofun)).resolve_left nofun
  | request sends answered _ hsends hr =>
    refine List.not_mem_append (hclosed closed) (List.not_mem_append (fun hact => ?_) fun hact => ?_)
    · obtain ⟨message, heq⟩ := hsends _ hact
      cases heq
    · exact hr.plain _ hact

/-- Quiet handlers close nothing. -/
theorem performRequest_quiet {s : Server W} {env : Env W} {wsRoutes wsRoutes' : List (WsRoute W)}
    {sd : Int} {buffer : Bytes} {actions : List Action} (hs : s.Quiet) (hq : QuietRoutes wsRoutes)
    (h : s.performRequest env wsRoutes sd buffer = .ok (wsRoutes', actions)) (fd : Int) :
    Action.handlerClose fd ∉ actions := by
  obtain ⟨req, _, hp⟩ := performRequest_cases h
  obtain ⟨closed, hpre, hquiet⟩ := callHandler_actions s.preRoutingHandler env.world req
    (Response.make env.unset s.defaultHeaders sd)
  rw [hpre, hquiet hs.pre, List.map_nil] at hp
  have hdispatch : ∀ {wsRoutes}, QuietRoutes wsRoutes →
      Action.handlerClose fd ∉ dispatchWebSocket env wsRoutes sd buffer := by
    intro wsRoutes hq hact
    obtain ⟨path, ws, heq⟩ := dispatchWebSocket_quiet hq env sd buffer _ hact
    cases heq
  cases hp with
  | close hws hf => exact fun hact => absurd (List.mem_singleton.mp hact) nofun
  | frame => exact hdispatch hq
  | handshake =>
    refine fun hact =>
      hdispatch (hq.of_fixed (updateWsRoute_fixed req.normalizePath req.query sd wsRoutes)) ?_
    exact (List.mem_cons.mp ((List.mem_cons.mp hact).resolve_left nofun)).resolve_left nofun
  | request sends answered _ hsends hr =>
    show Action.handlerClose fd ∉ sends ++ answered
    refine List.not_mem_append (fun hact => ?_) fun hact => hr.quiet hs _ hact fd rfl
    obtain ⟨message, heq⟩ := hsends _ hact
    cases heq

/-! ### WebSocket handlers called -/

/-- The call a lookup of the descriptor leads to, if any. -/
def dispatched (wsRoutes : List (WsRoute W)) (sd : Int) (buffer : Bytes) :
    List (Bytes × WebSocket) :=
  ((getWsRouteBySocketId sd wsRoutes).map fun route =>
    (route.path, WebSocket.make sd buffer route.query)).toList

theorem dispatchWebSocket_websocket (env : Env W) (wsRoutes : List (WsRoute W)) (sd : Int)
    (buffer : Bytes) :
    upgrades (dispatchWebSocket env wsRoutes sd buffer) = [] ∧
    dispatches (dispatchWebSocket env wsRoutes sd buffer) = dispatched wsRoutes sd buffer := by
  unfold dispatchWebSocket dispatched
  cases getWsRouteBySocketId sd wsRoutes with
  | none => exact ⟨rfl, rfl⟩
  | some route => simp [upgrades, dispatches, List.filterMap_map]

theorem handled_dispatchWebSocket (env : Env W) (wsRoutes : List (WsRoute W)) (sd : Int)
    (buffer : Bytes) : handled (dispatchWebSocket env wsRoutes sd buffer) = [] := by
  unfold dispatchWebSocket
  cases getWsRouteBySocketId sd wsRoutes with
  | none => rfl
  | some route => exact handled_closes _

/-- The bytes are a handshake that is answered to the end: the request it makes. -/
def acceptedHandshake (env : Env W) (buffer : Bytes) : Option Request :=
  match getWebSocketFrame buffer, Request.ofRaw buffer with
  | none, .ok req =>
    match processWebsocketHandshake req with
    | .ok (some message) => if env.sent message then some req else none
    | _ => none
  | _, _ => none

theorem acceptedHandshake_eq_some {env : Env W} {buffer : Bytes} {req : Request}
    (h : acceptedHandshake env buffer = some req) :
    getWebSocketFrame buffer = none ∧ Request.ofRaw buffer = .ok req ∧
      ∃ message, processWebsocketHandshake req = .ok (some message) ∧
        env.sent message = true := by
  unfold acceptedHandshake at h
  split at h
  · next req' hf hreq =>
    split at h
    · next message hh =>
      split at h
      · next hsent =>
        cases h
        exact ⟨hf, hreq, message, hh, hsent⟩
      · cases h
    · cases h
  · cases h

/-- **What a buffer means for the WebSocket routes**: an accepted handshake binds its
route and calls a handler, a frame calls one, and anything else does neither. -/
theorem performRequest_websocket {s : Server W} {env : Env W}
    {wsRoutes wsRoutes' : List (WsRoute W)} {sd : Int} {buffer : Bytes} {actions : List Action}
    (h : s.performRequest env wsRoutes sd buffer = .ok (wsRoutes', actions)) :
    (∃ req, acceptedHandshake env buffer = some req ∧ getWebSocketFrame buffer = none ∧
      wsRoutes' = (updateWsRoute req.normalizePath req.query sd wsRoutes).1 ∧
      upgrades actions = [(req.normalizePath, req.query,
        (updateWsRoute req.normalizePath req.query sd wsRoutes).2)] ∧
      dispatches actions = dispatched wsRoutes' sd buffer) ∨
    (wsRoutes' = wsRoutes ∧ upgrades actions = [] ∧
      ((∃ opcode, getWebSocketFrame buffer = some opcode ∧ opcode ≠ WsOpcode.close ∧
        wsRoutes ≠ [] ∧ dispatches actions = dispatched wsRoutes sd buffer) ∨
      ((wsRoutes = [] ∨ getWebSocketFrame buffer = none ∨
          getWebSocketFrame buffer = some WsOpcode.close) ∧ dispatches actions = []))) := by
  obtain ⟨req, hreq, hp⟩ := performRequest_cases h
  obtain ⟨closed, hpre, _⟩ := callHandler_actions s.preRoutingHandler env.world req
    (Response.make env.unset s.defaultHeaders sd)
  obtain ⟨hpreu, hpred⟩ := plain_websocket (plain_closes closed)
  rw [hpre] at hp
  cases hp with
  | close hws hf =>
    refine .inr ⟨rfl, ?_, .inr ⟨.inr (.inr hf), ?_⟩⟩
    · rw [upgrades_append, hpreu]
      rfl
    · rw [dispatches_append, hpred]
      rfl
  | frame opcode hws hf ho =>
    obtain ⟨hu, hd⟩ := dispatchWebSocket_websocket env wsRoutes sd buffer
    refine .inr ⟨rfl, ?_, .inl ⟨opcode, hf, ho, hws, ?_⟩⟩
    · rw [upgrades_append, hpreu, hu, List.nil_append]
    · rw [dispatches_append, hpred, hd, List.nil_append]
  | handshake message hws hf hh hs =>
    refine .inl ⟨req, by simp [acceptedHandshake, hf, hreq, hh, hs], hf, rfl, ?_, ?_⟩
    · rw [upgrades_append, hpreu, List.nil_append]
      exact congrArg (List.cons _) (dispatchWebSocket_websocket ..).1
    · rw [dispatches_append, hpred, List.nil_append]
      exact (dispatchWebSocket_websocket ..).2
  | request sends answered hf hsends hr =>
    obtain ⟨hu, hd⟩ := plain_websocket (plain_append (plain_sends hsends) hr.plain)
    refine .inr ⟨rfl, ?_, .inr ⟨hf.imp_right .inl, ?_⟩⟩
    · rw [upgrades_append, hpreu, hu, List.nil_append]
    · rw [dispatches_append, hpred, hd, List.nil_append]

/-- A frame never ends the loop. -/
theorem performRequest_frame_ok (s : Server W) (env : Env W) {wsRoutes : List (WsRoute W)}
    (sd : Int) {buffer : Bytes} {opcode : WsOpcode} (hws : wsRoutes ≠ [])
    (hf : getWebSocketFrame buffer = some opcode) :
    ∃ result, s.performRequest env wsRoutes sd buffer = .ok result := by
  obtain ⟨req, hreq⟩ := Request.ofRaw_total buffer
  unfold performRequest
  simp only [hreq, bind, Except.bind, hws, ne_eq, not_false_eq_true, if_true, hf]
  split
  · exact ⟨_, rfl⟩
  · exact ⟨_, rfl⟩

end Server
end HttpServer
