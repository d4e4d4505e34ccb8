import HttpServer.Server.Bindings
import HttpServer.Utils.Text

/-! For whom a WebSocket handler is called.

A route is bound to a descriptor number, and nothing in a connection's life takes
the binding back. As long as no bound number is handed out again, whoever has
the number is the one that made the handshake (`Entitled`). -/
namespace HttpServer
open Lib Lib.Tenure Lib.Runs

variable {W : Type}

/-! ### What a history says about a connection -/

/-- The latest of a connection's requests that `f` finds something in. -/
def latest {β : Type} (f : List Action → Option β) (conn : Nat) : List Event → Option β
  | [] => none
  | .received _ c _ actions :: older =>
    if c = conn then (f actions).or (latest f conn older) else latest f conn older
  | _ :: older => latest f conn older

def handshakeOn (path : Bytes) (actions : List Action) : Option (Map Bytes Bytes) :=
  ((upgrades actions).find? fun u => decide (u.1 = path)).map fun u => u.2.1

/-- The query of the connection's latest handshake on a path. -/
def lastHandshake (log : List Event) (conn : Nat) (path : Bytes) : Option (Map Bytes Bytes) :=
  latest (handshakeOn path) conn log

theorem latest_received {β : Type} (f : List Action → Option β) (conn c : Nat) (fd : Int)
    (bytes : Bytes) (actions : List Action) (log : List Event) :
    latest f conn (.received fd c bytes actions :: log) =
      if c = conn then (f actions).or (latest f conn log) else latest f conn log := rfl

/-- A request that `f` finds nothing in changes nothing. -/
theorem latest_received_none {β : Type} {f : List Action → Option β} {actions : List Action}
    (h : f actions = none) (fd : Int) (conn c : Nat) (bytes : Bytes) (log : List Event) :
    latest f c (.received fd conn bytes actions :: log) = latest f c log := by
  rw [latest_received, h, Option.none_or, ite_self]

theorem latest_logActions {β : Type} (f : List Action → Option β) (c conn : Nat)
    (actions : List Action) (log : List Event) :
    latest f c (logActions conn actions log) = latest f c log :=
  logActions_induction (fun _ _ _ => rfl) (fun _ _ => rfl) conn actions log

/-! ### What comes behind a handshake -/

/-- What stands behind the empty line of a request. -/
def behindHead (bytes : Bytes) : Bytes :=
  match Search.findFrom (crlf ++ crlf) bytes 0 with
  | none => []
  | some headEnd => bytes.drop (headEnd + 4)

/-- How long a request says its body is. -/
def bodyLength (bytes : Bytes) : Nat :=
  match Request.ofRaw bytes with
  | .error _ => 0
  | .ok req =>
    match req.headers.lookup (text "Content-Length") with
    | none => 0
    | some digits => if digits.all Utils.isDigit then Utils.decimalValue digits else 0

/-- What has come of a connection's stream behind a request. -/
structure Sent where
  /-- What is still to come of the request's body. -/
  pending : Nat
  stream : Bytes
  deriving DecidableEq

def Sent.more (sent : Sent) (bytes : Bytes) : Sent :=
  {pending := sent.pending - bytes.length, stream := sent.stream ++ bytes.drop sent.pending}

/-- What comes in one piece with the request. -/
def Sent.behind (bytes : Bytes) : Sent :=
  Sent.more {pending := bodyLength bytes, stream := []} (behindHead bytes)

/-- What the connection has sent behind the latest of its requests that `begins` holds of. -/
def sentBehind (begins : List Action → Bool) (conn : Nat) : List Event → Option Sent
  | [] => none
  | .received _ c bytes actions :: older =>
    if c = conn then
      if begins actions then some (.behind bytes)
      else (sentBehind begins conn older).map (Sent.more · bytes)
    else sentBehind begins conn older
  | _ :: older => sentBehind begins conn older

/-! ### The property -/

/-- A handler called because of a frame is that of a path on which the connection
has made its handshake, and is given that handshake's query. -/
def Entitled (older : List Event) : Event → Prop
  | .received _ conn bytes actions => (getWebSocketFrame bytes).isSome = true →
    ∀ d ∈ dispatches actions, lastHandshake older conn d.1 = some d.2.query
  | _ => True

instance (older : List Event) : (e : Event) → Decidable (Entitled older e)
  | .received _ conn bytes actions =>
    inferInstanceAs (Decidable ((getWebSocketFrame bytes).isSome = true →
      ∀ d ∈ dispatches actions, lastHandshake older conn d.1 = some d.2.query))
  | .accept _ | .shutdown _ _ | .close _ _ | .handlerClose _ => isTrue trivial

/-- The rule of the good runs: no descriptor is handed out that a route is bound to. -/
def UnboundAccept (srv : Server W) (s : State W) (a : Answer W) : Prop :=
  ∀ fd ∈ accepting srv s a, ∀ r ∈ s.wsRoutes, r.sockfd ≠ fd

instance (srv : Server W) (s : State W) (a : Answer W) : Decidable (UnboundAccept srv s a) :=
  inferInstanceAs (Decidable (∀ fd ∈ accepting srv s a, ∀ r ∈ s.wsRoutes, r.sockfd ≠ fd))

/-- Whoever has a bound descriptor has made the handshake the binding comes from. -/
structure Bound (s : State W) : Prop where
  paths : (s.wsRoutes.map WsRoute.path).Nodup
  made : ∀ r ∈ s.wsRoutes, ∀ conn, connection s.log r.sockfd = some conn →
    lastHandshake s.log conn r.path = some r.query
  entitled : Throughout Entitled s.log

/-! ### Steps -/

theorem paths_of_fixed {wsRoutes wsRoutes' : List (WsRoute W)}
    (hfix : wsRoutes'.map (fun r => (r.path, r.handler)) =
      wsRoutes.map fun r => (r.path, r.handler)) :
    wsRoutes'.map WsRoute.path = wsRoutes.map WsRoute.path := by
  have h := congrArg (List.map Prod.fst) hfix
  rwa [List.map_map, List.map_map] at h

/-- Accepting a number that is bound to nothing. -/
theorem Bound.acceptOne {s : State W} (fd : Int) (h : Bound s)
    (hfd : ∀ r ∈ s.wsRoutes, r.sockfd ≠ fd) : Bound (acceptOne s fd) := by
  refine ⟨h.paths, fun r hr conn hconn => ?_, .cons trivial h.entitled⟩
  have hconn' : connection s.log r.sockfd = some conn := by
    have hne : r.sockfd ≠ fd := hfd r hr
    simpa [HttpServer.acceptOne, hne] using hconn
  exact h.made r hr conn hconn'

/-- What a request does to bindings and histories: the case of a handshake. -/
theorem Bound.handshake {s : State W} (h : Bound s) {fd : Int} {conn : Nat}
    (hconn : connection s.log fd = some conn) {bytes : Bytes} {actions : List Action}
    {path : Bytes} {query : Map Bytes Bytes} {found : Bool}
    (hu : upgrades actions = [(path, query, found)]) {r : WsRoute W}
    (hr : r ∈ (updateWsRoute path query fd s.wsRoutes).1) {c : Nat}
    (hc : connection s.log r.sockfd = some c) :
    lastHandshake (.received fd conn bytes actions :: s.log) c r.path = some r.query := by
  rw [lastHandshake, latest_received, handshakeOn, hu]
  rcases mem_updateWsRoute h.paths hr with ⟨hpath, hsock, hquery⟩ | ⟨hpath, hold⟩
  · have hcc : conn = c := by
      rw [hsock, hconn] at hc
      exact Option.some.inj hc
    simp [hcc, hpath, hquery]
  · have hmade := h.made r hold c hc
    have hmiss : decide (path = r.path) = false := decide_eq_false (Ne.symm hpath)
    rw [List.find?_cons, hmiss]
    simp only [List.find?_nil, Option.map_none, Option.none_or, ite_self]
    exact hmade

/-- The handler called because of a frame. -/
theorem Bound.dispatch {srv : Server W} {env : Env W} {s : State W} (h : Bound s) {fd : Int}
    {conn : Nat} (hconn : connection s.log fd = some conn) {bytes : Bytes}
    {wsRoutes : List (WsRoute W)} {actions : List Action}
    (hperf : srv.performRequest env s.wsRoutes fd bytes = .ok (wsRoutes, actions))
    (hframe : (getWebSocketFrame bytes).isSome = true) {d : Bytes × WebSocket}
    (hd : d ∈ dispatches actions) : lastHandshake s.log conn d.1 = some d.2.query := by
  rcases Server.performRequest_websocket hperf with
    ⟨req, _, hf, _⟩ | ⟨_, _, ⟨opcode, _, _, _, hdisp⟩ | ⟨_, hdisp⟩⟩
  · rw [hf] at hframe
    cases hframe
  · rw [hdisp] at hd
    obtain ⟨r, hr, hsock, rfl⟩ := mem_dispatched hd
    exact h.made r hr conn (hsock ▸ hconn)
  · rw [hdisp] at hd
    cases hd

/-- A request without a handshake says nothing new about handshakes. -/
theorem lastHandshake_received {actions : List Action} (hu : upgrades actions = []) (fd : Int)
    (conn c : Nat) (bytes path : Bytes) (log : List Event) :
    lastHandshake (.received fd conn bytes actions :: log) c path = lastHandshake log c path :=
  latest_received_none (by rw [handshakeOn, hu]; rfl) fd conn c bytes log

/-- The handlers called in a step. -/
theorem Bound.entitled_step {srv : Server W} {s : State W} (h : Bound s) (a : Answer W) :
    Throughout Entitled (step srv s a).log := by
  refine throughout_step s a (fun older e he => ?_) (fun fd conn bytes fault _ _ _ d hd => ?_)
    (fun fd conn bytes wsRoutes actions hr hperf hframe d hd => ?_) h.entitled
  · cases e with
    | received => exact absurd trivial he
    | _ => trivial
  · exact absurd hd List.not_mem_nil
  · exact h.dispatch (of_receiving hr).1 hperf hframe hd

theorem bound_step {srv : Server W} (s : State W) (a : Answer W) (h : Bound s)
    (hn : UnboundAccept srv s a) : Bound (step srv s a) := by
  have hpaths : ((step srv s a).wsRoutes.map WsRoute.path).Nodup := by
    rw [paths_of_fixed (step_fixed srv s a)]
    exact h.paths
  refine ⟨hpaths, ?_, h.entitled_step a⟩
  have hstep := step_cases srv s a
  generalize step srv s a = s' at hstep ⊢
  cases hstep with
  | still => exact h.made
  | halted fault => exact h.made
  | polled revents hc => exact h.made
  | finished closedSockets hc => exact h.made
  | skipped p todo closedSockets hc => exact h.made
  | listened p todo closedSockets hc hp =>
    have hall : Bound ((accepting srv s a).foldl acceptOne s) ∧
        ((accepting srv s a).foldl acceptOne s).wsRoutes = s.wsRoutes := by
      refine accepting_induction (Q := fun s' => Bound s' ∧ s'.wsRoutes = s.wsRoutes)
        (R := fun fd => ∀ r ∈ s.wsRoutes, r.sockfd ≠ fd) (fun s' fd hs' hfd _ _ => ?_) a
        ⟨h, rfl⟩ hn
      exact ⟨hs'.1.acceptOne fd (by rwa [hs'.2]), hs'.2⟩
    exact hall.1.made
  | dropped p todo closedSockets hc hp =>
    intro r hr conn hconn
    rw [connection_dropClient] at hconn
    split at hconn
    · cases hconn
    · exact h.made r hr conn hconn
  | faulted p todo closedSockets hc conn bytes hconn hr fault hperf =>
    intro r hr c hc'
    have hrest : ∀ path,
        lastHandshake (.received p.fd conn bytes [] :: s.log) c path = lastHandshake s.log c path :=
      fun path => lastHandshake_received rfl p.fd conn c bytes path s.log
    rw [hrest]
    exact h.made r hr c hc'
  | performed p todo closedSockets hc hp conn bytes hconn hr wsRoutes actions hperf =>
    intro r hr c hc'
    have hc'' : connection (.received p.fd conn bytes actions :: s.log) r.sockfd = some c :=
      connection_logActions hc'
    show lastHandshake (logActions conn actions _) c r.path = some r.query
    rw [lastHandshake, latest_logActions]
    rcases Server.performRequest_websocket hperf with
      ⟨req, _, _, rfl, hu, _⟩ | ⟨rfl, hu, _⟩
    · exact h.handshake hconn hu hr hc''
    · exact (lastHandshake_received hu p.fd conn c bytes r.path s.log).trans (h.made r hr c hc'')

/-! ### Runs -/

theorem Bound.initial (registrations : List (Bytes × WsHandler W)) :
    Bound (State.initial (wsRoutesOf registrations)) :=
  ⟨wsRoutesOf_paths registrations, fun _ _ _ hconn => (nomatch hconn), .nil⟩

/-- **A frame reaches only handlers its connection made a handshake for**, with the
query of that handshake, if no bound descriptor is handed out again. -/
theorem frame_reaches_own_handler (srv : Server W) (registrations : List (Bytes × WsHandler W))
    (answers : List (Answer W))
    (hn : Along (step srv) (UnboundAccept srv) (State.initial (wsRoutesOf registrations))
      answers) :
    Throughout Entitled
      (runLoop srv (State.initial (wsRoutesOf registrations)) answers).log :=
  (invariant_run (fun s a => bound_step s a) (Bound.initial registrations) hn).entitled

/-- A handshake as a client writes it. -/
def handshakeOf (target : Bytes) : Bytes :=
  text "GET " ++ target ++ text " HTTP/1.1\r\nUpgrade: websocket\r\nConnection: Upgrade\r\n" ++
    text "Sec-WebSocket-Key: AAAAAAAAAAAAAAAAAAAAAA==\r\n\r\n"

/-- A handshake on `/ws`, and an empty text message. -/
def handshakeWs : Chunk := ⟨handshakeOf (text "/ws"), by decide +kernel⟩

def emptyMessage : Chunk := ⟨[0x81, 0x00], by decide⟩

def wsRegistration : List (Bytes × WsHandler Unit) := [(text "/ws", fun _ _ => [])]

theorem frame_reaches_own_handler_once :
    Throughout Entitled (runLoop bareServer (State.initial (wsRoutesOf wsRegistration))
      [.ready 3 pollIn, .accept [5], .nothing, .ready 5 pollIn, .nothing, .data handshakeWs,
        .nothing, .ready 5 pollIn, .nothing, .data emptyMessage]).log :=
  frame_reaches_own_handler bareServer wsRegistration
    [.ready 3 pollIn, .accept [5], .nothing, .ready 5 pollIn, .nothing, .data handshakeWs,
      .nothing, .ready 5 pollIn, .nothing, .data emptyMessage] (by decide +kernel)

/-- The route stays bound when its connection hangs up, and the next connection with
the number speaks to its handler without a handshake. -/
theorem binding_outlives_connection :
    ¬ ∀ (srv : Server Unit) (registrations : List (Bytes × WsHandler Unit))
        (answers : List (Answer Unit)),
      Throughout Entitled
        (runLoop srv (State.initial (wsRoutesOf registrations)) answers).log := by
  intro h
  have hentitled := h bareServer wsRegistration
    [.ready 3 pollIn, .accept [5], .nothing, .ready 5 pollIn, .nothing, .data handshakeWs,
      .nothing, .ready 5 pollHup, .nothing, .nothing, .nothing,
      .ready 3 pollIn, .accept [5], .nothing, .ready 5 pollIn, .nothing, .data emptyMessage]
  revert hentitled
  decide +kernel

end HttpServer
