import HttpServer.Server.Authentic
import HttpServer.WebSocket.Format

/-! Which frames reach their handler.

A route has room for one descriptor. A second client's handshake on a path takes
the route away from the first, and a connection whose number an earlier route is
bound to is looked up there. Where neither happens, and a frame comes in one
`recv` that holds nothing else, every final frame of a connection's stream reaches
the handler of its handshake's path once (`Delivered`). -/
namespace HttpServer
open Lib Lib.Tenure Lib.Runs

variable {W : Type}

/-! ### The property -/

/-- The first handshake of these actions on a path that has a route. -/
def boundBy (actions : List Action) : Option (Bytes × Map Bytes Bytes) :=
  ((upgrades actions).find? fun u => u.2.2).map fun u => (u.1, u.2.1)

/-- The path and the query of the connection's latest handshake on a registered path. -/
def lastBound (log : List Event) (conn : Nat) : Option (Bytes × Map Bytes Bytes) :=
  latest boundBy conn log

/-- What the connection has sent behind that handshake. -/
def streamOf (conn : Nat) (log : List Event) : Sent :=
  (sentBehind (fun actions => (boundBy actions).isSome) conn log).getD {pending := 0, stream := []}

def finalFrames (stream : Bytes) : List Bytes := (frames stream).filter fun f => decide (Final f)

/-- The final frames that become complete with these bytes: those behind the frames
that were complete before. -/
def completed (older : List Event) (conn : Nat) (bytes : Bytes) : List Bytes :=
  ((frames ((streamOf conn older).more bytes).stream).drop
    (frames (streamOf conn older).stream).length).filter fun f => decide (Final f)

/-- No final frame of a stream becomes complete twice, and none is left out. -/
theorem final_completed (older : List Event) (conn : Nat) (bytes : Bytes) :
    finalFrames (streamOf conn older).stream ++ completed older conn bytes =
      finalFrames ((streamOf conn older).more bytes).stream := by
  obtain ⟨new, hnew⟩ := frames_append (streamOf conn older).stream
    (bytes.drop (streamOf conn older).pending)
  have hmore : ((streamOf conn older).more bytes).stream =
      (streamOf conn older).stream ++ bytes.drop (streamOf conn older).pending := rfl
  rw [completed, finalFrames, finalFrames, hmore, ← hnew, List.drop_left, List.filter_append]

/-- Where a connection has made its handshake, each final frame that becomes complete
is given once to the handler of the path, with the socket and the query; where it makes its
handshake, each that comes with it is, behind the call for the handshake itself. -/
def Delivered (older : List Event) : Event → Prop
  | .received fd conn bytes actions =>
    (∀ path query, lastBound older conn = some (path, query) → completed older conn bytes ≠ [] →
      dispatches actions =
        (completed older conn bytes).map fun f => (path, WebSocket.make fd f query)) ∧
    ∀ path query, boundBy actions = some (path, query) →
      (dispatches actions).tail =
        (finalFrames (Sent.behind bytes).stream).map fun f => (path, WebSocket.make fd f query)
  | _ => True

/-- What a good run must not do when it handles these bytes of a connection. -/
structure Undisturbed (s : State W) (env : Env W) (fd : Int) (conn : Nat) (bytes : Bytes) :
    Prop where
  /-- Final frames come one at a time and whole, and have opcodes the server knows. -/
  oneFrame : (lastBound s.log conn).isSome → completed s.log conn bytes ≠ [] →
    completed s.log conn bytes = [bytes] ∧ opcodeBits bytes ≤ 0xA
  /-- None comes in one piece with a handshake on a path that has a route. -/
  apart : ∀ req, Server.acceptedHandshake env bytes = some req →
    (∃ r ∈ s.wsRoutes, r.path = req.normalizePath) → finalFrames (Sent.behind bytes).stream = []
  /-- A handshake takes no route from another open connection, and no route in front
  of it is bound to the descriptor. -/
  handshake : ∀ req, Server.acceptedHandshake env bytes = some req →
    ∀ before r after, s.wsRoutes = before ++ r :: after → r.path = req.normalizePath →
    (∀ r' ∈ before, r'.sockfd ≠ fd) ∧
    ∀ fd' c query, connection s.log fd' = some c → c ≠ conn →
      lastBound s.log c ≠ some (r.path, query)

/-- The rule of the good runs. -/
def NoDisturbance (srv : Server W) (s : State W) (a : Answer W) : Prop :=
  ∀ fd conn bytes, receiving srv s a = some (fd, conn, bytes) → Undisturbed s a.env fd conn bytes

/-- Whoever made a handshake is found by its descriptor in that handshake's route. -/
structure Found (s : State W) : Prop where
  paths : (s.wsRoutes.map WsRoute.path).Nodup
  known : ∀ conn bound, lastBound s.log conn = some bound → conn < openings Event.effect s.log
  found : ∀ fd conn path query, connection s.log fd = some conn →
    lastBound s.log conn = some (path, query) →
    ∃ r, getWsRouteBySocketId fd s.wsRoutes = some r ∧ r.path = path ∧ r.query = query
  delivered : Throughout Delivered s.log

/-! ### Steps -/

theorem Found.acceptOne {s : State W} (fd : Int) (h : Found s) : Found (acceptOne s fd) := by
  refine ⟨h.paths, fun conn bound hb => ?_, fun fd' conn path query hconn hb => ?_,
    .cons trivial h.delivered⟩
  · exact Nat.lt_succ_of_lt (h.known conn bound hb)
  · have hb' : lastBound s.log conn = some (path, query) := hb
    simp only [HttpServer.acceptOne, connection_accept] at hconn
    split at hconn
    · have hnew : openings Event.effect s.log = conn := Option.some.inj hconn
      exact absurd (h.known conn _ hb') (by omega)
    · exact h.found fd' conn path query hconn hb'

theorem boundBy_nil {actions : List Action} (hu : upgrades actions = []) :
    boundBy actions = none := by
  rw [boundBy, hu]
  rfl

/-- What becomes complete is final, and has its first two bytes. -/
theorem of_mem_completed {older : List Event} {conn : Nat} {bytes f : Bytes}
    (h : f ∈ completed older conn bytes) : Final f ∧ 2 ≤ f.length := by
  obtain ⟨hmem, hfinal⟩ := List.mem_filter.mp h
  exact ⟨of_decide_eq_true hfinal, two_le_of_mem_frames (List.mem_of_mem_drop hmem)⟩

/-- One frame of a connection that has made its handshake: the call succeeds and the
frame goes where the lookup leads. -/
theorem Found.frame {srv : Server W} {s : State W} {env : Env W} (h : Found s) {fd : Int}
    {conn : Nat} (hconn : connection s.log fd = some conn) {bytes path : Bytes}
    {query : Map Bytes Bytes} (hb : lastBound s.log conn = some (path, query))
    (hu : Undisturbed s env fd conn bytes) (hnew : completed s.log conn bytes ≠ []) :
    ∃ wsRoutes actions,
      srv.performRequest env s.wsRoutes fd bytes = .ok (wsRoutes, actions) ∧
      dispatches actions =
        (completed s.log conn bytes).map fun f => (path, WebSocket.make fd f query) := by
  obtain ⟨hone, hop⟩ := hu.oneFrame (by rw [hb]; rfl) hnew
  obtain ⟨hfinal, hlen⟩ := of_mem_completed (hone ▸ List.mem_singleton.mpr rfl)
  obtain ⟨hrec, hclose⟩ := hfinal.recognised hlen hop
  obtain ⟨r, hr, hpath, hquery⟩ := h.found fd conn path query hconn hb
  have hws : s.wsRoutes ≠ [] := by
    intro hnil
    rw [hnil] at hr
    cases hr
  obtain ⟨⟨wsRoutes, actions⟩, hperf⟩ := srv.performRequest_frame_ok env fd hws hrec
  refine ⟨wsRoutes, actions, hperf, ?_⟩
  rcases Server.performRequest_websocket hperf with
    ⟨req, _, hnone, _⟩ | ⟨_, _, ⟨opcode, _, _, _, hdisp⟩ | ⟨hother, _⟩⟩
  · rw [hnone] at hrec
    cases hrec
  · rw [hdisp, Server.dispatched, hr, hone]
    simp [hpath, hquery]
  · rcases hother with hnil | hnone | hcl
    · exact absurd hnil hws
    · rw [hnone] at hrec
      cases hrec
    · rw [hcl] at hrec
      exact absurd (Option.some.inj hrec).symm hclose

/-- Beside the handshake itself a handler is called for nothing that comes with it. -/
theorem dispatched_behind {srv : Server W} {s : State W} {env : Env W} {fd : Int} {bytes : Bytes}
    (hapart : ∀ req, Server.acceptedHandshake env bytes = some req →
      (∃ r ∈ s.wsRoutes, r.path = req.normalizePath) →
        finalFrames (Sent.behind bytes).stream = [])
    {wsRoutes : List (WsRoute W)} {actions : List Action}
    (hperf : srv.performRequest env s.wsRoutes fd bytes = .ok (wsRoutes, actions)) (path : Bytes)
    (query : Map Bytes Bytes) (hb : boundBy actions = some (path, query)) :
    (dispatches actions).tail =
      (finalFrames (Sent.behind bytes).stream).map fun f => (path, WebSocket.make fd f query) := by
  rcases Server.performRequest_websocket hperf with ⟨req, hreq, _, _, hup, hdisp⟩ | ⟨_, hup, _⟩
  · have hroute : ∃ r ∈ s.wsRoutes, r.path = req.normalizePath := by
      rcases route_split req.normalizePath s.wsRoutes with
        habs | ⟨before, r, after, hsplit, _, hr⟩
      · rw [updateWsRoute_absent habs] at hup
        rw [boundBy, hup] at hb
        cases hb
      · rw [hsplit]
        exact ⟨r, List.mem_append_right _ (List.mem_cons_self ..), hr⟩
    rw [hapart req hreq hroute, hdisp, Server.dispatched]
    cases getWsRouteBySocketId fd wsRoutes <;> rfl
  · rw [boundBy_nil hup] at hb
    cases hb

/-- What a handshake on a registered path does to the lookups. -/
theorem Found.handshake {s : State W} {env : Env W} (h : Found s) {fd : Int} {conn : Nat}
    (hconn : connection s.log fd = some conn) {bytes : Bytes}
    (hu : Undisturbed s env fd conn bytes) {req : Request}
    (hreq : Server.acceptedHandshake env bytes = some req) {actions : List Action}
    (hup : upgrades actions = [(req.normalizePath, req.query,
      (updateWsRoute req.normalizePath req.query fd s.wsRoutes).2)])
    {fd' : Int} {c : Nat} {path : Bytes} {query : Map Bytes Bytes}
    (hc : connection s.log fd' = some c)
    (hb : lastBound (.received fd conn bytes actions :: s.log) c = some (path, query)) :
    ∃ r, getWsRouteBySocketId fd'
        (updateWsRoute req.normalizePath req.query fd s.wsRoutes).1 = some r ∧
      r.path = path ∧ r.query = query := by
  rcases route_split req.normalizePath s.wsRoutes with habs | ⟨before, r, after, hsplit, hbef, hr⟩
  · rw [updateWsRoute_absent habs] at hup ⊢
    have hnone : boundBy actions = none := by
      rw [boundBy, hup]
      rfl
    rw [lastBound, latest_received_none hnone] at hb
    exact h.found fd' c path query hc hb
  · obtain ⟨hfirst, hothers⟩ := hu.handshake req hreq before r after hsplit hr
    rw [hsplit, updateWsRoute_present hbef hr] at hup ⊢
    have hsome : boundBy actions = some (req.normalizePath, req.query) := by
      rw [boundBy, hup]
      rfl
    rw [lastBound, latest_received, hsome] at hb
    by_cases hcc : conn = c
    · subst hcc
      have hfd : fd' = fd := holder_inj hc hconn
      subst hfd
      simp only [if_true, Option.some_or, Option.some_inj, Prod.mk.injEq] at hb
      exact ⟨_, getWsRoute_bound hfirst req.query, hr.trans hb.1, hb.2⟩
    · rw [if_neg hcc] at hb
      obtain ⟨r₀, hr₀, hpath, hquery⟩ := h.found fd' c path query hc hb
      have hne : fd' ≠ fd := by
        intro heq
        rw [heq, hconn] at hc
        exact hcc (Option.some.inj hc)
      have hpath' : r₀.path ≠ r.path := by
        intro heq
        refine hothers fd' c query hc (Ne.symm hcc) ?_
        rw [← heq, hpath]
        exact hb
      rw [hsplit] at hr₀
      exact ⟨r₀, getWsRoute_other hne hpath' req.query hr₀, hpath, hquery⟩

/-- The handlers called in a step. -/
theorem Found.delivered_step {srv : Server W} {s : State W} (h : Found s) {a : Answer W}
    (hn : NoDisturbance srv s a) : Throughout Delivered (step srv s a).log := by
  have hgood : ∀ {fd conn bytes path query}, receiving srv s a = some (fd, conn, bytes) →
      lastBound s.log conn = some (path, query) → completed s.log conn bytes ≠ [] →
      ∃ wsRoutes actions,
        srv.performRequest a.env s.wsRoutes fd bytes = .ok (wsRoutes, actions) ∧
        dispatches actions =
          (completed s.log conn bytes).map fun f => (path, WebSocket.make fd f query) :=
    fun hr hb hnew => h.frame (of_receiving hr).1 hb (hn _ _ _ hr) hnew
  refine throughout_step s a (fun older e he => ?_)
    (fun fd conn bytes fault hr hperf => ⟨fun path query hb hnew => ?_, fun path query hb => ?_⟩)
    (fun fd conn bytes wsRoutes actions hr hperf => ⟨fun path query hb hnew => ?_, ?_⟩)
    h.delivered
  · cases e with
    | received => exact absurd trivial he
    | _ => trivial
  · obtain ⟨_, _, hok, _⟩ := hgood hr hb hnew
    rw [hperf] at hok
    cases hok
  · cases hb
  · obtain ⟨_, _, hok, hdisp⟩ := hgood hr hb hnew
    rw [hperf] at hok
    cases hok
    exact hdisp
  · exact dispatched_behind (hn _ _ _ hr).apart hperf

theorem found_step {srv : Server W} (s : State W) (a : Answer W) (h : Found s)
    (hn : NoDisturbance srv s a) : Found (step srv s a) := by
  have hpaths : ((step srv s a).wsRoutes.map WsRoute.path).Nodup := by
    rw [paths_of_fixed (step_fixed srv s a)]
    exact h.paths
  have hdelivered := h.delivered_step hn
  have hstep := step_cases srv s a
  generalize step srv s a = s' at hstep hpaths hdelivered ⊢
  cases hstep with
  | still => exact h
  | halted fault => exact ⟨h.paths, h.known, h.found, h.delivered⟩
  | polled revents hc => exact ⟨h.paths, h.known, h.found, h.delivered⟩
  | finished closedSockets hc => exact ⟨h.paths, h.known, h.found, h.delivered⟩
  | skipped p todo closedSockets hc => exact ⟨h.paths, h.known, h.found, h.delivered⟩
  | listened p todo closedSockets hc hp =>
    have hall : Found ((accepting srv s a).foldl acceptOne s) :=
      accepting_induction (R := fun _ => True) (fun s' fd hs' _ _ _ => hs'.acceptOne fd) a h
        fun _ _ => trivial
    exact ⟨hall.paths, hall.known, hall.found, hall.delivered⟩
  | dropped p todo closedSockets hc hp =>
    refine ⟨h.paths, h.known, fun fd conn path query hconn hb => ?_, hdelivered⟩
    rw [connection_dropClient] at hconn
    split at hconn
    · cases hconn
    · exact h.found fd conn path query hconn hb
  | faulted p todo closedSockets hc conn bytes hconn hr fault hperf =>
    have hsame : ∀ c, lastBound (.received p.fd conn bytes [] :: s.log) c = lastBound s.log c :=
      fun c => latest_received_none rfl p.fd conn c bytes s.log
    exact ⟨h.paths, fun c bound hb => h.known c bound (hsame c ▸ hb),
      fun fd c path query hc' hb => h.found fd c path query hc' (hsame c ▸ hb), hdelivered⟩
  | performed p todo closedSockets hc hp conn bytes hconn hr wsRoutes actions hperf =>
    have hlast : ∀ c, lastBound
        (logActions conn actions (.received p.fd conn bytes actions :: s.log)) c =
          lastBound (.received p.fd conn bytes actions :: s.log) c :=
      fun c => latest_logActions boundBy c conn actions _
    refine ⟨hpaths, fun c bound hb => ?_, fun fd c path query hc' hb => ?_, hdelivered⟩
    · rw [hlast] at hb
      show c < openings Event.effect (logActions conn actions _)
      rw [logActions, openings_append (logActions_opens conn actions)]
      by_cases hcc : conn = c
      · exact hcc ▸ holder_lt hconn
      · rw [lastBound, latest_received, if_neg hcc] at hb
        exact h.known c bound hb
    · rw [hlast] at hb
      have hc'' : connection (.received p.fd conn bytes actions :: s.log) fd = some c :=
        connection_logActions hc'
      rcases Server.performRequest_websocket hperf with
        ⟨req, hreq, _, rfl, hup, _⟩ | ⟨rfl, hup, _⟩
      · exact h.handshake hconn (hn _ _ _ hr) hreq hup hc'' hb
      · rw [lastBound, latest_received_none (boundBy_nil hup)] at hb
        exact h.found fd c path query hc'' hb

/-! ### Runs -/

/-- The first connection, while there is no other, disturbs nobody. -/
theorem undisturbed_alone {s : State W} {env : Env W} {fd : Int} {bytes : Bytes}
    (hroutes : s.wsRoutes.length ≤ 1) (hconns : openings Event.effect s.log ≤ 1)
    (hframe : lastBound s.log 0 = none ∨
      completed s.log 0 bytes = [bytes] ∧ opcodeBits bytes ≤ 0xA)
    (hapart : finalFrames (Sent.behind bytes).stream = []) :
    Undisturbed s env fd 0 bytes := by
  refine ⟨fun hb _ => ?_, fun _ _ _ => hapart, fun req hreq before r after hsplit hr => ?_⟩
  · rcases hframe with hnone | hone
    · rw [hnone] at hb
      cases hb
    · exact hone
  · have hbefore : before = [] := by
      rw [hsplit, List.length_append, List.length_cons] at hroutes
      exact List.length_eq_zero_iff.mp (by omega)
    refine ⟨fun r' hr' => ?_, fun fd' c query hc hne => ?_⟩
    · rw [hbefore] at hr'
      cases hr'
    · have := holder_lt hc
      omega

/-- What `Delivered` says of the number of calls. -/
def Counted (older : List Event) : Event → Prop
  | .received _ conn bytes actions =>
    (lastBound older conn).isSome = true → completed older conn bytes ≠ [] →
      (dispatches actions).length = (completed older conn bytes).length
  | _ => True

instance (older : List Event) : (e : Event) → Decidable (Counted older e)
  | .received _ conn bytes actions =>
    inferInstanceAs (Decidable ((lastBound older conn).isSome = true →
      completed older conn bytes ≠ [] →
        (dispatches actions).length = (completed older conn bytes).length))
  | .accept _ | .shutdown _ _ | .close _ _ | .handlerClose _ => isTrue trivial

theorem counted_of_delivered (older : List Event) (e : Event) (h : Delivered older e) :
    Counted older e := by
  cases e with
  | received fd conn bytes actions =>
    intro hb hnew
    obtain ⟨⟨path, query⟩, hb⟩ := Option.isSome_iff_exists.mp hb
    have hall := h.1 path query hb hnew
    rw [hall, List.length_map]
  | _ => trivial

end HttpServer
