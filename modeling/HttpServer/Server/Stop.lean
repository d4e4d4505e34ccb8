import HttpServer.Server.Authentic
import HttpServer.Server.Registry

/-! What `Server::stop` closes.

It goes through the WebSocket routes and not through the list of clients: it closes each
route's descriptor, whatever that is by then, and the listening socket. A route has the
descriptor of the latest handshake on its path (`Recorded`), so that every socket is closed
once only if the connections that are open are those of the latest handshakes, one for
each path (`stop_closesOnce_iff`). -/
namespace HttpServer
open Lib Lib.Tenure Lib.Runs

variable {W : Type}

/-- `stop()`: the descriptors that `close` is called on, one after the other. -/
def Server.stop (srv : Server W) (wsRoutes : List (WsRoute W)) : List Int :=
  wsRoutes.map WsRoute.sockfd ++ [srv.sockfd]

/-- A connection has the descriptor, or it is the listening socket that nobody has closed. -/
def IsOpen (srv : Server W) (log : List Event) (fd : Int) : Prop :=
  (connection log fd).isSome = true ∨ (fd = srv.sockfd ∧ ∀ e ∈ log, e.effect ≠ .closes fd)

/-- Every open descriptor is closed, once, and nothing else. -/
structure ClosesOnce (isOpen : Int → Prop) (calls : List Int) : Prop where
  once : calls.Nodup
  all : ∀ fd, isOpen fd → fd ∈ calls
  only : ∀ fd ∈ calls, isOpen fd

/-- The descriptor of the latest handshake on a path. -/
def lastBinder (path : Bytes) : List Event → Option Int
  | [] => none
  | .received fd _ _ actions :: older =>
    if path ∈ (upgrades actions).map Prod.fst then some fd else lastBinder path older
  | _ :: older => lastBinder path older

/-- What the route of a path has for a descriptor. -/
def recordedFd (log : List Event) (path : Bytes) : Int := (lastBinder path log).getD (-1)

/-- Every path's latest handshake was made on a descriptor that is open, each on another, and
no other connection is open. -/
structure Covered (srv : Server W) (paths : List Bytes) (log : List Event) : Prop where
  listening : ∀ e ∈ log, e.effect ≠ .closes srv.sockfd
  routes : ∀ path ∈ paths, ∃ fd, lastBinder path log = some fd ∧ (connection log fd).isSome = true
  apart : ∀ path ∈ paths, ∀ path' ∈ paths,
    lastBinder path log = lastBinder path' log → path = path'
  connections : ∀ fd, (connection log fd).isSome = true →
    ∃ path ∈ paths, lastBinder path log = some fd

/-! ### The paths that are registered -/

theorem mem_paths_setWsRoute {wsRoutes : List (WsRoute W)} {path : Bytes} {handler : WsHandler W}
    {path' : Bytes} : path' ∈ (setWsRoute path handler wsRoutes).map WsRoute.path ↔
      path' = path ∨ path' ∈ wsRoutes.map WsRoute.path := by
  simp only [List.mem_map]
  refine ⟨fun ⟨r, hr, hpath⟩ => ?_, fun h => ?_⟩
  · rcases eq_or_mem_of_mem_insertBy hr with rfl | hr
    · exact .inl hpath.symm
    · exact .inr ⟨r, hr, hpath⟩
  · rcases h with rfl | ⟨r, hr, hpath⟩
    · have hput := @mem_or_equiv_insertBy _ WsRoute.Less _
        {sockfd := -1, path := path', handler := handler, query := ∅} wsRoutes
      rcases hput with hnew | ⟨r, hr, hleft, hright⟩
      · exact ⟨_, hnew, rfl⟩
      · exact ⟨r, mem_insertBy_of_mem hr, path_eq_of_equiv hright hleft⟩
    · exact ⟨r, mem_insertBy_of_mem hr, hpath⟩

theorem mem_paths_wsRoutesOf {registrations : List (Bytes × WsHandler W)} {path : Bytes} :
    path ∈ (wsRoutesOf registrations).map WsRoute.path ↔ path ∈ registrations.map Prod.fst := by
  have hfold : ∀ (l : List (Bytes × WsHandler W)) (t : List (WsRoute W)),
      path ∈ (l.foldl (fun wsRoutes r => setWsRoute r.1 r.2 wsRoutes) t).map WsRoute.path ↔
        path ∈ l.map Prod.fst ∨ path ∈ t.map WsRoute.path := by
    intro l
    induction l with
    | nil => simp
    | cons r l ih =>
      intro t
      rw [List.foldl_cons, ih, mem_paths_setWsRoute, List.map_cons, List.mem_cons]
      tauto
  rw [wsRoutesOf, hfold]
  simp

/-! ### What the routes record -/

theorem lastBinder_logActions (path : Bytes) (conn : Nat) (actions : List Action)
    (log : List Event) : lastBinder path (logActions conn actions log) = lastBinder path log :=
  logActions_induction (fun _ _ _ => rfl) (fun _ _ => rfl) conn actions log

/-- A request with a handshake. -/
theorem lastBinder_handshake {path : Bytes} {query : Map Bytes Bytes} {found : Bool}
    {actions : List Action} (hu : upgrades actions = [(path, query, found)]) (path' : Bytes)
    (fd : Int) (conn : Nat) (bytes : Bytes) (log : List Event) :
    lastBinder path' (.received fd conn bytes actions :: log) =
      if path' = path then some fd else lastBinder path' log := by
  rw [lastBinder, hu]
  simp

/-- A request without one. -/
theorem lastBinder_request {actions : List Action} (hu : upgrades actions = []) (path : Bytes)
    (fd : Int) (conn : Nat) (bytes : Bytes) (log : List Event) :
    lastBinder path (.received fd conn bytes actions :: log) = lastBinder path log := by
  rw [lastBinder, hu]
  rfl

/-- Each path once, with the descriptor of the latest handshake on it; and what connections
have are descriptors, other than the listening socket's. -/
structure Recorded (srv : Server W) (s : State W) : Prop where
  paths : (s.wsRoutes.map WsRoute.path).Nodup
  sockfd : ∀ r ∈ s.wsRoutes, r.sockfd = recordedFd s.log r.path
  accepted : ∀ fd, (connection s.log fd).isSome = true → 0 ≤ fd ∧ fd ≠ srv.sockfd

theorem handedOut_nonneg {srv : Server W} {log : List Event} {fds : List Int} {fd : Int}
    (h : fd ∈ handedOut srv log fds) : 0 ≤ fd := by
  induction fds generalizing log with
  | nil => exact absurd h List.not_mem_nil
  | cons next rest ih =>
    unfold handedOut at h
    split at h
    · next hfree =>
      rcases List.mem_cons.mp h with rfl | h
      · exact hfree.1
      · exact ih h
    · exact absurd h List.not_mem_nil

theorem accepting_nonneg {srv : Server W} {s : State W} {a : Answer W} {fd : Int}
    (h : fd ∈ accepting srv s a) : 0 ≤ fd := by
  unfold accepting at h
  split at h
  · split at h
    · exact handedOut_nonneg h
    · exact absurd h List.not_mem_nil
  · exact absurd h List.not_mem_nil

theorem Recorded.acceptOne {srv : Server W} {s : State W} (h : Recorded srv s) {fd : Int}
    (hfd : 0 ≤ fd) (hne : fd ≠ srv.sockfd) : Recorded srv (acceptOne s fd) := by
  refine ⟨h.paths, h.sockfd, fun fd' hconn => ?_⟩
  rw [HttpServer.acceptOne, connection_accept] at hconn
  split at hconn
  · next heq => exact heq ▸ ⟨hfd, hne⟩
  · exact h.accepted fd' hconn

/-- Actions close what they close, and hand nothing out. -/
theorem isSome_of_logActions {conn : Nat} {actions : List Action} {log : List Event} {fd : Int}
    (h : (connection (logActions conn actions log) fd).isSome = true) :
    (connection log fd).isSome = true := by
  obtain ⟨c, hc⟩ := Option.isSome_iff_exists.mp h
  exact Option.isSome_iff_exists.mpr ⟨c, connection_logActions hc⟩

theorem recorded_step {srv : Server W} (s : State W) (a : Answer W) (h : Recorded srv s) :
    Recorded srv (step srv s a) := by
  have hstep := step_cases srv s a
  have hpaths : ((step srv s a).wsRoutes.map WsRoute.path).Nodup := by
    rw [paths_of_fixed (step_fixed srv s a)]
    exact h.paths
  generalize step srv s a = s' at hstep hpaths ⊢
  cases hstep with
  | listened p todo closedSockets hc hp =>
    have hall := accepting_induction (Q := Recorded srv) (R := fun fd => 0 ≤ fd)
      (fun _ _ hs' hfd hne _ => hs'.acceptOne hfd hne) a h fun _ => accepting_nonneg
    exact ⟨hall.paths, hall.sockfd, hall.accepted⟩
  | dropped p todo closedSockets hc hp =>
    refine ⟨h.paths, h.sockfd, fun fd hconn => ?_⟩
    rw [connection_dropClient] at hconn
    split at hconn
    · cases hconn
    · exact h.accepted fd hconn
  | faulted p todo closedSockets hc conn bytes hconn hr fault hperf =>
    exact ⟨h.paths, h.sockfd, h.accepted⟩
  | performed p todo closedSockets hc hp conn bytes hconn hr wsRoutes actions hperf =>
    have hopen : ∀ fd, (connection (logActions conn actions
        (.received p.fd conn bytes actions :: s.log)) fd).isSome = true →
        (connection (.received p.fd conn bytes actions :: s.log) fd).isSome = true :=
      fun _ => isSome_of_logActions
    refine ⟨hpaths, fun r hr => ?_, fun fd hfd => h.accepted fd (hopen fd hfd)⟩
    show r.sockfd = recordedFd (logActions conn actions _) r.path
    rw [recordedFd, lastBinder_logActions]
    rcases Server.performRequest_websocket hperf with ⟨req, _, _, rfl, hu, _⟩ | ⟨rfl, hu, _⟩
    · rw [lastBinder_handshake hu]
      rcases mem_updateWsRoute h.paths hr with ⟨hpath, hsock, _⟩ | ⟨hpath, hold⟩
      · rw [if_pos hpath, hsock]
        rfl
      · rw [if_neg hpath]
        exact h.sockfd r hold
    · rw [lastBinder_request hu]
      exact h.sockfd r hr
  | _ => exact ⟨h.paths, h.sockfd, h.accepted⟩

theorem Recorded.initial (srv : Server W) (registrations : List (Bytes × WsHandler W)) :
    Recorded srv (State.initial (wsRoutesOf registrations)) where
  paths := wsRoutesOf_paths registrations
  sockfd := (wsRoutesOf_unbound registrations).free
  accepted := fun _ h => absurd h Bool.false_ne_true

/-! ### What is closed -/

/-- The descriptors that `stop` closes, in terms of the paths. -/
theorem Recorded.sockfds {srv : Server W} {s : State W} (h : Recorded srv s) :
    s.wsRoutes.map WsRoute.sockfd =
      (s.wsRoutes.map WsRoute.path).map (recordedFd s.log) := by
  rw [List.map_map]
  exact List.map_congr_left h.sockfd

/-- Nobody has what stands in a route without a handshake. -/
theorem Recorded.binder {srv : Server W} {s : State W} (h : Recorded srv s) {path : Bytes}
    {fd : Int} (hfd : recordedFd s.log path = fd)
    (hconn : (connection s.log fd).isSome = true) : lastBinder path s.log = some fd := by
  unfold recordedFd at hfd
  cases hlast : lastBinder path s.log with
  | some fd' =>
    rw [hlast, Option.getD_some] at hfd
    rw [hfd]
  | none =>
    rw [hlast, Option.getD_none] at hfd
    rw [← hfd] at hconn
    exact absurd (h.accepted (-1) hconn).1 (by decide)

/-- A route with a descriptor that is open has been bound to it. -/
theorem Recorded.covered {srv : Server W} {s : State W} (h : Recorded srv s)
    (hcloses : ClosesOnce (IsOpen srv s.log) (srv.stop s.wsRoutes)) :
    Covered srv (s.wsRoutes.map WsRoute.path) s.log := by
  rw [Server.stop, h.sockfds] at hcloses
  obtain ⟨hnodup, -, hmaster⟩ := List.nodup_append.mp hcloses.once
  have hroute : ∀ path ∈ s.wsRoutes.map WsRoute.path, ∀ fd, recordedFd s.log path = fd →
      (connection s.log fd).isSome = true := by
    intro path hpath fd hfd
    have hmem : fd ∈ (s.wsRoutes.map WsRoute.path).map (recordedFd s.log) :=
      List.mem_map.mpr ⟨path, hpath, hfd⟩
    rcases hcloses.only fd (List.mem_append_left _ hmem) with hconn | ⟨heq, _⟩
    · exact hconn
    · exact absurd heq (hmaster fd hmem srv.sockfd (List.mem_singleton.mpr rfl))
  refine ⟨?_, fun path hpath => ?_, fun path hpath path' hpath' heq => ?_, fun fd hfd => ?_⟩
  · have hlast := hcloses.only srv.sockfd (List.mem_append_right _ (List.mem_singleton.mpr rfl))
    rcases hlast with hconn | ⟨_, hopen⟩
    · exact absurd rfl (h.accepted srv.sockfd hconn).2
    · exact hopen
  · have hconn := hroute path hpath _ rfl
    exact ⟨_, h.binder rfl hconn, hconn⟩
  · exact List.inj_on_of_nodup_map hnodup hpath hpath' (congrArg (·.getD (-1)) heq)
  · rcases List.mem_append.mp (hcloses.all fd (.inl hfd)) with hin | hlast
    · obtain ⟨path, hpath, hget⟩ := List.mem_map.mp hin
      exact ⟨path, hpath, h.binder hget hfd⟩
    · exact absurd (List.mem_singleton.mp hlast) (h.accepted fd hfd).2

/-- Where the latest handshakes are those of the connections, the routes have what is open. -/
theorem Recorded.closesOnce {srv : Server W} {s : State W} (h : Recorded srv s)
    (hcovered : Covered srv (s.wsRoutes.map WsRoute.path) s.log) :
    ClosesOnce (IsOpen srv s.log) (srv.stop s.wsRoutes) := by
  rw [Server.stop, h.sockfds]
  have hroute : ∀ fd ∈ (s.wsRoutes.map WsRoute.path).map (recordedFd s.log),
      (connection s.log fd).isSome = true := by
    intro fd hin
    obtain ⟨path, hpath, hget⟩ := List.mem_map.mp hin
    obtain ⟨fd', hlast, hconn⟩ := hcovered.routes path hpath
    rw [recordedFd, hlast, Option.getD_some] at hget
    rwa [← hget]
  refine ⟨List.nodup_append.mpr ⟨?_, List.nodup_singleton _, ?_⟩, fun fd hopen => ?_,
    fun fd hin => ?_⟩
  · refine (List.nodup_map_iff_inj_on h.paths).mpr fun path hpath path' hpath' heq => ?_
    obtain ⟨fd, hlast, _⟩ := hcovered.routes path hpath
    obtain ⟨fd', hlast', _⟩ := hcovered.routes path' hpath'
    refine hcovered.apart path hpath path' hpath' ?_
    rw [recordedFd, recordedFd, hlast, hlast'] at heq
    rw [hlast, hlast']
    exact congrArg some heq
  · intro fd hin fd' hlast heq
    rw [List.mem_singleton.mp hlast] at heq
    exact (h.accepted fd (hroute fd hin)).2 heq
  · rcases hopen with hconn | ⟨rfl, _⟩
    · obtain ⟨path, hpath, hlast⟩ := hcovered.connections fd hconn
      refine List.mem_append_left _ (List.mem_map.mpr ⟨path, hpath, ?_⟩)
      rw [recordedFd, hlast]
      rfl
    · exact List.mem_append_right _ (List.mem_singleton.mpr rfl)
  · rcases List.mem_append.mp hin with hin | hlast
    · exact .inl (hroute fd hin)
    · rw [List.mem_singleton.mp hlast]
      exact .inr ⟨rfl, hcovered.listening⟩

/-- What is covered depends on which paths there are. -/
theorem Covered.congr {srv : Server W} {paths paths' : List Bytes} {log : List Event}
    (hpaths : ∀ path, path ∈ paths ↔ path ∈ paths') (h : Covered srv paths log) :
    Covered srv paths' log where
  listening := h.listening
  routes := fun path hpath => h.routes path ((hpaths path).mpr hpath)
  apart := fun path hpath path' hpath' =>
    h.apart path ((hpaths path).mpr hpath) path' ((hpaths path').mpr hpath')
  connections := fun fd hfd => by
    obtain ⟨path, hpath, hlast⟩ := h.connections fd hfd
    exact ⟨path, (hpaths path).mp hpath, hlast⟩

/-! ### Runs -/

/-- A run has the paths that were registered. -/
theorem mem_paths_runLoop (srv : Server W) (registrations : List (Bytes × WsHandler W))
    (answers : List (Answer W)) (path : Bytes) :
    path ∈ (runLoop srv (State.initial (wsRoutesOf registrations)) answers).wsRoutes.map
      WsRoute.path ↔ path ∈ registrations.map Prod.fst := by
  rw [← mem_paths_wsRoutesOf]
  have hstep : ∀ (s : State W) (a : Answer W),
      (path ∈ s.wsRoutes.map WsRoute.path ↔
        path ∈ (wsRoutesOf registrations).map WsRoute.path) →
      (path ∈ (step srv s a).wsRoutes.map WsRoute.path ↔
        path ∈ (wsRoutesOf registrations).map WsRoute.path) := by
    intro s a hs
    rwa [paths_of_fixed (step_fixed srv s a)]
  exact invariant_always hstep Iff.rfl answers

/-- **`stop` closes every socket once** exactly where each registered path is bound, each to
another connection that is open, no further connection is open, and the listening socket is. -/
theorem stop_closesOnce_iff (srv : Server W) (registrations : List (Bytes × WsHandler W))
    (answers : List (Answer W)) :
    ClosesOnce (IsOpen srv (runLoop srv (State.initial (wsRoutesOf registrations)) answers).log)
        (srv.stop (runLoop srv (State.initial (wsRoutesOf registrations)) answers).wsRoutes) ↔
      Covered srv (registrations.map Prod.fst)
        (runLoop srv (State.initial (wsRoutesOf registrations)) answers).log := by
  have hrecorded := invariant_always (fun s a hs => recorded_step s a hs)
    (Recorded.initial srv registrations) answers
  have hpaths := mem_paths_runLoop srv registrations answers
  refine ⟨fun h => (hrecorded.covered h).congr hpaths, fun h => hrecorded.closesOnce ?_⟩
  exact h.congr fun path => (hpaths path).symm

/-- One client, and no WebSocket anywhere. -/
def oneClient : State Unit :=
  runLoop bareServer (State.initial (wsRoutesOf [])) [.ready 3 pollIn, .accept [5]]

/-- The client's socket is left open, and for a route without a handshake -1 is closed. -/
theorem stop_leaves_client :
    ¬ (∀ (srv : Server Unit) (registrations : List (Bytes × WsHandler Unit))
      (answers : List (Answer Unit)),
      ClosesOnce (IsOpen srv (runLoop srv (State.initial (wsRoutesOf registrations)) answers).log)
        (srv.stop (runLoop srv (State.initial (wsRoutesOf registrations)) answers).wsRoutes)) ∧
    connection oneClient.log 5 = some 0 ∧ bareServer.stop oneClient.wsRoutes = [3] ∧
    bareServer.stop (wsRoutesOf wsRegistration) = [-1, 3] := by
  refine ⟨fun h => ?_, by decide +kernel, by decide +kernel, by decide +kernel⟩
  have hclosed : 5 ∈ bareServer.stop oneClient.wsRoutes :=
    (h bareServer [] [.ready 3 pollIn, .accept [5]]).all 5 (.inl (by decide +kernel))
  exact absurd hclosed (by decide +kernel)

end HttpServer
