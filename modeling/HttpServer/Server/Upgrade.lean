import HttpServer.Server.Authentic

/-! What a handshake that is answered with a 101 leads to.

The 101 is sent before the path is looked for, and whether the path has a route is not
asked. The route is then looked up by the descriptor: another one may be bound to the same
number and stand in front of it (`upgrade_routed_iff`). -/
namespace HttpServer
open Lib

variable {W : Type}

/-- The path has a route, the descriptor is looked up there with the request's query, and
its handler has been called once, with the request. -/
def RoutedUpgrade (wsRoutes wsRoutes' : List (WsRoute W)) (sd : Int) (buffer : Bytes)
    (req : Request) (actions : List Action) : Prop :=
  ∃ r ∈ wsRoutes, r.path = req.normalizePath ∧
    getWsRouteBySocketId sd wsRoutes' = some {r with sockfd := sd, query := req.query} ∧
    dispatches actions = [(r.path, WebSocket.make sd buffer req.query)]

/-- The first route that has the path or the descriptor. -/
def firstConcerned (path : Bytes) (sd : Int) (wsRoutes : List (WsRoute W)) : Option (WsRoute W) :=
  wsRoutes.find? fun r => decide (r.path = path ∨ r.sockfd = sd)

theorem firstConcerned_split {path : Bytes} {sd : Int} {wsRoutes : List (WsRoute W)}
    {r : WsRoute W} (h : firstConcerned path sd wsRoutes = some r) :
    (r.path = path ∨ r.sockfd = sd) ∧ ∃ before after, wsRoutes = before ++ r :: after ∧
      (∀ r' ∈ before, r'.path ≠ path) ∧ ∀ r' ∈ before, r'.sockfd ≠ sd := by
  obtain ⟨hr, before, after, hsplit, hbefore⟩ := List.find?_eq_some_iff_append.mp h
  refine ⟨of_decide_eq_true hr, before, after, hsplit, fun r' hr' hpath => ?_,
    fun r' hr' hsock => ?_⟩
  · exact absurd (hbefore r' hr') (by simp [hpath])
  · exact absurd (hbefore r' hr') (by simp [hsock])

/-- Routes in front of those of the path stay where they are. -/
theorem updateWsRoute_behind {path : Bytes} {front rest : List (WsRoute W)}
    (h : ∀ r ∈ front, r.path ≠ path) (query : Map Bytes Bytes) (fd : Int) :
    (updateWsRoute path query fd (front ++ rest)).1 =
      front ++ (updateWsRoute path query fd rest).1 := by
  induction front with
  | nil => rfl
  | cons r front ih =>
    have hr : r.path ≠ path := h r (List.mem_cons_self ..)
    rw [List.cons_append, updateWsRoute, if_neg hr]
    simp only [ih fun r' hr' => h r' (List.mem_cons_of_mem _ hr'), List.cons_append]

/-- **Only what is routed is upgraded, if the first route with the path or the descriptor
has the path**, and only then. -/
theorem upgrade_routed_iff {s : Server W} {env : Env W} {wsRoutes wsRoutes' : List (WsRoute W)}
    {sd : Int} {buffer : Bytes} {req : Request} {actions : List Action}
    (hreq : Request.ofRaw buffer = .ok req)
    (h : s.performRequest env wsRoutes sd buffer = .ok (wsRoutes', actions))
    (hup : upgrades actions ≠ []) :
    RoutedUpgrade wsRoutes wsRoutes' sd buffer req actions ↔
      ∃ r, firstConcerned req.normalizePath sd wsRoutes = some r ∧
        r.path = req.normalizePath := by
  obtain ⟨req', haccepted, _, hroutes, _, hdisp⟩ | ⟨_, hnone, _⟩ :=
    Server.performRequest_websocket h
  swap
  · exact absurd hnone hup
  obtain ⟨_, hreq', _⟩ := Server.acceptedHandshake_eq_some haccepted
  cases hreq.symm.trans hreq'
  constructor
  · intro ⟨r, hr, hpath, hfound, _⟩
    cases hfirst : firstConcerned req.normalizePath sd wsRoutes with
    | none =>
      have hunconcerned := List.find?_eq_none.mp hfirst r hr
      simp [hpath] at hunconcerned
    | some r₁ =>
      obtain ⟨hconcerned, before, after, rfl, hpaths, hsocks⟩ := firstConcerned_split hfirst
      refine ⟨r₁, rfl, ?_⟩
      by_contra hother
      have hfront : ∀ r' ∈ before ++ [r₁], r'.path ≠ req.normalizePath := by
        intro r' hr'
        rcases List.mem_append.mp hr' with hr' | hr'
        · exact hpaths r' hr'
        · rw [List.mem_singleton.mp hr']
          exact hother
      rw [hroutes, List.append_cons, updateWsRoute_behind hfront, ← List.append_cons,
        getWsRoute_first hsocks (hconcerned.resolve_left hother)] at hfound
      rw [Option.some.inj hfound] at hother
      exact hother hpath
  · intro ⟨r, hfirst, hpath⟩
    obtain ⟨_, before, after, rfl, hpaths, hsocks⟩ := firstConcerned_split hfirst
    rw [updateWsRoute_present hpaths hpath] at hroutes
    have hfound : getWsRouteBySocketId sd wsRoutes' =
        some {r with sockfd := sd, query := req.query} := by
      rw [hroutes]
      exact getWsRoute_bound hsocks req.query
    refine ⟨r, List.mem_append_right _ (List.mem_cons_self ..), hpath, hfound, ?_⟩
    rw [hdisp, Server.dispatched, hfound]
    rfl

/-- The paths that a buffer upgrades, where the call returns. -/
def upgradedPaths (s : Server W) (env : Env W) (wsRoutes : List (WsRoute W)) (sd : Int)
    (buffer : Bytes) : Option (List Bytes) :=
  (s.performRequest env wsRoutes sd buffer).toOption.map fun result =>
    (upgrades result.2).map Prod.fst

theorem upgrade_of_paths {s : Server W} {env : Env W} {wsRoutes : List (WsRoute W)} {sd : Int}
    {buffer path : Bytes} (h : upgradedPaths s env wsRoutes sd buffer = some [path]) :
    ∃ req wsRoutes' actions, Request.ofRaw buffer = .ok req ∧
      s.performRequest env wsRoutes sd buffer = .ok (wsRoutes', actions) ∧
      upgrades actions ≠ [] ∧ req.normalizePath = path := by
  rw [upgradedPaths] at h
  cases hperf : s.performRequest env wsRoutes sd buffer with
  | error fault =>
    rw [hperf] at h
    cases h
  | ok result =>
    obtain ⟨wsRoutes', actions⟩ := result
    rw [hperf] at h
    have hpaths : (upgrades actions).map Prod.fst = [path] := Option.some.inj h
    rcases Server.performRequest_websocket hperf with
      ⟨req, haccepted, _, _, hup, _⟩ | ⟨_, hnone, _⟩
    · rw [hup] at hpaths
      obtain ⟨_, hreq, _⟩ := Server.acceptedHandshake_eq_some haccepted
      refine ⟨req, wsRoutes', actions, hreq, rfl, ?_, List.singleton_inj.mp hpaths⟩
      rw [hup]
      exact List.cons_ne_nil _ _
    · rw [hnone] at hpaths
      cases hpaths

theorem upgrade_routed_ws : ∃ req wsRoutes' actions,
    RoutedUpgrade (wsRoutesOf wsRegistration) wsRoutes' 5 (handshakeOf (text "/ws")) req
      actions := by
  have hpaths : upgradedPaths bareServer Env.plain (wsRoutesOf wsRegistration) 5
      (handshakeOf (text "/ws")) = some [text "/ws"] := by decide +kernel
  obtain ⟨req, wsRoutes', actions, hreq, hperf, hup, hpath⟩ := upgrade_of_paths hpaths
  refine ⟨req, wsRoutes', actions, (upgrade_routed_iff hreq hperf hup).mpr ?_⟩
  rw [hpath]
  exact ⟨_, rfl, rfl⟩

/-- A handshake on a path without a route is answered all the same. -/
theorem upgrade_unrouted : ∃ req wsRoutes' actions,
    Request.ofRaw (handshakeOf (text "/other")) = .ok req ∧
      bareServer.performRequest Env.plain (wsRoutesOf wsRegistration) 5
        (handshakeOf (text "/other")) = .ok (wsRoutes', actions) ∧ upgrades actions ≠ [] ∧
      ¬ RoutedUpgrade (wsRoutesOf wsRegistration) wsRoutes' 5 (handshakeOf (text "/other")) req
        actions := by
  have hpaths : upgradedPaths bareServer Env.plain (wsRoutesOf wsRegistration) 5
      (handshakeOf (text "/other")) = some [text "/other"] := by decide +kernel
  obtain ⟨req, wsRoutes', actions, hreq, hperf, hup, hpath⟩ := upgrade_of_paths hpaths
  refine ⟨req, wsRoutes', actions, hreq, hperf, hup, fun ⟨r, hr, hrouted, _⟩ => ?_⟩
  have honly : r.path = text "/ws" := by
    rw [List.mem_singleton.mp (show r ∈ [_] from hr)]
  rw [hpath, honly] at hrouted
  exact absurd hrouted (by decide +kernel)

end HttpServer
