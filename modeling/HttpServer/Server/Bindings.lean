import HttpServer.Server.Step

/-! The WebSocket routes as bindings of descriptors.

A table filled by `setRoute` has its routes in the order of their paths, each
path once and none of them bound (`wsRoutesOf_paths`). A handshake binds the
route of its path and leaves the others alone (`mem_updateWsRoute`), so a lookup
changes only for the two descriptors concerned. -/
namespace HttpServer
open Lib Lib.Tenure

variable {W : Type}

/-! ### Registered tables -/

/-- The table of a list of `setRoute(path, handler)` calls. -/
def wsRoutesOf (registrations : List (Bytes × WsHandler W)) : List (WsRoute W) :=
  registrations.foldl (fun wsRoutes r => setWsRoute r.1 r.2 wsRoutes) []

theorem less_trans (a b c : WsRoute W) (hab : a.Less b) (hbc : b.Less c) : a.Less c := by
  unfold WsRoute.Less at *
  by_cases h1 : a.path = b.path
  · rw [if_neg (not_not.mpr h1)] at hab
    by_cases h2 : b.path = c.path
    · rw [if_neg (not_not.mpr h2)] at hbc
      rw [if_neg (not_not.mpr (h1.trans h2))]
      exact hab.trans hbc
    · rw [if_pos h2] at hbc
      rw [if_pos (h1 ▸ h2), h1]
      exact hbc
  · rw [if_pos h1] at hab
    by_cases h2 : b.path = c.path
    · rw [if_neg (not_not.mpr h2)] at hbc
      rw [if_pos (h2 ▸ h1), ← h2]
      exact hab
    · rw [if_pos h2] at hbc
      have hac : a.path < c.path := List.lt_trans hab hbc
      have hne : a.path ≠ c.path := by
        intro heq
        rw [heq] at hac
        exact List.lt_irrefl _ hac
      rw [if_pos hne]
      exact hac

/-- Ordered, and bound to nothing. -/
structure Unbound (wsRoutes : List (WsRoute W)) : Prop where
  ordered : wsRoutes.Pairwise WsRoute.Less
  free : ∀ r ∈ wsRoutes, r.sockfd = -1

theorem Unbound.setWsRoute {wsRoutes : List (WsRoute W)} (h : Unbound wsRoutes) (path : Bytes)
    (handler : WsHandler W) : Unbound (setWsRoute path handler wsRoutes) := by
  refine ⟨pairwise_insertBy less_trans _ h.ordered, fun r hr => ?_⟩
  rcases eq_or_mem_of_mem_insertBy hr with rfl | hr
  · rfl
  · exact h.free r hr

theorem wsRoutesOf_unbound (registrations : List (Bytes × WsHandler W)) :
    Unbound (wsRoutesOf registrations) := by
  have hfold : ∀ (l : List (Bytes × WsHandler W)) (t : List (WsRoute W)), Unbound t →
      Unbound (l.foldl (fun wsRoutes r => HttpServer.setWsRoute r.1 r.2 wsRoutes) t) := by
    intro l
    induction l with
    | nil => exact fun t ht => ht
    | cons r l ih => exact fun t ht => ih _ (ht.setWsRoute r.1 r.2)
  exact hfold registrations [] ⟨.nil, fun r hr => absurd hr List.not_mem_nil⟩

/-- Each path once. -/
theorem Unbound.paths {wsRoutes : List (WsRoute W)} (h : Unbound wsRoutes) :
    (wsRoutes.map WsRoute.path).Nodup := by
  refine List.pairwise_map.mpr (List.Pairwise.imp_of_mem ?_ h.ordered)
  intro a b ha hb hab heq
  rw [WsRoute.Less, if_neg (not_not.mpr heq), h.free a ha, h.free b hb] at hab
  exact absurd hab (lt_irrefl _)

theorem wsRoutesOf_paths (registrations : List (Bytes × WsHandler W)) :
    ((wsRoutesOf registrations).map WsRoute.path).Nodup :=
  (wsRoutesOf_unbound registrations).paths

/-! ### A handshake's binding -/

/-- After an update the route of the path has the descriptor and the query, and every
other route is as it was. -/
theorem mem_updateWsRoute {wsRoutes : List (WsRoute W)} (hd : (wsRoutes.map WsRoute.path).Nodup)
    {path : Bytes} {query : Map Bytes Bytes} {fd : Int} {r : WsRoute W}
    (hr : r ∈ (updateWsRoute path query fd wsRoutes).1) :
    (r.path = path ∧ r.sockfd = fd ∧ r.query = query) ∨ (r.path ≠ path ∧ r ∈ wsRoutes) := by
  rcases route_split path wsRoutes with h | ⟨before, r₀, after, rfl, hb, hr₀⟩
  · rw [updateWsRoute_absent h] at hr
    exact .inr ⟨h r hr, hr⟩
  · rw [updateWsRoute_present hb hr₀] at hr
    have hafter : ∀ r' ∈ after, r'.path ≠ path := by
      intro r' hr' heq
      rw [List.map_append, List.map_cons] at hd
      have hnot := (List.nodup_cons.mp (List.nodup_append.mp hd).2.1).1
      exact hnot (List.mem_map.mpr ⟨r', hr', heq.trans hr₀.symm⟩)
    rcases List.mem_append.mp hr with hr | hr
    · exact .inr ⟨hb r hr, List.mem_append_left _ hr⟩
    · rcases List.mem_cons.mp hr with rfl | hr
      · exact .inl ⟨hr₀, rfl, rfl⟩
      · exact .inr ⟨hafter r hr, List.mem_append_right _ (List.mem_cons_of_mem _ hr)⟩

/-- The first route that has the descriptor is the one that is looked up. -/
theorem getWsRoute_first {before after : List (WsRoute W)} {r : WsRoute W} {sd : Int}
    (hb : ∀ r' ∈ before, r'.sockfd ≠ sd) (hr : r.sockfd = sd) :
    getWsRouteBySocketId sd (before ++ r :: after) = some r := by
  have hnone : before.find? (fun r' => decide (r'.sockfd = sd)) = none := by
    rw [List.find?_eq_none]
    intro r' hr'
    simpa using hb r' hr'
  rw [getWsRouteBySocketId, List.find?_append, hnone, Option.none_or, List.find?_cons_of_pos]
  exact decide_eq_true hr

/-- The bound descriptor is looked up in the route of the path, unless an earlier route
has it too. -/
theorem getWsRoute_bound {before after : List (WsRoute W)} {r : WsRoute W} {fd : Int}
    (hb : ∀ r' ∈ before, r'.sockfd ≠ fd) (query : Map Bytes Bytes) :
    getWsRouteBySocketId fd (before ++ {r with sockfd := fd, query := query} :: after) =
      some {r with sockfd := fd, query := query} :=
  getWsRoute_first hb rfl

/-- A descriptor looked up elsewhere is still found there. -/
theorem getWsRoute_other {before after : List (WsRoute W)} {r r₀ : WsRoute W} {fd fd' : Int}
    (hne : fd' ≠ fd) (hpath : r₀.path ≠ r.path) (query : Map Bytes Bytes)
    (h : getWsRouteBySocketId fd' (before ++ r :: after) = some r₀) :
    getWsRouteBySocketId fd' (before ++ {r with sockfd := fd, query := query} :: after) =
      some r₀ := by
  rw [getWsRouteBySocketId, List.find?_append] at h ⊢
  cases hf : before.find? fun r' => decide (r'.sockfd = fd') with
  | some r' =>
    rw [hf] at h
    exact h
  | none =>
    rw [hf, Option.none_or, List.find?_cons] at h
    rw [Option.none_or, List.find?_cons]
    have hnew : decide (fd = fd') = false := by simpa using Ne.symm hne
    simp only [hnew]
    split at h
    · cases h
      exact absurd rfl hpath
    · exact h

theorem getWsRoute_spec {wsRoutes : List (WsRoute W)} {fd : Int} {r : WsRoute W}
    (h : getWsRouteBySocketId fd wsRoutes = some r) : r ∈ wsRoutes ∧ r.sockfd = fd :=
  ⟨List.mem_of_find?_eq_some h, by simpa using List.find?_some h⟩

/-- A handler called for a descriptor is that of a route bound to it. -/
theorem mem_dispatched {wsRoutes : List (WsRoute W)} {sd : Int} {buffer : Bytes}
    {d : Bytes × WebSocket} (h : d ∈ Server.dispatched wsRoutes sd buffer) :
    ∃ r ∈ wsRoutes, r.sockfd = sd ∧ d = (r.path, WebSocket.make sd buffer r.query) := by
  rw [Server.dispatched, Option.mem_toList, Option.map_eq_some_iff] at h
  obtain ⟨r, hr, rfl⟩ := h
  obtain ⟨hmem, hsock⟩ := getWsRoute_spec hr
  exact ⟨r, hmem, hsock, rfl⟩

end HttpServer
