import HttpServer.Server.Bindings

/-! The set of WebSocket routes, and what keeps it one.

`updateWsRoute` writes the descriptor into an element of the set in place, although it is part
of what the elements are ordered by. As long as every path is there once this does not matter,
since two paths are never equal (`validSet_iff`). But a path that is registered again after a
handshake on it no longer meets its own element, which has another descriptor by then, and is
there twice. -/
namespace HttpServer
open Lib Lib.Runs

variable {W : Type}

/-- What is done with the set. -/
inductive WsCall (W : Type) where
  | setRoute (path : Bytes) (handler : WsHandler W)
  | updateWsRoute (path : Bytes) (query : Map Bytes Bytes) (sockfd : Int)

namespace WsCall

def apply (wsRoutes : List (WsRoute W)) : WsCall W → List (WsRoute W)
  | setRoute path handler => setWsRoute path handler wsRoutes
  | updateWsRoute path query sockfd => (HttpServer.updateWsRoute path query sockfd wsRoutes).1

/-- No registration of a path that is bound. -/
def Unbinding (wsRoutes : List (WsRoute W)) : WsCall W → Prop
  | setRoute path _ => ∀ r ∈ wsRoutes, r.path = path → r.sockfd = -1
  | updateWsRoute .. => True

end WsCall

/-- Running through it, the elements increase, and no path comes twice. -/
structure ValidSet (wsRoutes : List (WsRoute W)) : Prop where
  increasing : wsRoutes.Pairwise WsRoute.Less
  paths : (wsRoutes.map WsRoute.path).Nodup

/-! ### The order of the paths -/

/-- The order without the descriptors. -/
def PathLess (r other : WsRoute W) : Prop := r.path < other.path

instance (r other : WsRoute W) : Decidable (PathLess r other) := by
  unfold PathLess
  infer_instance

theorem less_of_ne {r other : WsRoute W} (h : r.path ≠ other.path) :
    r.Less other ↔ PathLess r other := by
  rw [WsRoute.Less, if_pos h]
  rfl

/-- Elements that are in each other's place have one path. -/
theorem path_eq_of_equiv {r other : WsRoute W} (h : ¬ r.Less other) (h' : ¬ other.Less r) :
    r.path = other.path := by
  by_contra hne
  rw [less_of_ne hne] at h
  rw [less_of_ne (Ne.symm hne)] at h'
  exact hne (List.le_antisymm h' h)

theorem PathLess.ne {r other : WsRoute W} (h : PathLess r other) : r.path ≠ other.path := by
  intro heq
  rw [PathLess, heq] at h
  exact List.lt_irrefl _ h

/-- A valid set has its paths in order, and only that. -/
theorem validSet_iff {wsRoutes : List (WsRoute W)} :
    ValidSet wsRoutes ↔ wsRoutes.Pairwise PathLess := by
  refine ⟨fun h => ?_, fun h => ⟨h.imp fun hab => ?_, ?_⟩⟩
  · refine (h.increasing.and (List.pairwise_map.mp h.paths)).imp fun hab => ?_
    exact (less_of_ne hab.2).mp hab.1
  · exact (less_of_ne hab.ne).mpr hab
  · exact List.pairwise_map.mpr (h.imp PathLess.ne)

theorem pairwise_pathLess {wsRoutes : List (WsRoute W)} :
    wsRoutes.Pairwise PathLess ↔ (wsRoutes.map WsRoute.path).Pairwise (· < ·) := by
  rw [List.pairwise_map]
  rfl

/-! ### One call -/

/-- A binding changes no path. -/
theorem updateWsRoute_map_path (path : Bytes) (query : Map Bytes Bytes) (sockfd : Int)
    (wsRoutes : List (WsRoute W)) :
    (updateWsRoute path query sockfd wsRoutes).1.map WsRoute.path =
      wsRoutes.map WsRoute.path := by
  induction wsRoutes with
  | nil => rfl
  | cons r rest ih =>
    unfold updateWsRoute
    split
    · rfl
    · exact congrArg (r.path :: ·) ih

/-- **A call keeps the set valid** unless it registers a path that is bound. -/
theorem ValidSet.apply {wsRoutes : List (WsRoute W)} (h : ValidSet wsRoutes) {call : WsCall W}
    (hcall : call.Unbinding wsRoutes) : ValidSet (call.apply wsRoutes) := by
  rw [validSet_iff] at h ⊢
  cases call with
  | setRoute path handler =>
    -- An element of the same path is bound to nothing, like the one that is put in.
    have hsame : setWsRoute path handler wsRoutes = insertBy PathLess
        {sockfd := -1, path := path, handler := handler, query := ∅} wsRoutes := by
      refine insertBy_congr fun r hr => ?_
      by_cases hpath : r.path = path
      · have hfree := hcall r hr hpath
        unfold WsRoute.Less PathLess
        simp [hpath, hfree]
      · exact ⟨less_of_ne (Ne.symm hpath), less_of_ne hpath⟩
    have htrans : ∀ a b c : WsRoute W, PathLess a b → PathLess b c → PathLess a c :=
      fun _ _ _ => List.lt_trans
    rw [WsCall.apply, hsame]
    exact pairwise_insertBy htrans _ h
  | updateWsRoute path query sockfd =>
    rw [WsCall.apply, pairwise_pathLess, updateWsRoute_map_path, ← pairwise_pathLess]
    exact h

/-- Two elements of one path are the same element of a valid set. -/
theorem ValidSet.eq_of_path {wsRoutes : List (WsRoute W)} (h : ValidSet wsRoutes)
    {r r' : WsRoute W} (hr : r ∈ wsRoutes) (hr' : r' ∈ wsRoutes) (hpath : r.path = r'.path) :
    r = r' :=
  List.inj_on_of_nodup_map h.paths hr hr' hpath

/-- A path that is bound is there twice once it is registered again. -/
theorem not_validSet_apply {wsRoutes : List (WsRoute W)} (h : ValidSet wsRoutes) {call : WsCall W}
    (hcall : ¬ call.Unbinding wsRoutes) : ¬ ValidSet (call.apply wsRoutes) := by
  cases call with
  | updateWsRoute path query sockfd => exact absurd trivial hcall
  | setRoute path handler =>
    intro hvalid
    have hbound : ∃ r ∈ wsRoutes, r.path = path ∧ r.sockfd ≠ -1 := by
      simpa [WsCall.Unbinding] using hcall
    obtain ⟨r, hr, hpath, hsockfd⟩ := hbound
    have hput := @mem_or_equiv_insertBy _ WsRoute.Less _
      {sockfd := -1, path := path, handler := handler, query := ∅} wsRoutes
    rcases hput with hnew | ⟨b, hb, hleft, hright⟩
    · have heq := hvalid.eq_of_path (mem_insertBy_of_mem hr) hnew hpath
      exact hsockfd (congrArg WsRoute.sockfd heq)
    · have hsame : b.path = path := path_eq_of_equiv hright hleft
      unfold WsRoute.Less at hleft hright
      rw [if_neg (not_not.mpr hsame.symm)] at hleft
      rw [if_neg (not_not.mpr hsame)] at hright
      rw [← h.eq_of_path hb hr (hsame.trans hpath.symm)] at hsockfd
      exact hsockfd (Int.le_antisymm (Int.not_lt.mp hleft) (Int.not_lt.mp hright))

/-! ### Sequences of calls -/

/-- **The set is valid after every call** exactly where no path is registered that is bound by
then. -/
theorem validSet_run_iff (calls : List (WsCall W)) :
    (∀ past rest, calls = past ++ rest → ValidSet (run WsCall.apply [] past)) ↔
      Along WsCall.apply WsCall.Unbinding [] calls := by
  refine Along.iff_invariant (fun wsRoutes call h => ⟨fun hnext => ?_, h.apply⟩) ⟨.nil, .nil⟩ calls
  exact Classical.not_not.mp fun hcall => not_validSet_apply h hcall hnext

/-- One path, registered, bound to a descriptor and registered again. -/
def registeredAgain : List (WsCall Unit) :=
  [.setRoute (text "/ws") fun _ _ => [], .updateWsRoute (text "/ws") ∅ 5,
    .setRoute (text "/ws") fun _ _ => []]

/-- The elements that there are, in their order. -/
def elements (calls : List (WsCall Unit)) : List (Bytes × Int) :=
  (run WsCall.apply [] calls).map fun r => (r.path, r.sockfd)

/-- The path is there twice then, and a second handshake makes the two elements equal. -/
theorem registered_again_twice :
    ¬ (∀ calls : List (WsCall Unit), ValidSet (run WsCall.apply [] calls)) ∧
    elements registeredAgain = [(text "/ws", -1), (text "/ws", 5)] ∧
    elements (registeredAgain ++ [.updateWsRoute (text "/ws") ∅ 5]) =
      [(text "/ws", 5), (text "/ws", 5)] := by
  refine ⟨fun h => ?_, by decide +kernel, by decide +kernel⟩
  exact absurd (h registeredAgain).paths (by decide +kernel)

end HttpServer
