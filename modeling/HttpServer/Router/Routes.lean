import HttpServer.Router.Trie

/-! Routing as a function of the registrations.

The trie of a sequence of calls has one node for each prefix of a registered
shape, the handler of the first call of a shape and method, and on a parameter
node the name the last call through it wrote. `match` is then the greedy descent
through the family of shapes (`foldl_matchPart`), and a request is answered by
the first call with its method whose shape the descent ends in
(`matchRequest_handler`). -/
namespace HttpServer
open Lib Lib.Wildcard

variable {H : Type u}

namespace Router

/-- The segments of a request's path, the query left out. -/
def segments (path : Bytes) : List Bytes := splitPath (pathWithoutQuery path)

def shapes (calls : List (Call H)) : List (Pattern Bytes) := calls.map fun c => shape c.path

/-- The call asks for the handler of this shape and method. -/
def Call.slot (τ : Pattern Bytes) (method : Bytes) (c : Call H) : Bool :=
  decide (shape c.path = τ ∧ c.method = method)

theorem splitPath_nonempty {path s : Bytes} (h : s ∈ splitPath path) : s ≠ [] := by
  simpa using (List.mem_filter.mp h).2

theorem within_shapes_cons (c : Call H) (calls : List (Call H)) (π : Pattern Bytes) :
    Within (shapes (c :: calls)) π ↔ π <+: shape c.path ∨ Within (shapes calls) π := by
  simp [Within, shapes]

/-! ### What a sequence of calls builds -/

theorem under_registerAll (calls : List (Call H)) (r : Router H) (π : Pattern Bytes) :
    ((registerAll r calls).1.root.under π).isSome ↔
      (r.root.under π).isSome ∨ Within (shapes calls) π := by
  induction calls generalizing r with
  | nil => simp [registerAll, Within, shapes]
  | cons c rest ih =>
    have hone := Node.under_register (splitPath c.path) r.root c.method c.handler π
    rw [within_shapes_cons, ← or_assoc]
    exact (ih _).trans (or_congr_left hone)

theorem handlerAt_registerAll (calls : List (Call H)) (r : Router H) (π : Pattern Bytes)
    (m : Bytes) : (registerAll r calls).1.root.handlerAt π m =
      (r.root.handlerAt π m).or ((calls.find? (Call.slot π m)).map Call.handler) := by
  induction calls generalizing r with
  | nil => simp [registerAll]
  | cons c rest ih =>
    have hone := Node.handlerAt_register (splitPath c.path) r.root c.method c.handler π m
    have hrest := ih (r.registerHandler c.method c.path c.handler).1
    simp only [registerAll, registerHandler] at hrest ⊢
    rw [hrest, hone, List.find?_cons]
    by_cases hs : shape c.path = π ∧ c.method = m
    · have hπ : π = (splitPath c.path).map segment ∧ m = c.method := ⟨hs.1.symm, hs.2.symm⟩
      have hslot : c.slot π m = true := by simpa [Call.slot] using hs
      rw [if_pos hπ, hslot]
      cases r.root.handlerAt π m <;> rfl
    · have hπ : ¬ (π = (splitPath c.path).map segment ∧ m = c.method) :=
        fun h => hs ⟨h.1.symm, h.2.symm⟩
      have hslot : c.slot π m = false := by simpa [Call.slot] using hs
      rw [if_neg hπ, hslot]

/-- The last call through a parameter node names it. -/
theorem nameAt_registerAll (calls : List (Call H)) (r : Router H) (π : Pattern Bytes) :
    (registerAll r calls).1.root.nameAt (π ++ [none]) =
      (calls.reverse.findSome? fun c => Node.writtenName (splitPath c.path) (π ++ [none])).or
        (r.root.nameAt (π ++ [none])) := by
  induction calls generalizing r with
  | nil => simp [registerAll]
  | cons c rest ih =>
    have hone := Node.nameAt_register (splitPath c.path) r.root c.method c.handler π
    have hrest := ih (r.registerHandler c.method c.path c.handler).1
    simp only [registerAll, registerHandler] at hrest ⊢
    rw [hrest, hone, List.reverse_cons, List.findSome?_append, Option.or_assoc]
    congr 2
    simp [List.findSome?]
    cases Node.writtenName (splitPath c.path) (π ++ [none]) <;> rfl

/-- A call returns -1 exactly when an earlier one has its shape and method. -/
theorem codes_registerAll (calls : List (Call H)) (r : Router H) (i : Nat) :
    (registerAll r calls).2[i]? = (calls[i]?).map fun c =>
      bif (r.root.handlerAt (shape c.path) c.method).isSome ||
          (calls.take i).any (Call.slot (shape c.path) c.method) then -1 else 0 := by
  induction calls generalizing r i with
  | nil => simp [registerAll]
  | cons c rest ih =>
    cases i with
    | zero => simp [registerAll, registerHandler, Node.register_code, shape]
    | succ i =>
      have hrest := ih (r.registerHandler c.method c.path c.handler).1 i
      simp only [registerAll, registerHandler, List.getElem?_cons_succ] at hrest ⊢
      rw [hrest]
      congr 1
      funext d
      have hone := Node.handlerAt_register (splitPath c.path) r.root c.method c.handler
        (shape d.path) d.method
      simp only [hone, List.take_succ_cons, List.any_cons]
      by_cases hs : shape c.path = shape d.path ∧ c.method = d.method
      · have hπ : shape d.path = (splitPath c.path).map segment ∧ d.method = c.method :=
          ⟨hs.1.symm, hs.2.symm⟩
        have hslot : c.slot (shape d.path) d.method = true := by simpa [Call.slot] using hs
        rw [if_pos hπ, hslot]
        simp
      · have hπ : ¬ (shape d.path = (splitPath c.path).map segment ∧ d.method = c.method) :=
          fun h => hs ⟨h.1.symm, h.2.symm⟩
        have hslot : c.slot (shape d.path) d.method = false := by simpa [Call.slot] using hs
        rw [if_neg hπ, hslot, Bool.false_or]

theorem under_ofCalls (calls : List (Call H)) (π : Pattern Bytes) (o : Option Bytes) :
    ((ofCalls calls).root.under (π ++ [o])).isSome ↔ Within (shapes calls) (π ++ [o]) := by
  have hempty : ((empty : Router H).root.under (π ++ [o])).isSome = false := by
    cases π <;> simp [empty, Node.under_empty_cons]
  rw [ofCalls, under_registerAll, hempty]
  simp

theorem handlerAt_empty (π : Pattern Bytes) (m : Bytes) :
    (empty : Router H).root.handlerAt π m = none := by
  cases π with
  | nil => rfl
  | cons o π => rw [Node.handlerAt, empty, Node.under_empty_cons, Option.bind_none]

theorem handlerAt_ofCalls (calls : List (Call H)) (π : Pattern Bytes) (m : Bytes) :
    (ofCalls calls).root.handlerAt π m = (calls.find? (Call.slot π m)).map Call.handler := by
  rw [ofCalls, handlerAt_registerAll, handlerAt_empty, Option.none_or]

/-- The name on a parameter node: the one the last call through it wrote. -/
def latestName (calls : List (Call H)) (π : Pattern Bytes) : Bytes :=
  (calls.reverse.findSome? fun c => Node.writtenName (splitPath c.path) π).getD []

theorem nodeName_ofCalls (calls : List (Call H)) (π : Pattern Bytes) :
    ((ofCalls calls).root.nameAt (π ++ [none])).getD [] = latestName calls (π ++ [none]) := by
  have hempty : (empty : Router H).root.nameAt (π ++ [none]) = none := by
    cases π <;> simp [empty, Node.nameAt, Node.under_empty_cons]
  rw [ofCalls, nameAt_registerAll, hempty, Option.or_none]
  rfl

/-! ### The walk -/

/-- The parameters stored along a pattern when its parameter nodes are named `name`. -/
def bindings (name : Pattern Bytes → Bytes) (π : Pattern Bytes) :
    Pattern Bytes → List Bytes → List (Bytes × Bytes)
  | none :: ρ, s :: w => (name (π ++ [none]), s) :: bindings name (π ++ [none]) ρ w
  | some a :: ρ, _ :: w => bindings name (π ++ [some a]) ρ w
  | _, _ => []

/-- One part of the path: the literal edge, else the parameter edge, else none. -/
theorem matchPart_step (calls : List (Call H)) {π : Pattern Bytes} {node : Node H}
    (hπ : (ofCalls calls).root.under π = some node) (req : Request) (s : Bytes) :
    Node.matchPart (some node, req) s =
      if Within (shapes calls) (π ++ [some s]) then
        ((ofCalls calls).root.under (π ++ [some s]), req)
      else if Within (shapes calls) (π ++ [none]) then
        ((ofCalls calls).root.under (π ++ [none]),
          req.setParam (latestName calls (π ++ [none])) s)
      else (none, req) := by
  rw [← nodeName_ofCalls]
  simp only [← under_ofCalls, Node.nameAt, Node.under_snoc hπ, Node.child, Node.matchPart]
  cases node.staticChildren.lookup s with
  | some c => rfl
  | none => cases node.paramChild <;> rfl

theorem foldl_matchPart_none (w : List Bytes) (req : Request) :
    w.foldl Node.matchPart ((none : Option (Node H)), req) = (none, req) := by
  induction w with
  | nil => rfl
  | cons s w ih => exact ih

/-- The walk is the greedy descent, and stores the names of the parameter edges it takes,
whether it gets to its end or not. -/
theorem foldl_matchPart (calls : List (Call H)) (w : List Bytes) {π : Pattern Bytes}
    {node : Node H} (hπ : (ofCalls calls).root.under π = some node) (req : Request) :
    (w.foldl Node.matchPart (some node, req)).1 =
      (descend (shapes calls) π w).bind (ofCalls calls).root.under ∧
    (w.foldl Node.matchPart (some node, req)).2 =
      {req with
        params := Map.setAll req.params
          (bindings (latestName calls) π (taken (shapes calls) π w) w)} := by
  induction w generalizing π node req with
  | nil => exact ⟨by simp [descend, hπ], rfl⟩
  | cons s w ih =>
    rw [List.foldl_cons, matchPart_step calls hπ, descend, taken]
    split
    · next hlit =>
      obtain ⟨c, hc⟩ := Option.isSome_iff_exists.mp ((under_ofCalls calls π (some s)).mpr hlit)
      rw [hc]
      exact ih hc req
    · split
      · next hwild =>
        obtain ⟨c, hc⟩ := Option.isSome_iff_exists.mp ((under_ofCalls calls π none).mpr hwild)
        rw [hc]
        exact ih hc _
      · rw [foldl_matchPart_none]
        exact ⟨rfl, rfl⟩

/-! ### What `match` returns -/

/-- The shape the walk of a request ends in. -/
def reached (calls : List (Call H)) (req : Request) : Option (Pattern Bytes) :=
  descend (shapes calls) [] (segments req.path)

/-- The call that answers a request. -/
def answering (calls : List (Call H)) (req : Request) : Option (Call H) :=
  (reached calls req).bind fun τ => calls.find? (Call.slot τ req.method)

theorem setQueries_self (req : Request) : req.setQueries = req := by
  simp [Request.setQueries, Map.restore_eq]

/-- The walk changes nothing of a request but its parameters. -/
theorem foldl_matchPart_frame (w : List Bytes) (current : Option (Node H) × Request) :
    (w.foldl Node.matchPart current).2 =
      {current.2 with params := (w.foldl Node.matchPart current).2.params} := by
  induction w generalizing current with
  | nil => rfl
  | cons s w ih =>
    rw [List.foldl_cons, ih]
    obtain ⟨node, req⟩ := current
    cases node with
    | none => rfl
    | some node =>
      simp only [Node.matchPart]
      split
      · rfl
      · split <;> rfl

/-- The nodes of a walk do not depend on the request that is carried along. -/
theorem foldl_matchPart_node (w : List Bytes) (node : Option (Node H)) (req req' : Request) :
    (w.foldl Node.matchPart (node, req)).1 = (w.foldl Node.matchPart (node, req')).1 := by
  induction w generalizing node req req' with
  | nil => rfl
  | cons s w ih =>
    rw [List.foldl_cons, List.foldl_cons]
    cases node with
    | none => exact ih none req req'
    | some node =>
      simp only [Node.matchPart]
      split
      · exact ih _ _ _
      · split
        · exact ih _ _ _
        · exact ih _ _ _

/-- `match` is the walk, and the handler of the node it ends in. -/
theorem matchRequest_eq (r : Router H) (req : Request) :
    r.matchRequest req =
      (((segments req.path).foldl Node.matchPart (some r.root, req)).2,
        ((segments req.path).foldl Node.matchPart (some r.root, req)).1.bind fun node =>
          node.handlers.lookup req.method) := by
  have hframe := foldl_matchPart_frame (segments req.path) (some r.root, req)
  rw [matchRequest, ← segments]
  generalize (segments req.path).foldl Node.matchPart (some r.root, req) = walk at *
  obtain ⟨node, req'⟩ := walk
  cases node with
  | none => rfl
  | some node =>
    have hsame : req'.method = req.method := by
      have hreq : req' = {req with params := req'.params} := hframe
      rw [hreq]
    simp only [Option.bind_some]
    rw [hsame]
    cases node.handlers.lookup req.method with
    | none => rfl
    | some handler => simp only [setQueries_self]

/-- A match changes nothing of a request but its parameters. -/
theorem matchRequest_frame (r : Router H) (req : Request) :
    (r.matchRequest req).1 = {req with params := (r.matchRequest req).1.params} := by
  rw [matchRequest_eq]
  exact foldl_matchPart_frame (segments req.path) (some r.root, req)

/-- Whether there is a handler for a method and a path. -/
def routes (r : Router H) (method path : Bytes) : Bool :=
  (r.matchRequest {method := method, path := path}).2.isSome

theorem matchRequest_routes (r : Router H) (req : Request) :
    (r.matchRequest req).2.isSome = r.routes req.method req.path := by
  rw [routes, matchRequest_eq, matchRequest_eq]
  rw [foldl_matchPart_node (segments req.path) (some r.root) req
    {method := req.method, path := req.path}]

/-- **The handler is that of the answering call.** -/
theorem matchRequest_handler (calls : List (Call H)) (req : Request) :
    ((ofCalls calls).matchRequest req).2 = (answering calls req).map Call.handler := by
  have hwalk := (foldl_matchPart calls (segments req.path) (π := []) rfl req).1
  rw [matchRequest_eq, hwalk, answering, reached]
  cases descend (shapes calls) [] (segments req.path) with
  | none => rfl
  | some τ => exact handlerAt_ofCalls calls τ req.method

theorem matchRequest_empty (req : Request) :
    ((Router.empty : Router H).matchRequest req).2 = none := by
  have hhandler := matchRequest_handler ([] : List (Call H)) req
  have hnone : answering ([] : List (Call H)) req = none := by
    unfold answering
    cases reached ([] : List (Call H)) req <;> rfl
  rwa [hnone] at hhandler

/-- The entries that the walk of a request stores. -/
def walked (calls : List (Call H)) (req : Request) : List (Bytes × Bytes) :=
  bindings (latestName calls) [] (taken (shapes calls) [] (segments req.path))
    (segments req.path)

/-- What `match` leaves of a request, whatever it returns. -/
theorem matchRequest_walked (calls : List (Call H)) (req : Request) :
    ((ofCalls calls).matchRequest req).1 =
      {req with params := Map.setAll req.params (walked calls req)} := by
  rw [matchRequest_eq]
  exact (foldl_matchPart calls (segments req.path) (π := []) rfl req).2

/-- The parameters stored for a request whose walk gets to its end. -/
theorem matchRequest_params (calls : List (Call H)) (req : Request) {τ : Pattern Bytes}
    (hτ : reached calls req = some τ) :
    ((ofCalls calls).matchRequest req).1.params =
      Map.setAll req.params (bindings (latestName calls) [] τ (segments req.path)) := by
  rw [matchRequest_walked, walked, taken_of_descend hτ]

end Router
end HttpServer
