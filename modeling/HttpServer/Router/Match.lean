import HttpServer.Router.Routes

/-! What `match` promises.

A request is answered by the first call of its method and of the shape its walk
ends in, so what is found is sound and the order of the calls does not matter.
Two things interfere between routes: a literal segment of one route hides the
parameter of another, and the name of a parameter is shared by all the routes
through its node. -/
namespace HttpServer
open Lib Lib.Wildcard

variable {H : Type u}

namespace Router

/-! ### The call that answers -/

/-- A call is rejected exactly when an earlier one has its shape and method. -/
theorem codes_getElem? (calls : List (Call H)) (i : Nat) :
    (codes calls)[i]? = (calls[i]?).map fun c =>
      bif (calls.take i).any (Call.slot (shape c.path) c.method) then -1 else 0 := by
  rw [codes, codes_registerAll]
  congr 1
  funext c
  rw [handlerAt_empty, Option.isSome_none, Bool.false_or]

theorem any_take_iff (calls : List (Call H)) (i : Nat) (p : Call H → Bool) :
    (calls.take i).any p = true ↔
      ∃ (j : Nat) (c : Call H), j < i ∧ calls[j]? = some c ∧ p c = true := by
  simp only [List.any_eq_true, List.mem_iff_getElem?, List.getElem?_take]
  constructor
  · intro h
    obtain ⟨c, ⟨j, hj⟩, hp⟩ := h
    split at hj
    · next hlt => exact ⟨j, c, hlt, hj, hp⟩
    · cases hj
  · intro h
    obtain ⟨j, c, hlt, hj, hp⟩ := h
    exact ⟨c, ⟨j, by rw [if_pos hlt, hj]⟩, hp⟩

theorem accepted_iff {calls : List (Call H)} {i : Nat} {c : Call H} (hc : calls[i]? = some c) :
    (codes calls)[i]? = some 0 ↔
      ∀ (j : Nat) (c' : Call H), j < i → calls[j]? = some c' →
        c'.slot (shape c.path) c.method = false := by
  rw [codes_getElem?, hc, Option.map_some, Option.some_inj]
  cases hany : (calls.take i).any (Call.slot (shape c.path) c.method) with
  | true =>
    obtain ⟨j, c', hlt, hj, hs⟩ := (any_take_iff ..).mp hany
    constructor
    · intro h
      cases h
    · intro h
      rw [h j c' hlt hj] at hs
      cases hs
  | false =>
    refine ⟨fun _ j c' hlt hj => ?_, fun _ => rfl⟩
    cases hs : c'.slot (shape c.path) c.method with
    | false => rfl
    | true => rw [(any_take_iff ..).mpr ⟨j, c', hlt, hj, hs⟩] at hany; cases hany

theorem rejected_of_earlier {calls : List (Call H)} {i j : Nat} {c c' : Call H}
    (hc : calls[i]? = some c) (hc' : calls[j]? = some c') (hlt : j < i)
    (hs : c'.slot (shape c.path) c.method = true) : (codes calls)[i]? = some (-1) := by
  rw [codes_getElem?, hc, Option.map_some, (any_take_iff ..).mpr ⟨j, c', hlt, hc', hs⟩]
  rfl

theorem slot_iff {τ : Pattern Bytes} {m : Bytes} {c : Call H} :
    c.slot τ m = true ↔ shape c.path = τ ∧ c.method = m := by
  simp [Call.slot]

/-- The answering call is the accepted one of the request's method whose shape is reached. -/
theorem answering_eq_some_iff {calls : List (Call H)} {req : Request} {c : Call H} :
    answering calls req = some c ↔
      ∃ i : Nat, calls[i]? = some c ∧ (codes calls)[i]? = some 0 ∧ c.method = req.method ∧
        reached calls req = some (shape c.path) := by
  unfold answering
  constructor
  · intro h
    obtain ⟨τ, hτ, hfind⟩ := Option.bind_eq_some_iff.mp h
    obtain ⟨hslot, i, hi, hc, hbefore⟩ := List.find?_eq_some_iff_getElem.mp hfind
    obtain ⟨rfl, hm⟩ := slot_iff.mp hslot
    have hget : calls[i]? = some c := List.getElem?_eq_some_iff.mpr ⟨hi, hc⟩
    refine ⟨i, hget, (accepted_iff hget).mpr fun j c' hlt hj => ?_, hm, hτ⟩
    obtain ⟨hjl, rfl⟩ := List.getElem?_eq_some_iff.mp hj
    rw [hm]
    simpa using hbefore j hlt
  · intro h
    obtain ⟨i, hc, hacc, hm, hτ⟩ := h
    obtain ⟨hi, hget⟩ := List.getElem?_eq_some_iff.mp hc
    rw [hτ, Option.bind_some]
    refine List.find?_eq_some_iff_getElem.mpr ⟨slot_iff.mpr ⟨rfl, hm⟩, i, hi, hget, ?_⟩
    intro j hlt
    have := (accepted_iff hc).mp hacc j calls[j] hlt (List.getElem?_eq_getElem (by omega))
    rw [hm] at this
    simp [this]

theorem mem_shapes {calls : List (Call H)} {i : Nat} {c : Call H} (hc : calls[i]? = some c) :
    shape c.path ∈ shapes calls :=
  List.mem_map.mpr ⟨c, List.mem_of_getElem? hc, rfl⟩

/-- **When `match` returns true.** Exactly when an accepted pattern of the
request's method matches its path with no parameter of it hidden by a literal
segment that a registered pattern has at that place. -/
theorem match_isSome_iff (calls : List (Call H)) (req : Request) :
    ((ofCalls calls).matchRequest req).2.isSome = true ↔
      ∃ (i : Nat) (c : Call H), calls[i]? = some c ∧ (codes calls)[i]? = some 0 ∧
        c.method = req.method ∧ Matches (shape c.path) (segments req.path) ∧
        ¬ Shadowed (shapes calls) (shape c.path) (segments req.path) := by
  rw [matchRequest_handler, Option.isSome_map, Option.isSome_iff_exists]
  constructor
  · intro h
    obtain ⟨c, hc⟩ := h
    obtain ⟨i, hi, hacc, hm, hτ⟩ := answering_eq_some_iff.mp hc
    exact ⟨i, c, hi, hacc, hm, (descend_eq_some_iff (mem_shapes hi) _).mp hτ⟩
  · intro h
    obtain ⟨i, c, hi, hacc, hm, hmatch⟩ := h
    exact ⟨c, answering_eq_some_iff.mpr
      ⟨i, hi, hacc, hm, (descend_eq_some_iff (mem_shapes hi) _).mpr hmatch⟩⟩

/-- `/a/c` is matched by `/:x/c`, but the walk enters `/a/b` and finds no way on. -/
theorem match_goes_no_way_back :
    ¬ ∀ (calls : List (Call Nat)) (req : Request),
      (∃ (i : Nat) (c : Call Nat), calls[i]? = some c ∧ (codes calls)[i]? = some 0 ∧
        c.method = req.method ∧ Matches (shape c.path) (segments req.path)) →
      ((ofCalls calls).matchRequest req).2.isSome = true := by
  intro h
  have hfound := h [⟨text "GET", text "/a/b", 0⟩, ⟨text "GET", text "/:x/c", 1⟩]
    {method := text "GET", path := text "/a/c"}
    ⟨1, _, rfl, by decide, rfl, ⟨.inl rfl, .inr rfl, trivial⟩⟩
  revert hfound
  decide

/-- **Soundness, and the first registration wins.** -/
theorem match_first_registered (calls : List (Call H)) (req : Request) (h : H)
    (hmatch : ((ofCalls calls).matchRequest req).2 = some h) :
    ∃ (i : Nat) (c : Call H), calls[i]? = some c ∧ (codes calls)[i]? = some 0 ∧
      c.handler = h ∧ c.method = req.method ∧ Matches (shape c.path) (segments req.path) ∧
      (∀ s ∈ segments req.path, s ≠ []) ∧
      ∀ (j : Nat) (c' : Call H), calls[j]? = some c' → c'.method = c.method →
        shape c'.path = shape c.path → j = i ∨ i < j ∧ (codes calls)[j]? = some (-1) := by
  rw [matchRequest_handler] at hmatch
  obtain ⟨c, hc, hh⟩ := Option.map_eq_some_iff.mp hmatch
  obtain ⟨i, hi, hacc, hm, hτ⟩ := answering_eq_some_iff.mp hc
  refine ⟨i, c, hi, hacc, hh, hm, descend_matches hτ, fun s hs => splitPath_nonempty hs, ?_⟩
  intro j c' hj hm' hs'
  rcases Nat.lt_trichotomy j i with hlt | rfl | hlt
  · have hfree := (accepted_iff hi).mp hacc j c' hlt hj
    rw [slot_iff.mpr ⟨hs', hm'⟩] at hfree
    cases hfree
  · exact .inl rfl
  · exact .inr ⟨hlt, rejected_of_earlier hj hi hlt (slot_iff.mpr ⟨hs'.symm, hm'.symm⟩)⟩

theorem match_first_registered_get : ∃ (i : Nat) (c : Call Nat),
    [(⟨text "GET", text "/a/:x", 0⟩ : Call Nat),
      ⟨text "GET", text "/a/:y", 1⟩][i]? = some c ∧ c.handler = 0 := by
  obtain ⟨i, c, hi, _, hh, _⟩ := match_first_registered
    [⟨text "GET", text "/a/:x", 0⟩, ⟨text "GET", text "/a/:y", 1⟩]
    {method := text "GET", path := text "/a/7?b"} 0 (by decide)
  exact ⟨i, c, hi, hh⟩

/-! ### Order -/

/-- Where no two calls share a slot, the call found for it is the one there is. -/
theorem find?_slot_iff {calls : List (Call H)}
    (hd : (calls.map fun c => (c.method, shape c.path)).Nodup) (τ : Pattern Bytes) (m : Bytes)
    (c : Call H) :
    calls.find? (Call.slot τ m) = some c ↔ c ∈ calls ∧ c.slot τ m = true := by
  constructor
  · intro h
    exact ⟨List.mem_of_find?_eq_some h, List.find?_some h⟩
  · intro h
    obtain ⟨hc, hs⟩ := h
    obtain ⟨d, hd'⟩ := Option.isSome_iff_exists.mp (List.find?_isSome.mpr ⟨c, hc, hs⟩)
    have hdm := List.mem_of_find?_eq_some hd'
    obtain ⟨hds, hdmeth⟩ := slot_iff.mp (List.find?_some hd')
    obtain ⟨hcs, hcmeth⟩ := slot_iff.mp hs
    have hkey : (d.method, shape d.path) = (c.method, shape c.path) := by
      rw [hds, hdmeth, hcs, hcmeth]
    rw [hd', List.inj_on_of_nodup_map hd hdm hc hkey]

theorem within_shapes_perm {calls calls' : List (Call H)} (hp : calls.Perm calls')
    (π : Pattern Bytes) : Within (shapes calls) π ↔ Within (shapes calls') π := by
  simp only [Within, shapes, (hp.map fun c => shape c.path).mem_iff]

/-- **The order of the registrations does not matter** where no two have the same
method and shape. -/
theorem match_perm (calls calls' : List (Call H)) (hp : calls.Perm calls')
    (hd : (calls.map fun c => (c.method, shape c.path)).Nodup) (req : Request) :
    ((ofCalls calls).matchRequest req).2 = ((ofCalls calls').matchRequest req).2 := by
  have hd' : (calls'.map fun c => (c.method, shape c.path)).Nodup := (hp.map _).nodup_iff.mp hd
  have hreached : reached calls req = reached calls' req :=
    descend_congr (within_shapes_perm hp) [] (segments req.path)
  have hfind : ∀ τ, calls.find? (Call.slot τ req.method) =
      calls'.find? (Call.slot τ req.method) := by
    intro τ
    apply Option.ext
    intro c
    rw [find?_slot_iff hd, find?_slot_iff hd', hp.mem_iff]
  rw [matchRequest_handler, matchRequest_handler, answering, answering, hreached]
  simp only [hfind]

theorem match_perm_swap :
    ((ofCalls [⟨text "GET", text "/:x/c", 1⟩, ⟨text "GET", text "/a/b", 0⟩]).matchRequest
        {method := text "GET", path := text "/d/c"}).2 =
      ((ofCalls [(⟨text "GET", text "/a/b", 0⟩ : Call Nat),
        ⟨text "GET", text "/:x/c", 1⟩]).matchRequest
          {method := text "GET", path := text "/d/c"}).2 :=
  match_perm _ _ (List.Perm.swap ..) (by decide) {method := text "GET", path := text "/d/c"}

/-! ### Parameters -/

/-- The parameters of a pattern's own parts, with the segments at their places. -/
def ownBindings : List Bytes → List Bytes → List (Bytes × Bytes)
  | part :: parts, s :: w =>
    if isParam part then (part.drop 1, s) :: ownBindings parts w else ownBindings parts w
  | _, _ => []

/-- Each name written in the pattern to the segment at its place, the last place winning. -/
def writtenParams (path : Bytes) (w : List Bytes) : Map Bytes Bytes :=
  Map.ofList (ownBindings (splitPath path) w)

/-- The calls with their places for handlers. -/
def tagged (calls : List (Call H)) : List (Call Nat) :=
  calls.mapIdx fun i c => ⟨c.method, c.path, i⟩

/-- The place of the call whose handler `match` returns. -/
def serving (calls : List (Call H)) (req : Request) : Option Nat :=
  ((ofCalls (tagged calls)).matchRequest req).2

/-- For every name, its last place in the pattern and its last place among the
names the last calls through the pattern's nodes wrote hold the same segment. -/
def NamesAgree (calls : List (Call H)) (path : Bytes) (w : List Bytes) : Prop :=
  ∀ name, Map.lastValue (bindings (latestName calls) [] (shape path) w) name =
    Map.lastValue (ownBindings (splitPath path) w) name

/-- The last call through each of a pattern's parameters writes the pattern's own name there. -/
def KeepsNames (calls : List (Call H)) (path : Bytes) : Prop :=
  ∀ before part after, splitPath path = before ++ part :: after → isParam part = true →
    latestName calls (before.map segment ++ [none]) = part.drop 1

theorem bindings_kept {calls : List (Call H)} {before parts : List Bytes}
    (h : ∀ mid part after, parts = mid ++ part :: after → isParam part = true →
      latestName calls ((before ++ mid).map segment ++ [none]) = part.drop 1) (w : List Bytes) :
    bindings (latestName calls) (before.map segment) (parts.map segment) w =
      ownBindings parts w := by
  induction parts generalizing before w with
  | nil => rfl
  | cons part parts ih =>
    cases w with
    | nil => cases hpart : segment part <;> simp [bindings, ownBindings, hpart]
    | cons s w =>
      have hrest := @ih (before ++ [part]) (fun mid part' after heq hparam => by
        rw [List.append_assoc]
        exact h (part :: mid) part' after (by rw [heq]; rfl) hparam) w
      rw [List.map_append, List.map_singleton] at hrest
      by_cases hparam : isParam part = true
      · have hname := h [] part parts rfl hparam
        have hsegment : segment part = none := if_pos hparam
        rw [List.append_nil] at hname
        rw [hsegment] at hrest
        rw [List.map_cons, hsegment, bindings, ownBindings, if_pos hparam, hname, hrest]
      · have hsegment : segment part = some part := if_neg hparam
        rw [hsegment] at hrest
        rw [List.map_cons, hsegment, bindings, ownBindings, if_neg hparam, hrest]

/-- So the names agree where every parameter keeps its name. -/
theorem KeepsNames.agree {calls : List (Call H)} {path : Bytes} (h : KeepsNames calls path)
    (w : List Bytes) : NamesAgree calls path w := by
  intro name
  have hsame : bindings (latestName calls) [] (shape path) w = ownBindings (splitPath path) w :=
    @bindings_kept H calls [] (splitPath path) h w
  rw [hsame]

theorem getElem?_tagged (calls : List (Call H)) (i : Nat) :
    (tagged calls)[i]? = (calls[i]?).map fun c => ⟨c.method, c.path, i⟩ := by
  simp [tagged]

theorem shapes_tagged (calls : List (Call H)) : shapes (tagged calls) = shapes calls := by
  apply List.ext_getElem?
  intro i
  simp [shapes, getElem?_tagged, Function.comp_def]

theorem codes_tagged (calls : List (Call H)) {i : Nat} {c : Call H} (hc : calls[i]? = some c) :
    (codes (tagged calls))[i]? = some 0 ↔ (codes calls)[i]? = some 0 := by
  have ht : (tagged calls)[i]? = some ⟨c.method, c.path, i⟩ := by rw [getElem?_tagged, hc]; rfl
  rw [accepted_iff ht, accepted_iff hc]
  constructor
  · intro h j c' hlt hj
    exact h j ⟨c'.method, c'.path, j⟩ hlt (by rw [getElem?_tagged, hj]; rfl)
  · intro h j d hlt hj
    rw [getElem?_tagged] at hj
    obtain ⟨c', hc', rfl⟩ := Option.map_eq_some_iff.mp hj
    exact h j c' hlt hc'

theorem serving_eq_some_iff {calls : List (Call H)} {req : Request} {i : Nat} :
    serving calls req = some i ↔ ∃ c, calls[i]? = some c ∧ (codes calls)[i]? = some 0 ∧
      c.method = req.method ∧ reached calls req = some (shape c.path) := by
  have hreached : reached (tagged calls) req = reached calls req := by
    rw [reached, shapes_tagged, reached]
  rw [serving, matchRequest_handler, Option.map_eq_some_iff]
  constructor
  · intro h
    obtain ⟨d, hd, rfl⟩ := h
    obtain ⟨j, hj, hacc, hm, hτ⟩ := answering_eq_some_iff.mp hd
    rw [getElem?_tagged] at hj
    obtain ⟨c, hc, rfl⟩ := Option.map_eq_some_iff.mp hj
    exact ⟨c, hc, (codes_tagged calls hc).mp hacc, hm, hreached ▸ hτ⟩
  · intro h
    obtain ⟨c, hc, hacc, hm, hτ⟩ := h
    refine ⟨⟨c.method, c.path, i⟩, answering_eq_some_iff.mpr ⟨i, ?_, ?_, hm, ?_⟩, rfl⟩
    · rw [getElem?_tagged, hc]
      rfl
    · exact (codes_tagged calls hc).mpr hacc
    · exact hreached.trans hτ

/-- `serving` names the call whose handler `match` returns. -/
theorem matchRequest_serving (calls : List (Call H)) (req : Request) :
    ((ofCalls calls).matchRequest req).2 =
      (serving calls req).bind fun i => (calls[i]?).map Call.handler := by
  rw [matchRequest_handler]
  cases hs : serving calls req with
  | some i =>
    obtain ⟨c, hc, hacc, hm, hτ⟩ := serving_eq_some_iff.mp hs
    rw [answering_eq_some_iff.mpr ⟨i, hc, hacc, hm, hτ⟩, Option.bind_some, hc]
  | none =>
    cases ha : answering calls req with
    | none => rfl
    | some c =>
      obtain ⟨i, hc⟩ := answering_eq_some_iff.mp ha
      rw [serving_eq_some_iff.mpr ⟨c, hc⟩] at hs
      cases hs

theorem params_eq_iff {calls : List (Call H)} {req : Request} {i : Nat} {c : Call H}
    (hs : serving calls req = some i) (hc : calls[i]? = some c) (hp : req.params = ∅) :
    ((ofCalls calls).matchRequest req).1.params = writtenParams c.path (segments req.path) ↔
      NamesAgree calls c.path (segments req.path) := by
  obtain ⟨c', hc', _, _, hτ⟩ := serving_eq_some_iff.mp hs
  obtain rfl : c' = c := by rw [hc] at hc'; exact (Option.some.inj hc').symm
  rw [matchRequest_params calls req hτ, hp]
  exact Map.ofList_eq_iff _ _

/-- A pattern whose parameters keep their names has them in every request it serves. -/
theorem params_kept {calls : List (Call H)} {req : Request} {i : Nat} {c : Call H}
    (hs : serving calls req = some i) (hc : calls[i]? = some c) (hp : req.params = ∅)
    (hkept : KeepsNames calls c.path) :
    ((ofCalls calls).matchRequest req).1.params = writtenParams c.path (segments req.path) :=
  (params_eq_iff hs hc hp).mpr (hkept.agree (segments req.path))

/-- **What a served request's parameters are.** They are those of the serving
pattern exactly when the names the trie has at its places agree with its own. -/
theorem params_as_written_iff (calls : List (Call H)) (req : Request) (i : Nat) (c : Call H)
    (hs : serving calls req = some i) (hc : calls[i]? = some c) (hp : req.params = ∅) :
    ((ofCalls calls).matchRequest req).2 = some c.handler ∧
    (((ofCalls calls).matchRequest req).1.params =
        writtenParams c.path (segments req.path) ↔
      NamesAgree calls c.path (segments req.path)) := by
  refine ⟨?_, params_eq_iff hs hc hp⟩
  rw [matchRequest_serving, hs, Option.bind_some, hc]
  rfl

theorem params_as_written_two : NamesAgree [(⟨text "GET", text "/:a/x", 0⟩ : Call Nat),
    ⟨text "GET", text "/:a/y", 1⟩] (text "/:a/x") [text "1", text "x"] :=
  (params_as_written_iff [(⟨text "GET", text "/:a/x", 0⟩ : Call Nat),
    ⟨text "GET", text "/:a/y", 1⟩] {method := text "GET", path := text "/1/x"} 0 _
    (by decide) rfl rfl).2.mp (by decide)

/-- `/:b/y` renames the parameter that `/:a/x` goes through. -/
theorem params_renamed :
    ¬ ∀ (calls : List (Call Nat)) (req : Request) (i : Nat) (c : Call Nat),
      serving calls req = some i → calls[i]? = some c → req.params = ∅ →
      ((ofCalls calls).matchRequest req).1.params =
        writtenParams c.path (segments req.path) := by
  intro h
  have hparams := h [⟨text "GET", text "/:a/x", 0⟩, ⟨text "GET", text "/:b/y", 1⟩]
    {method := text "GET", path := text "/1/x"} 0 _ (by decide) rfl rfl
  revert hparams
  decide

/-! ### Literal routes -/

theorem shape_literal {path : Bytes} (h : ∀ part ∈ splitPath path, isParam part = false) :
    shape path = (splitPath path).map some := by
  refine List.map_congr_left fun part hpart => ?_
  rw [segment, h part hpart]
  rfl

/-- Literal edges store nothing. -/
theorem bindings_literal (name : Pattern Bytes → Bytes) (π : Pattern Bytes) (w w' : List Bytes) :
    bindings name π (w.map some) w' = [] := by
  induction w generalizing π w' with
  | nil => rfl
  | cons a w ih =>
    cases w' with
    | nil => rfl
    | cons s w' => exact ih _ _

/-- **A literal route is never hidden**: whatever else is registered, before it or after it,
a request for its path is served by that call, and nothing is stored in it. -/
theorem match_literal {calls : List (Call H)} {i : Nat} {c : Call H} {req : Request}
    (hc : calls[i]? = some c) (hacc : (codes calls)[i]? = some 0)
    (hliteral : ∀ part ∈ splitPath c.path, isParam part = false) (hm : c.method = req.method)
    (hpath : segments req.path = splitPath c.path) :
    (ofCalls calls).matchRequest req = (req, some c.handler) ∧ serving calls req = some i := by
  have hshape := shape_literal hliteral
  have hreached : reached calls req = some (shape c.path) := by
    rw [reached, descend_eq_some_iff (mem_shapes hc), hshape, hpath]
    exact ⟨matches_literal _, not_shadowed_literal _ _ _⟩
  have hserving : serving calls req = some i :=
    serving_eq_some_iff.mpr ⟨c, hc, hacc, hm, hreached⟩
  refine ⟨Prod.ext ?_ ?_, hserving⟩
  · have hparams := matchRequest_params calls req hreached
    rw [hshape, bindings_literal, Map.setAll_nil] at hparams
    rw [matchRequest_frame, hparams]
  · rw [matchRequest_serving, hserving, Option.bind_some, hc]
    rfl

theorem match_literal_get :
    (ofCalls [(⟨text "GET", text "/:x/c", 0⟩ : Call Nat), ⟨text "GET", text "/a/b", 1⟩,
        ⟨text "GET", text "/a/:y/z", 2⟩]).matchRequest
          {method := text "GET", path := text "//a/b/?x=/:y"} =
        ({method := text "GET", path := text "//a/b/?x=/:y"}, some 1) ∧
      serving [(⟨text "GET", text "/:x/c", 0⟩ : Call Nat), ⟨text "GET", text "/a/b", 1⟩,
        ⟨text "GET", text "/a/:y/z", 2⟩]
          {method := text "GET", path := text "//a/b/?x=/:y"} = some 1 :=
  @match_literal Nat [⟨text "GET", text "/:x/c", 0⟩, ⟨text "GET", text "/a/b", 1⟩,
    ⟨text "GET", text "/a/:y/z", 2⟩] 1 ⟨text "GET", text "/a/b", 1⟩
      {method := text "GET", path := text "//a/b/?x=/:y"} rfl (by decide) (by decide) rfl
        (by decide)

end Router
end HttpServer
