import Mathlib.Data.List.TakeWhile
import HttpServer.Router.Match

/-! What `match` and a rejected registration leave behind.

`match` stores a parameter as soon as its walk takes a parameter edge, and nothing takes it
back where the walk gets stuck or no handler is found (`match_effect`). A registration that
is rejected has written its names by then: requests notice if one of them is another than
the one that stood there, and a request can get there (`rejected_unnoticed_iff`). -/
namespace HttpServer
open Lib Lib.Wildcard

variable {H : Type u}

namespace Router

/-! ### A match -/

/-- **What `match` changes, whether it returns true or false**: the parameters, by what the
walk stores, and not even these if they were what it stores. -/
theorem match_effect (calls : List (Call H)) (req : Request) :
    ((ofCalls calls).matchRequest req).1 =
        {req with params := Map.setAll req.params (walked calls req)} ∧
      (((ofCalls calls).matchRequest req).1 = req ↔
        ∀ name value, Map.lastValue (walked calls req) name = some value →
          req.params.lookup name = some value) := by
  have hwalked := matchRequest_walked calls req
  refine ⟨hwalked, ?_⟩
  rw [hwalked, ← Map.setAll_eq_self_iff]
  constructor
  · exact fun h => congrArg Request.params h
  · intro h
    rw [h]

/-- `/1/y` goes through the parameter of `/:a/x` before it finds no way on. -/
theorem failed_match_stores :
    ¬ ∀ (calls : List (Call Nat)) (req : Request),
      ((ofCalls calls).matchRequest req).2 = none → ((ofCalls calls).matchRequest req).1 = req := by
  intro h
  have hparams := congrArg (fun req => req.params.lookup (text "a"))
    (h [⟨text "GET", text "/:a/x", 0⟩] {method := text "GET", path := text "/1/y"} (by decide))
  revert hparams
  decide

/-! ### One more call -/

theorem registerAll_concat (calls : List (Call H)) (r : Router H) (c : Call H) :
    (registerAll r (calls ++ [c])).1 =
      ((registerAll r calls).1.registerHandler c.method c.path c.handler).1 := by
  induction calls generalizing r with
  | nil => rfl
  | cons d calls ih => exact ih _

theorem ofCalls_concat (calls : List (Call H)) (c : Call H) :
    ofCalls (calls ++ [c]) = ((ofCalls calls).registerHandler c.method c.path c.handler).1 :=
  registerAll_concat calls empty c

/-- A call is rejected where an earlier one has its shape and its method. -/
theorem exists_of_rejected {calls : List (Call H)} {c : Call H}
    (h : ((ofCalls calls).registerHandler c.method c.path c.handler).2 = -1) :
    ∃ d ∈ calls, d.slot (shape c.path) c.method = true := by
  rw [registerHandler] at h
  simp only at h
  rw [Node.register_code, ← shape, handlerAt_ofCalls, Option.isSome_map] at h
  split at h
  · next hfound => exact List.find?_isSome.mp hfound
  · cases h

/-- The name that stands at a parameter node after one more call. -/
theorem latestName_concat (calls : List (Call H)) (c : Call H) (π : Pattern Bytes) :
    latestName (calls ++ [c]) π =
      (Node.writtenName (splitPath c.path) π).getD (latestName calls π) := by
  rw [latestName, List.reverse_append, List.reverse_singleton, List.singleton_append,
    List.findSome?_cons]
  cases Node.writtenName (splitPath c.path) π <;> rfl

theorem within_concat {calls : List (Call H)} {c : Call H}
    (h : ∃ d ∈ calls, d.slot (shape c.path) c.method = true) (π : Pattern Bytes) :
    Within (shapes (calls ++ [c])) π ↔ Within (shapes calls) π := by
  obtain ⟨d, hd, hslot⟩ := h
  have hshape : shape c.path ∈ shapes calls :=
    List.mem_map.mpr ⟨d, hd, (slot_iff.mp hslot).1⟩
  constructor
  · intro hin
    obtain ⟨ρ, hρ, hπ⟩ := hin
    rw [shapes, List.map_append] at hρ
    rcases List.mem_append.mp hρ with hρ | hρ
    · exact ⟨ρ, hρ, hπ⟩
    · rw [List.mem_singleton.mp hρ] at hπ
      exact ⟨_, hshape, hπ⟩
  · intro hin
    obtain ⟨ρ, hρ, hπ⟩ := hin
    refine ⟨ρ, ?_, hπ⟩
    rw [shapes, List.map_append]
    exact List.mem_append_left _ hρ

/-- A rejected call changes no handler that is found. -/
theorem handler_concat {calls : List (Call H)} {c : Call H}
    (h : ∃ d ∈ calls, d.slot (shape c.path) c.method = true) (req : Request) :
    ((ofCalls (calls ++ [c])).matchRequest req).2 = ((ofCalls calls).matchRequest req).2 := by
  have hreached : reached (calls ++ [c]) req = reached calls req :=
    descend_congr (within_concat h) [] (segments req.path)
  have hfind : ∀ τ, (calls ++ [c]).find? (Call.slot τ req.method) =
      calls.find? (Call.slot τ req.method) := by
    intro τ
    rw [List.find?_append]
    cases hfound : calls.find? (Call.slot τ req.method) with
    | some d => rfl
    | none =>
      obtain ⟨d, hd, hslot⟩ := h
      obtain ⟨hshape, hmethod⟩ := slot_iff.mp hslot
      have hmiss := List.find?_eq_none.mp hfound d hd
      have hnot : c.slot τ req.method = false := by
        rw [Bool.eq_false_iff]
        intro hc
        obtain ⟨hcshape, hcmethod⟩ := slot_iff.mp hc
        exact hmiss (slot_iff.mpr ⟨hshape.trans hcshape, hmethod.trans hcmethod⟩)
      rw [Option.none_or, List.find?_cons, hnot]
      rfl
  rw [matchRequest_handler, matchRequest_handler, answering, answering, hreached]
  simp only [hfind]

/-! ### Names that are noticed -/

/-- At the parameter node behind `π` the path writes another name than the one there. -/
def Renames (calls : List (Call H)) (path : Bytes) (π : Pattern Bytes) : Prop :=
  ∃ name, Node.writtenName (splitPath path) (π ++ [none]) = some name ∧
    name ≠ latestName calls (π ++ [none])

/-- No literal on the way has a question mark, which no segment of a request has. -/
def Passable (π : Pattern Bytes) : Prop := ∀ a, some a ∈ π → ch '?' ∉ a

/-! ### Segments -/

theorem mem_splitOn {x : UInt8} {path s : Bytes} (h : s ∈ path.splitOn x) :
    ∀ b ∈ s, b ∈ path ∧ b ≠ x := by
  induction path generalizing s with
  | nil =>
    rw [List.splitOn_nil, List.mem_singleton] at h
    rw [h]
    exact fun b hb => absurd hb List.not_mem_nil
  | cons y path ih =>
    rw [List.splitOn_cons_eq_if_modifyHead] at h
    split at h
    · rcases List.mem_cons.mp h with rfl | h
      · exact fun b hb => absurd hb List.not_mem_nil
      · exact fun b hb => ⟨List.mem_cons_of_mem _ (ih h b hb).1, (ih h b hb).2⟩
    · next hy =>
      obtain ⟨first, rest, hsplit⟩ := List.exists_cons_of_ne_nil (List.splitOn_ne_nil x path)
      rw [hsplit, List.modifyHead_cons] at h
      have hrest : ∀ s ∈ first :: rest, ∀ b ∈ s, b ∈ y :: path ∧ b ≠ x := by
        intro s hs b hb
        rw [← hsplit] at hs
        exact ⟨List.mem_cons_of_mem _ (ih hs b hb).1, (ih hs b hb).2⟩
      rcases List.mem_cons.mp h with rfl | h
      · intro b hb
        rcases List.mem_cons.mp hb with rfl | hb
        · exact ⟨List.mem_cons_self .., fun heq => hy (by rw [heq]; exact beq_self_eq_true x)⟩
        · exact hrest first (List.mem_cons_self ..) b hb
      · exact hrest s (List.mem_cons_of_mem _ h)

theorem mem_intercalate {x : UInt8} {w : List Bytes} {b : UInt8}
    (h : b ∈ [x].intercalate w) : b = x ∨ ∃ s ∈ w, b ∈ s := by
  induction w with
  | nil => cases h
  | cons s w ih =>
    by_cases hw : w = []
    · rw [hw, List.intercalate_singleton] at h
      exact .inr ⟨s, List.mem_cons_self .., h⟩
    · rw [List.intercalate_cons_of_ne_nil hw] at h
      rcases List.mem_append.mp h with h | h
      · rcases List.mem_append.mp h with h | h
        · exact .inr ⟨s, List.mem_cons_self .., h⟩
        · exact .inl (List.mem_singleton.mp h)
      · rcases ih h with hx | ⟨t, ht, hb⟩
        · exact .inl hx
        · exact .inr ⟨t, List.mem_cons_of_mem _ ht, hb⟩

/-- What a segment of a path may be. -/
def Plain (s : Bytes) : Prop := s ≠ [] ∧ ch '/' ∉ s ∧ ch '?' ∉ s

/-- The segments of a request are plain. -/
theorem plain_segments {path s : Bytes} (h : s ∈ segments path) : Plain s := by
  have hsplit := mem_splitOn (List.mem_filter.mp h).1
  refine ⟨splitPath_nonempty h, fun hb => (hsplit _ hb).2 rfl, fun hb => ?_⟩
  have hpath := List.mem_takeWhile_imp (hsplit _ hb).1
  simp at hpath

/-- Plain segments are those of a path. -/
theorem exists_path {w : List Bytes} (hne : w ≠ []) (h : ∀ s ∈ w, Plain s) :
    ∃ path, segments path = w := by
  refine ⟨[ch '/'].intercalate w, ?_⟩
  have hquery : pathWithoutQuery ([ch '/'].intercalate w) = [ch '/'].intercalate w := by
    rw [pathWithoutQuery, List.takeWhile_eq_self_iff]
    intro b hb
    apply decide_eq_true
    intro heq
    rcases mem_intercalate hb with hslash | ⟨s, hs, hbs⟩
    · rw [heq] at hslash
      exact absurd hslash (by decide)
    · exact (h s hs).2.2 (heq ▸ hbs)
  rw [segments, hquery, splitPath, List.splitOn_intercalate _ (fun s hs => (h s hs).2.1) hne,
    List.filter_eq_self]
  exact fun s hs => decide_eq_true (h s hs).1

/-! ### A request that gets to a parameter node -/

/-- Bindings depend on the names at the parameter edges alone. -/
theorem bindings_congr {name name' : Pattern Bytes → Bytes} {π ρ : Pattern Bytes}
    (h : ∀ σ, σ ++ [none] <+: ρ → name (π ++ (σ ++ [none])) = name' (π ++ (σ ++ [none])))
    (w : List Bytes) : bindings name π ρ w = bindings name' π ρ w := by
  induction ρ generalizing π w with
  | nil => cases w <;> rfl
  | cons o ρ ih =>
    have hrest : ∀ σ, σ ++ [none] <+: ρ →
        name (π ++ [o] ++ (σ ++ [none])) = name' (π ++ [o] ++ (σ ++ [none])) := by
      intro σ hσ
      have hcons := h (o :: σ) (List.cons_prefix_cons.mpr ⟨rfl, hσ⟩)
      simpa using hcons
    cases w with
    | nil => cases o <;> rfl
    | cons s w =>
      cases o with
      | none =>
        have hfirst := h [] (List.cons_prefix_cons.mpr ⟨rfl, List.nil_prefix⟩)
        rw [List.nil_append] at hfirst
        rw [bindings, bindings, hfirst, ih hrest]
      | some a =>
        rw [bindings, bindings]
        exact ih hrest w

/-- The word that takes the literal edges of a pattern and stands `t` at its wildcards. -/
def filled (t : Bytes) (π : Pattern Bytes) : List Bytes := π.map fun o => o.getD t

/-- The last edge adds its own entry. -/
theorem bindings_concat (name : Pattern Bytes → Bytes) (t u : Bytes) (π ρ : Pattern Bytes) :
    bindings name π (ρ ++ [none]) (filled t ρ ++ [u]) =
      bindings name π ρ (filled t ρ) ++ [(name (π ++ ρ ++ [none]), u)] := by
  induction ρ generalizing π with
  | nil => simp [filled, bindings]
  | cons o ρ ih =>
    have hrest := ih (π ++ [o])
    rw [← List.append_cons π o ρ] at hrest
    cases o with
    | none => simpa [filled, bindings] using hrest
    | some a => simpa [filled, bindings] using hrest

/-- The other entries have `t` as their segment. -/
theorem mem_bindings_filled {name : Pattern Bytes → Bytes} {t : Bytes} {π ρ : Pattern Bytes}
    {e : Bytes × Bytes} (h : e ∈ bindings name π ρ (filled t ρ)) : e.2 = t := by
  induction ρ generalizing π with
  | nil => cases h
  | cons o ρ ih =>
    cases o with
    | none =>
      rcases List.mem_cons.mp h with rfl | h
      · rfl
      · exact ih h
    | some a => exact ih h

theorem matches_filled (t u : Bytes) (π : Pattern Bytes) :
    Matches (π ++ [none]) (filled t π ++ [u]) := by
  induction π with
  | nil => exact ⟨.inl rfl, trivial⟩
  | cons o π ih =>
    refine ⟨?_, ih⟩
    cases o with
    | none => exact .inl rfl
    | some a => exact .inr rfl

/-- What stands at the wildcards. -/
theorem filled_wildcard {t u a : Bytes} {π : Pattern Bytes} {k : Nat}
    (hk : (π ++ [none])[k]? = some none) (ha : (filled t π ++ [u])[k]? = some a) :
    a = t ∨ a = u := by
  induction π generalizing k with
  | nil =>
    cases k with
    | zero => exact .inr (Option.some.inj ha).symm
    | succ k => cases ha
  | cons o π ih =>
    cases k with
    | zero =>
      cases Option.some.inj hk
      exact .inl (Option.some.inj ha).symm
    | succ k => exact ih hk ha

/-- Literals are bounded in length. -/
theorem exists_longer (L : List (Pattern Bytes)) :
    ∃ n, ∀ ρ ∈ L, ∀ a, some a ∈ ρ → a.length ≤ n := by
  have hone : ∀ ρ : Pattern Bytes, ∃ n, ∀ a, some a ∈ ρ → a.length ≤ n := by
    intro ρ
    induction ρ with
    | nil => exact ⟨0, fun a ha => absurd ha List.not_mem_nil⟩
    | cons o ρ ih =>
      obtain ⟨n, hn⟩ := ih
      refine ⟨(o.getD []).length + n, fun a ha => ?_⟩
      rcases List.mem_cons.mp ha with rfl | ha
      · exact Nat.le_add_right ..
      · exact Nat.le_trans (hn a ha) (Nat.le_add_left ..)
  induction L with
  | nil => exact ⟨0, fun ρ hρ => absurd hρ List.not_mem_nil⟩
  | cons ρ L ih =>
    obtain ⟨n, hn⟩ := hone ρ
    obtain ⟨m, hm⟩ := ih
    refine ⟨n + m, fun σ hσ a ha => ?_⟩
    rcases List.mem_cons.mp hσ with rfl | hσ
    · exact Nat.le_trans (hn a ha) (Nat.le_add_right ..)
    · exact Nat.le_trans (hm σ hσ a ha) (Nat.le_add_left ..)

/-- Literals of a registered shape. -/
theorem literal_of_within {calls : List (Call H)} {π : Pattern Bytes}
    (h : Within (shapes calls) π) {a : Bytes} (ha : some a ∈ π) : a ≠ [] ∧ ch '/' ∉ a := by
  obtain ⟨ρ, hρ, hπ⟩ := h
  obtain ⟨c, _, rfl⟩ := List.mem_map.mp hρ
  obtain ⟨part, hpart, hsegment⟩ := List.mem_map.mp (hπ.subset ha)
  have hsame : part = a := by
    unfold segment at hsegment
    split at hsegment
    · cases hsegment
    · exact Option.some.inj hsegment
  rw [← hsame]
  exact ⟨splitPath_nonempty hpart, fun hb => (mem_splitOn (List.mem_filter.mp hpart).1 _ hb).2 rfl⟩

theorem plain_letters (n : Nat) : Plain (List.replicate (n + 1) (ch 'x')) := by
  refine ⟨List.cons_ne_nil _ _, fun hb => ?_, fun hb => ?_⟩
  · exact absurd (List.eq_of_mem_replicate hb) (by decide)
  · exact absurd (List.eq_of_mem_replicate hb) (by decide)

/-- **A parameter node that can be passed to is reached**, by a request whose last segment
is unlike the others. -/
theorem exists_reaching {calls : List (Call H)} {π : Pattern Bytes}
    (hin : Within (shapes calls) (π ++ [none])) (hpass : Passable π) :
    ∃ (t u path : Bytes), t ≠ u ∧ segments path = filled t π ++ [u] ∧
      taken (shapes calls) [] (segments path) = π ++ [none] := by
  obtain ⟨n, hn⟩ := exists_longer (shapes calls)
  have hfresh : ∀ m, ∀ σ : Pattern Bytes,
      ¬ Within (shapes calls) (σ ++ [some (List.replicate (n + m + 1) (ch 'x'))]) := by
    intro m σ ⟨ρ, hρ, hσ⟩
    have hle := hn ρ hρ _ (hσ.subset (List.mem_append_right _ (List.mem_singleton.mpr rfl)))
    rw [List.length_replicate] at hle
    omega
  generalize ht : List.replicate (n + 0 + 1) (ch 'x') = t
  generalize hu : List.replicate (n + 1 + 1) (ch 'x') = u
  have hplain : ∀ s ∈ filled t π ++ [u], Plain s := by
    intro s hs
    rcases List.mem_append.mp hs with hs | hs
    · obtain ⟨o, ho, rfl⟩ := List.mem_map.mp hs
      cases o with
      | none => exact ht ▸ plain_letters (n + 0)
      | some a =>
        obtain ⟨hne, hslash⟩ := literal_of_within hin.of_append ho
        exact ⟨hne, hslash, hpass a ho⟩
    · rw [List.mem_singleton.mp hs, ← hu]
      exact plain_letters (n + 1)
  obtain ⟨path, hpath⟩ := exists_path (by simp) hplain
  refine ⟨t, u, path, ?_, hpath, ?_⟩
  · intro heq
    have hlen := congrArg List.length heq
    rw [← ht, ← hu, List.length_replicate, List.length_replicate] at hlen
    omega
  · have hdescend := descend_of_matches (π := []) (matches_filled t u π) (.inr hin)
      fun k a hk ha => by
        rcases filled_wildcard hk ha with rfl | rfl
        · exact ht ▸ hfresh 0 _
        · exact hu ▸ hfresh 1 _
    rw [hpath]
    exact taken_of_descend hdescend

/-- A name is written on the way of the path. -/
theorem within_of_writtenName {parts : List Bytes} {π : Pattern Bytes} {name : Bytes}
    (h : Node.writtenName parts (π ++ [none]) = some name) :
    π ++ [none] <+: parts.map segment := by
  induction parts generalizing π with
  | nil => cases π <;> cases h
  | cons part rest ih =>
    rw [List.map_cons]
    cases π with
    | nil =>
      rw [List.nil_append, Node.writtenName] at h
      split at h
      · next hparam =>
        rw [segment_param hparam]
        exact List.cons_prefix_cons.mpr ⟨rfl, List.nil_prefix⟩
      · cases h
    | cons o π =>
      have hcons : Node.writtenName (part :: rest) (o :: (π ++ [none])) =
          if o = segment part then Node.writtenName rest (π ++ [none]) else none := by
        cases π <;> exact Node.writtenName_cons ..
      rw [List.cons_append, hcons] at h
      split at h
      · next ho => exact List.cons_prefix_cons.mpr ⟨ho, ih h⟩
      · cases h

/-! ### A rejected registration -/

/-- What a request that gets to the parameter node behind `π` has under a name. -/
theorem lookup_reaching {calls : List (Call H)} {π : Pattern Bytes} {t u path : Bytes}
    (hsegments : segments path = filled t π ++ [u])
    (htaken : taken (shapes calls) [] (segments path) = π ++ [none]) (htu : t ≠ u)
    (name : Bytes) :
    ((ofCalls calls).matchRequest {path := path}).1.params.lookup name = some u ↔
      name = latestName calls (π ++ [none]) := by
  have hwalked : walked calls {path := path} =
      bindings (latestName calls) [] π (filled t π) ++ [(latestName calls (π ++ [none]), u)] := by
    rw [walked, htaken, hsegments, bindings_concat, List.nil_append]
  rw [matchRequest_walked, hwalked, Map.setAll_concat, Map.lookup_insert_eq]
  constructor
  · intro hfound
    by_contra hother
    rw [if_neg hother] at hfound
    rcases Map.mem_of_lookup_setAll hfound with hmem | hnone
    · exact htu (mem_bindings_filled hmem).symm
    · cases hnone
  · exact fun hname => if_pos hname

/-- **A rejected registration is not noticed by any request, if it writes over no other name
where a request can get**, and only then. -/
theorem rejected_unnoticed_iff (calls : List (Call H)) (c : Call H)
    (h : ((ofCalls calls).registerHandler c.method c.path c.handler).2 = -1) :
    (∀ req, ((ofCalls calls).registerHandler c.method c.path c.handler).1.matchRequest req =
        (ofCalls calls).matchRequest req) ↔
      ∀ π, Passable π → ¬ Renames calls c.path π := by
  have hearlier := exists_of_rejected h
  rw [← ofCalls_concat]
  constructor
  · intro hsame π hpass ⟨name, hname, hother⟩
    have hin : Within (shapes calls) (π ++ [none]) := by
      obtain ⟨d, hd, hslot⟩ := hearlier
      refine ⟨_, List.mem_map.mpr ⟨d, hd, rfl⟩, ?_⟩
      rw [(slot_iff.mp hslot).1]
      exact within_of_writtenName hname
    obtain ⟨t, u, path, htu, hsegments, htaken⟩ := exists_reaching hin hpass
    have htaken' : taken (shapes (calls ++ [c])) [] (segments path) = π ++ [none] :=
      (taken_congr (within_concat hearlier) _ _).trans htaken
    have hafter := (lookup_reaching hsegments htaken' htu name).mpr
      (by rw [latestName_concat, hname, Option.getD_some])
    rw [hsame] at hafter
    exact hother ((lookup_reaching hsegments htaken htu name).mp hafter)
  · intro hnames req
    have htaken := taken_congr (within_concat hearlier) [] (segments req.path)
    have hbindings : walked (calls ++ [c]) req = walked calls req := by
      rw [walked, walked, htaken]
      refine bindings_congr (fun σ hσ => ?_) _
      rw [List.nil_append, latestName_concat]
      have hpass : Passable σ := fun a ha =>
        (plain_segments (mem_of_taken (hσ.subset (List.mem_append_left _ ha)))).2.2
      cases hname : Node.writtenName (splitPath c.path) (σ ++ [none]) with
      | none => rfl
      | some name =>
        by_contra hother
        exact hnames σ hpass ⟨name, hname, hother⟩
    refine Prod.ext ?_ (handler_concat hearlier req)
    rw [matchRequest_walked, matchRequest_walked, hbindings]

/-- `/:a` is rejected the second time without a trace. -/
theorem rejected_unnoticed_again :
    ((ofCalls [(⟨text "GET", text "/:a", 0⟩ : Call Nat)]).registerHandler (text "GET")
        (text "/:a") 1).1.matchRequest {method := text "GET", path := text "/1"} =
      (ofCalls [(⟨text "GET", text "/:a", 0⟩ : Call Nat)]).matchRequest
        {method := text "GET", path := text "/1"} := by
  refine (rejected_unnoticed_iff [⟨text "GET", text "/:a", 0⟩] ⟨text "GET", text "/:a", 1⟩
    (by decide)).mpr (fun π _ ⟨name, hname, hother⟩ => ?_) _
  have hlen := (within_of_writtenName hname).length_le
  have hone : ((splitPath (text "/:a")).map segment).length = 1 := by decide
  rw [List.length_append, List.length_singleton, hone] at hlen
  obtain rfl := List.length_eq_zero_iff.mp (show π.length = 0 by omega)
  have hsame : Node.writtenName (splitPath (text "/:a")) [none] = some (text "a") := by decide
  cases hsame.symm.trans hname
  exact hother (by decide)

/-- `/:b` is rejected, since `/:a` is there, and renames its parameter. -/
theorem rejected_renames :
    ¬ ∀ (calls : List (Call Nat)) (c : Call Nat),
      ((ofCalls calls).registerHandler c.method c.path c.handler).2 = -1 →
        ∀ req, ((ofCalls calls).registerHandler c.method c.path c.handler).1.matchRequest req =
          (ofCalls calls).matchRequest req := by
  intro h
  have hsame := congrArg (fun result => result.1.params.lookup (text "a"))
    (h [⟨text "GET", text "/:a", 0⟩] ⟨text "GET", text "/:b", 1⟩ (by decide)
      {method := text "GET", path := text "/1"})
  revert hsame
  decide

end Router
end HttpServer
