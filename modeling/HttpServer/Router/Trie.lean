import HttpServer.Router

/-! What the trie stands for.

A node is read through what hangs under it: for each pattern the node at its end
(`Node.under`), that node's handlers and its name. One registration does exactly
three things to what a node shows: it makes the prefixes of its shape exist
(`under_register`), it stores its handler at its shape unless one is there
(`handlerAt_register`), and it writes its own names on the parameter nodes it
passes (`nameAt_register`). Everything about routing follows from these. -/
namespace HttpServer
open Lib Lib.Wildcard

variable {H : Type u}

/-- A literal segment stands for itself, a parameter for any segment. -/
def segment (part : Bytes) : Option Bytes := if isParam part then none else some part

/-- A path pattern with the parameter names erased. -/
def shape (path : Bytes) : Pattern Bytes := (splitPath path).map segment

theorem segment_param {part : Bytes} (h : isParam part = true) : segment part = none := by
  simp [segment, h]

theorem lookup_setChild (key key' : Bytes) (child : Node H) (l : List (Bytes × Node H)) :
    (setChild key child l).lookup key' = if key' = key then some child else l.lookup key' := by
  induction l with
  | nil =>
    by_cases h : key' = key
    · simp [setChild, h]
    · have hb : (key' == key) = false := by simpa using h
      simp [setChild, List.lookup_cons, h, hb]
  | cons e l ih =>
    obtain ⟨k, c⟩ := e
    by_cases hk : k = key
    · subst hk
      by_cases h : key' = k
      · simp [setChild, h]
      · have hb : (key' == k) = false := by simpa using h
        simp [setChild, List.lookup_cons, h, hb]
    · rw [setChild, if_neg hk]
      by_cases hk' : key' = k
      · subst hk'
        simp [hk]
      · have hb : (key' == k) = false := by simpa using hk'
        simpa [List.lookup_cons, hb] using ih

namespace Node

/-- The child a pattern letter leads to. -/
def child (node : Node H) : Option Bytes → Option (Node H)
  | some part => node.staticChildren.lookup part
  | none => node.paramChild

/-- The node at the end of a pattern. -/
def under (node : Node H) : Pattern Bytes → Option (Node H)
  | [] => some node
  | o :: π => (node.child o).bind fun c => c.under π

def handlerAt (node : Node H) (π : Pattern Bytes) (method : Bytes) : Option H :=
  (node.under π).bind fun c => c.handlers.lookup method

def nameAt (node : Node H) (π : Pattern Bytes) : Option Bytes := (node.under π).map paramName

theorem under_append (node : Node H) (π ρ : Pattern Bytes) :
    node.under (π ++ ρ) = (node.under π).bind fun c => c.under ρ := by
  induction π generalizing node with
  | nil => rfl
  | cons o π ih =>
    simp only [List.cons_append, Node.under, Option.bind_assoc]
    congr 1
    funext c
    exact ih c

theorem under_snoc {node c : Node H} {π : Pattern Bytes} (h : node.under π = some c)
    (o : Option Bytes) : node.under (π ++ [o]) = c.child o := by
  rw [under_append, h]
  cases hc : c.child o <;> simp [Node.under, hc]

theorem under_empty_cons (o : Option Bytes) (π : Pattern Bytes) :
    (empty : Node H).under (o :: π) = none := by
  cases o <;> rfl

/-! ### One registration -/

/-- The child `registerHandler` goes on from, as it is when it gets there. -/
def entered (node : Node H) (part : Bytes) : Node H :=
  let c := (node.child (segment part)).getD empty
  if isParam part then {c with paramName := part.drop 1} else c

/-- The child is put back under its own letter, and nothing else moves. -/
theorem register_cons (node : Node H) (method : Bytes) (handler : H) (part : Bytes)
    (rest : List Bytes) :
    (∀ o, (node.register method handler (part :: rest)).1.child o =
      if o = segment part then some ((node.entered part).register method handler rest).1
      else node.child o) ∧
    (node.register method handler (part :: rest)).1.handlers = node.handlers ∧
    (node.register method handler (part :: rest)).1.paramName = node.paramName ∧
    (node.register method handler (part :: rest)).2 =
      ((node.entered part).register method handler rest).2 := by
  cases hp : isParam part
  · refine ⟨fun o => ?_, ?_, ?_, ?_⟩ <;>
      simp only [register, hp, entered, segment, Bool.false_eq_true, if_false, child]
    cases o with
    | none => simp
    | some p => simp [lookup_setChild]
  · refine ⟨fun o => ?_, ?_, ?_, ?_⟩ <;>
      simp only [register, hp, entered, segment, if_true, child]
    cases o <;> simp

/-- At its end a registration touches the handlers only. -/
theorem register_nil (node : Node H) (method : Bytes) (handler : H) :
    (∀ o, (node.register method handler []).1.child o = node.child o) ∧
    (∀ m, (node.register method handler []).1.handlers.lookup m =
      if m = method then (node.handlers.lookup m).or (some handler)
      else node.handlers.lookup m) ∧
    (node.register method handler []).1.paramName = node.paramName ∧
    (node.register method handler []).2 =
      if (node.handlers.lookup method).isSome then -1 else 0 := by
  cases hl : node.handlers.lookup method with
  | some h =>
    simp only [register, hl]
    refine ⟨fun o => trivial, fun m => ?_, trivial, rfl⟩
    by_cases hm : m = method
    · rw [if_pos hm, hm, hl]
      rfl
    · rw [if_neg hm]
  | none =>
    simp only [register, hl]
    refine ⟨fun o => by cases o <;> rfl, fun m => ?_, trivial, rfl⟩
    by_cases hm : m = method
    · rw [if_pos hm, hm, hl, Map.lookup_insert_eq, if_pos rfl]
      rfl
    · rw [if_neg hm, Map.lookup_insert_eq, if_neg hm]

theorem under_entered_cons (node : Node H) (part : Bytes) (o : Option Bytes) (π : Pattern Bytes) :
    (node.entered part).under (o :: π) = node.under (segment part :: o :: π) := by
  have hchild : (node.entered part).child o =
      ((node.child (segment part)).getD empty).child o := by
    unfold entered
    split <;> cases o <;> rfl
  rw [Node.under, Node.under, hchild]
  cases hc : node.child (segment part) with
  | none => cases o <;> rfl
  | some c => rfl

theorem handlerAt_entered (node : Node H) (part : Bytes) (π : Pattern Bytes) (m : Bytes) :
    (node.entered part).handlerAt π m = node.handlerAt (segment part :: π) m := by
  cases π with
  | cons o π => rw [handlerAt, handlerAt, under_entered_cons]
  | nil =>
    have hh : (node.entered part).handlers = ((node.child (segment part)).getD empty).handlers := by
      unfold entered
      split <;> rfl
    simp only [handlerAt, Node.under, Option.bind_some, hh]
    cases node.child (segment part) <;> rfl

/-- The prefixes of the shape exist afterwards, and what existed before. -/
theorem under_register (parts : List Bytes) (node : Node H) (method : Bytes) (handler : H)
    (π : Pattern Bytes) :
    ((node.register method handler parts).1.under π).isSome ↔
      (node.under π).isSome ∨ π <+: parts.map segment := by
  induction parts generalizing node π with
  | nil =>
    cases π with
    | nil => simp [Node.under]
    | cons o π => simp [Node.under, (register_nil node method handler).1]
  | cons part rest ih =>
    cases π with
    | nil => simp [Node.under]
    | cons o π =>
      rw [Node.under, (register_cons node method handler part rest).1, List.map_cons,
        List.cons_prefix_cons]
      by_cases ho : o = segment part
      · subst ho
        simp only [if_true, Option.bind_some, ih, true_and]
        cases π with
        | nil => simp [Node.under]
        | cons o π => rw [under_entered_cons]
      · simp [ho, Node.under]

/-- The handler is stored at the shape for the method, unless one is there. -/
theorem handlerAt_register (parts : List Bytes) (node : Node H) (method : Bytes) (handler : H)
    (π : Pattern Bytes) (m : Bytes) :
    (node.register method handler parts).1.handlerAt π m =
      if π = parts.map segment ∧ m = method then (node.handlerAt π m).or (some handler)
      else node.handlerAt π m := by
  induction parts generalizing node π with
  | nil =>
    cases π with
    | nil =>
      have := (register_nil node method handler).2.1 m
      simpa [handlerAt, Node.under] using this
    | cons o π => simp [handlerAt, Node.under, (register_nil node method handler).1]
  | cons part rest ih =>
    cases π with
    | nil => simp [handlerAt, Node.under, (register_cons node method handler part rest).2.1]
    | cons o π =>
      by_cases ho : o = segment part
      · subst ho
        have := ih (node.entered part) π
        rw [handlerAt_entered] at this
        rw [handlerAt, Node.under, (register_cons node method handler part rest).1, if_pos rfl]
        simpa [handlerAt] using this
      · simp [handlerAt, Node.under, (register_cons node method handler part rest).1, ho]

/-- The call is rejected exactly when the shape has a handler for the method. -/
theorem register_code (parts : List Bytes) (node : Node H) (method : Bytes) (handler : H) :
    (node.register method handler parts).2 =
      if (node.handlerAt (parts.map segment) method).isSome then -1 else 0 := by
  induction parts generalizing node with
  | nil =>
    rw [(register_nil node method handler).2.2.2]
    rfl
  | cons part rest ih =>
    rw [(register_cons node method handler part rest).2.2.2, ih, handlerAt_entered]
    rfl

theorem register_paramName (parts : List Bytes) (node : Node H) (method : Bytes) (handler : H) :
    (node.register method handler parts).1.paramName = node.paramName := by
  cases parts with
  | nil => exact (register_nil node method handler).2.2.1
  | cons part rest => exact (register_cons node method handler part rest).2.2.1

/-! ### Names -/

/-- The name a registration of `parts` writes at the end of a pattern. -/
def writtenName : List Bytes → Pattern Bytes → Option Bytes
  | part :: _, [none] => if isParam part then some (part.drop 1) else none
  | part :: rest, o :: π => if o = segment part then writtenName rest π else none
  | _, _ => none

theorem writtenName_cons (part : Bytes) (rest : List Bytes) (o o' : Option Bytes)
    (π : Pattern Bytes) : writtenName (part :: rest) (o :: o' :: π) =
      if o = segment part then writtenName rest (o' :: π) else none := by
  cases o <;> rfl

/-- A registration writes its own names on the parameter nodes it passes, whether
it is accepted or not, and no other name. -/
theorem nameAt_register (parts : List Bytes) (node : Node H) (method : Bytes) (handler : H)
    (π : Pattern Bytes) :
    (node.register method handler parts).1.nameAt (π ++ [none]) =
      (writtenName parts (π ++ [none])).or (node.nameAt (π ++ [none])) := by
  induction parts generalizing node π with
  | nil => cases π <;> simp [nameAt, Node.under, writtenName, (register_nil node method handler).1]
  | cons part rest ih =>
    cases π with
    | nil =>
      cases hp : isParam part
      · simp [nameAt, Node.under, writtenName, hp, segment,
          (register_cons node method handler part rest).1]
      · have hname : (node.entered part).paramName = part.drop 1 := by simp [entered, hp]
        simp [nameAt, Node.under, writtenName, hp, segment_param hp, register_paramName, hname,
          (register_cons node method handler part rest).1]
    | cons o π =>
      obtain ⟨o', ρ, hρ⟩ : ∃ o' ρ, π ++ [none] = o' :: ρ := by
        cases π with
        | nil => exact ⟨none, [], rfl⟩
        | cons o' π => exact ⟨o', π ++ [none], rfl⟩
      have hrest := ih (node.entered part) π
      rw [List.cons_append, hρ] at *
      rw [writtenName_cons]
      by_cases ho : o = segment part
      · subst ho
        rw [if_pos rfl, nameAt, Node.under, (register_cons node method handler part rest).1,
          if_pos rfl]
        simp only [nameAt, under_entered_cons] at hrest
        simpa [nameAt] using hrest
      · simp [nameAt, Node.under, ho, (register_cons node method handler part rest).1]

end Node
end HttpServer
