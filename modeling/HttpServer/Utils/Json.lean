import HttpServer.Bytes
import HttpServer.Lib.Json

/-! `utils::mapToJson`.

Keys and values are put between quotes as they are. So the text denotes the map only if
each of them may stand between quotes as it is (`denotesMap_iff`). -/
namespace HttpServer.Utils
open Lib.Json

/-- One turn of the loop: a comma, except for the first entry, then the key and the value. -/
def writeEntry (ss : Bytes) (first : Bool) (pair : Bytes × Bytes) : Bytes :=
  let ss := if first then ss else ss ++ text ", "
  let ss := ss ++ text "\"" ++ pair.1 ++ text "\": "
  ss ++ text "\"" ++ pair.2 ++ text "\""

/-- The entries are given in the order of the iteration. -/
def mapToJson (params : List (Bytes × Bytes)) : Bytes :=
  (params.foldl (fun (ss, first) pair => (writeEntry ss first pair, false))
    (text "\x7b", true)).1 ++ text "\x7d"

/-- The text is an object, and its members are the entries. -/
def DenotesMap (params : List (Bytes × Bytes)) : Prop :=
  ∃ members, Object (mapToJson params) members ∧ members.Perm params

/-! ### What is written -/

/-- A key and its value. -/
def memberText (e : Bytes × Bytes) : Bytes := quoted e.1 ++ text ": " ++ quoted e.2

theorem writeEntry_eq (ss : Bytes) (first : Bool) (e : Bytes × Bytes) :
    writeEntry ss first e = (if first then ss else ss ++ text ", ") ++ memberText e := by
  have hquote : text "\"" = [quote] := by decide
  have hcolon : text "\": " = [quote] ++ text ": " := by decide
  rw [writeEntry, memberText, quoted, quoted, hquote, hcolon]
  simp only [List.append_assoc, List.cons_append, List.nil_append]

/-- The members behind the first have a comma in front. -/
def moreText (params : List (Bytes × Bytes)) : Bytes :=
  params.flatMap fun e => text ", " ++ memberText e

theorem foldl_writeEntry (params : List (Bytes × Bytes)) (ss : Bytes) :
    params.foldl (fun (ss, first) pair => (writeEntry ss first pair, false)) (ss, false) =
      (ss ++ moreText params, false) := by
  induction params generalizing ss with
  | nil => exact congrArg (·, false) (List.append_nil ss).symm
  | cons e params ih =>
    rw [List.foldl_cons, ih, writeEntry_eq, if_neg Bool.false_ne_true, moreText, moreText,
      List.flatMap_cons]
    simp only [List.append_assoc]

theorem mapToJson_cons (e : Bytes × Bytes) (params : List (Bytes × Bytes)) :
    mapToJson (e :: params) =
      [openBrace] ++ (memberText e ++ moreText params) ++ [closeBrace] := by
  have hopen : text "\x7b" = [openBrace] := by decide
  have hclose : text "\x7d" = [closeBrace] := by decide
  rw [mapToJson, List.foldl_cons, foldl_writeEntry, writeEntry_eq, if_pos rfl, hopen, hclose]
  simp only [List.append_assoc]

/-! ### What it takes to be right -/

theorem visible_memberText (e : Bytes × Bytes) : visible (memberText e) + 1 = cost e := by
  have hcolon : visible (text ": ") = 1 := by decide
  rw [memberText, visible_append, visible_append, visible_quoted, visible_quoted, hcolon, cost]
  omega

theorem visible_moreText (params : List (Bytes × Bytes)) :
    visible (moreText params) = total params := by
  induction params with
  | nil => rfl
  | cons e params ih =>
    have hcomma : visible (text ", ") = 1 := by decide
    have hmember := visible_memberText e
    rw [moreText, List.flatMap_cons, visible_append, visible_append, hcomma, ← moreText, ih, total]
    omega

/-- Nothing is written that is not needed. -/
theorem visible_mapToJson (e : Bytes × Bytes) (params : List (Bytes × Bytes)) :
    visible (mapToJson (e :: params)) = total (e :: params) + 1 := by
  have hopen : visible [openBrace] = 1 := by decide
  have hclose : visible [closeBrace] = 1 := by decide
  have hmember := visible_memberText e
  rw [mapToJson_cons, total]
  simp only [visible_append, hopen, hclose, visible_moreText]
  omega

/-- What is between the quotes may have to be read as something else, but then it is too
long for it. -/
theorem DenotesMap.isPlain {params : List (Bytes × Bytes)} (h : DenotesMap params) :
    ∀ e ∈ params, IsPlain e.1 ∧ IsPlain e.2 := by
  obtain ⟨members, hobject, hperm⟩ := h
  cases params with
  | nil => exact fun e he => absurd he List.not_mem_nil
  | cons e params =>
    have hplain := hobject.plain (by rw [total_perm hperm, visible_mapToJson])
    exact fun e' he' => hplain e' (hperm.mem_iff.mpr he')

theorem space_blank : Space (text " ") := every (by decide)

theorem space_nil : Space [] := fun _ hc => absurd hc List.not_mem_nil

theorem member_text {e : Bytes × Bytes} {lead : Bytes} (hlead : Space lead)
    (h : IsPlain e.1 ∧ IsPlain e.2) : Member (lead ++ memberText e) e := by
  have hcolon : text ": " = [colon] ++ text " " := by decide
  have hmember := Member.mk hlead space_nil space_blank space_nil (.of_isPlain h.1)
    (.of_isPlain h.2)
  rw [memberText, hcolon]
  simp only [List.append_assoc, List.append_nil] at hmember ⊢
  exact hmember

theorem members_text {params : List (Bytes × Bytes)} {e : Bytes × Bytes} {lead : Bytes}
    (hlead : Space lead) (h : ∀ e' ∈ e :: params, IsPlain e'.1 ∧ IsPlain e'.2) :
    Members (lead ++ memberText e ++ moreText params) (e :: params) := by
  induction params generalizing e lead with
  | nil =>
    rw [moreText, List.flatMap_nil, List.append_nil]
    exact .single (member_text hlead (h e (List.mem_cons_self ..)))
  | cons e' params ih =>
    have hcomma : text ", " = [comma] ++ text " " := by decide
    have hfirst := member_text hlead (h e (List.mem_cons_self ..))
    have hmore := ih space_blank fun e'' he'' => h e'' (List.mem_cons_of_mem _ he'')
    have hmembers := Members.cons hfirst hmore
    rw [moreText, List.flatMap_cons, ← moreText, hcomma]
    simp only [List.append_assoc] at hmembers ⊢
    exact hmembers

theorem denotesMap_of_isPlain {params : List (Bytes × Bytes)}
    (h : ∀ e ∈ params, IsPlain e.1 ∧ IsPlain e.2) : DenotesMap params := by
  refine ⟨params, ?_, .refl _⟩
  cases params with
  | nil => exact .empty space_nil space_nil space_nil
  | cons e params =>
    have hobject := Object.full space_nil space_nil (members_text space_nil h)
    rw [mapToJson_cons]
    simp only [List.append_nil, List.nil_append] at hobject ⊢
    exact hobject

/-- **The text denotes the map** exactly where all keys and values are plain text. -/
theorem denotesMap_iff (params : List (Bytes × Bytes)) :
    DenotesMap params ↔ ∀ e ∈ params, IsPlain e.1 ∧ IsPlain e.2 :=
  ⟨DenotesMap.isPlain, denotesMap_of_isPlain⟩

/-- A quote in a value ends its string. -/
theorem quote_not_denoted :
    mapToJson [(text "k", text "\"")] = text "\x7b\"k\": \"\"\"\x7d" ∧
      ¬ DenotesMap [(text "k", text "\"")] := by
  refine ⟨by decide, fun h => ?_⟩
  have hplain := (h.isPlain _ (List.mem_cons_self ..)).2
  exact (hplain.ascii (List.mem_singleton.mpr rfl) (by decide)).2.1 rfl

end HttpServer.Utils
