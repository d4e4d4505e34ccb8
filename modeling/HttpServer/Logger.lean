import HttpServer.Lib.Search
import HttpServer.Bytes

/-! `http::Logger::Format`, and where the arguments go.

A format string is text with placeholders in between (`pieces`); the argument of each number
belongs where the placeholder of that number is (`substitute`). `format` looks for the first
placeholder of what it has made so far, from the front again for every argument, so that it
finds the right one as long as there is none in what is made already. -/
namespace HttpServer.Logger
open Lib Search

def placeholder : Bytes := [0x7B, 0x7D]

/-- One round of the loop. -/
def replace (result arg : Bytes) : Bytes :=
  match indexOf placeholder result with
  | some pos => result.take pos ++ arg ++ result.drop (pos + 2)
  | none => result

/-- `Format(fmt, args...)`, of arguments that are text already. -/
def format (fmt : Bytes) (args : List Bytes) : Bytes := args.foldl replace fmt

/-- The values of `pos`, one for each argument. -/
def positions : Bytes → List Bytes → List (Option Nat)
  | _, [] => []
  | result, arg :: args => indexOf placeholder result :: positions (replace result arg) args

example : format (text "\x7b\x7d, \x7b\x7d") [text "a", text "b"] = text "a, b" := by decide

/-! ### Pieces of a format string -/

/-- The text in front of the first placeholder, and behind each of them. -/
def pieces : Bytes → Bytes × List Bytes
  | [] => ([], [])
  | [c] => ([c], [])
  | c :: d :: rest =>
    if c = 0x7B ∧ d = 0x7D then ([], (pieces rest).1 :: (pieces rest).2)
    else (c :: (pieces (d :: rest)).1, (pieces (d :: rest)).2)

def join (piece : Bytes) : List Bytes → Bytes
  | [] => piece
  | next :: more => piece ++ placeholder ++ join next more

/-- Each placeholder is replaced by the argument of its number, if there is one. -/
def substitute (piece : Bytes) : List Bytes → List Bytes → Bytes
  | [], _ => piece
  | next :: more, [] => piece ++ placeholder ++ substitute next more []
  | next :: more, arg :: args => piece ++ arg ++ substitute next more args

/-- Where each argument goes, with so much text in front. -/
def places (pos : Nat) (piece : Bytes) : List Bytes → List Bytes → List (Option Nat)
  | [], args => args.map fun _ => none
  | _ :: _, [] => []
  | next :: more, arg :: args =>
    some (pos + piece.length) :: places (pos + piece.length + arg.length) next more args

/-- The text that is made when the last argument is put in, up to where it goes. -/
def front (piece : Bytes) : List Bytes → List Bytes → Bytes
  | next :: more, arg :: last :: args => piece ++ arg ++ front next more (last :: args)
  | _, _ => piece

/-- Every argument replaces the placeholder of its own number, and nothing else changes. -/
structure Verbatim (fmt : Bytes) (args : List Bytes) : Prop where
  result : format fmt args = substitute (pieces fmt).1 (pieces fmt).2 args
  placed : positions fmt args = places 0 (pieces fmt).1 (pieces fmt).2 args

theorem join_cons (c : UInt8) (piece : Bytes) (more : List Bytes) :
    join (c :: piece) more = c :: join piece more := by
  cases more <;> rfl

theorem join_extends (piece : Bytes) (more : List Bytes) : piece <+: join piece more := by
  cases more with
  | nil => exact List.prefix_refl piece
  | cons next more => exact ⟨_, (List.append_assoc ..).symm⟩

/-- The pieces make up the format string. -/
theorem pieces_join (fmt : Bytes) : join (pieces fmt).1 (pieces fmt).2 = fmt := by
  fun_induction pieces fmt with
  | case1 => rfl
  | case2 c => rfl
  | case3 c d rest h ih =>
    obtain ⟨rfl, rfl⟩ := h
    rw [join, ih]
    rfl
  | case4 c d rest h ih => rw [join_cons, ih]

/-- No piece has a placeholder. -/
def Clean (piece : Bytes) (more : List Bytes) : Prop :=
  ¬ placeholder <:+: piece ∧ ∀ next ∈ more, ¬ placeholder <:+: next

theorem pieces_clean (fmt : Bytes) : Clean (pieces fmt).1 (pieces fmt).2 := by
  fun_induction pieces fmt with
  | case1 => exact ⟨by decide, fun next hnext => absurd hnext List.not_mem_nil⟩
  | case2 c =>
    refine ⟨fun hinside => ?_, fun next hnext => absurd hnext List.not_mem_nil⟩
    exact absurd hinside.length_le (show ¬ 2 ≤ 1 by decide)
  | case3 c d rest h ih =>
    refine ⟨show ¬ placeholder <:+: [] by decide, fun next hnext => ?_⟩
    rcases List.mem_cons.mp hnext with rfl | hnext
    · exact ih.1
    · exact ih.2 next hnext
  | case4 c d rest h ih =>
    refine ⟨fun hwhole => ?_, ih.2⟩
    rcases List.infix_cons_iff.mp hwhole with hstart | hinside
    · -- The second letter would have to be the one behind `c`.
      obtain ⟨hc, hnext⟩ := List.cons_prefix_cons.mp hstart
      have hrest := hnext.trans (join_extends _ (pieces (d :: rest)).2)
      rw [pieces_join] at hrest
      exact h ⟨hc.symm, (List.cons_prefix_cons.mp hrest).1.symm⟩
    · exact ih.1 hinside

/-! ### Every argument in turn -/

theorem substitute_nil (piece : Bytes) (more : List Bytes) :
    substitute piece more [] = join piece more := by
  induction more generalizing piece with
  | nil => rfl
  | cons next more ih => rw [substitute, join, ih]

theorem front_extends (piece : Bytes) (more args : List Bytes) :
    piece <+: front piece more args := by
  unfold front
  split
  · exact ⟨_, (List.append_assoc ..).symm⟩
  · exact List.prefix_refl piece

theorem front_nil (piece : Bytes) (more : List Bytes) : front piece more [] = piece := by
  cases more <;> rfl

/-- The first placeholder is the next one where none comes up in what is made already. -/
theorem indexOf_join (made piece next : Bytes) (more : List Bytes) :
    indexOf placeholder (made ++ join piece (next :: more)) = some (made.length + piece.length) ↔
      ¬ placeholder <:+: made ++ piece := by
  have hpair := indexOf_pair_iff (show (0x7B : UInt8) ≠ 0x7D by decide) (made ++ piece)
    (join next more)
  have hsplit : made ++ join piece (next :: more) =
      made ++ piece ++ 0x7B :: 0x7D :: join next more := by
    rw [join, List.append_assoc, List.append_assoc]
    rfl
  rw [hsplit, ← List.length_append]
  exact hpair

theorem replace_join {made piece next : Bytes} {more : List Bytes}
    (hclear : ¬ placeholder <:+: made ++ piece) (arg : Bytes) :
    replace (made ++ join piece (next :: more)) arg = made ++ piece ++ arg ++ join next more := by
  have hsplit : made ++ join piece (next :: more) =
      (made ++ piece) ++ (placeholder ++ join next more) := by
    rw [join, List.append_assoc, List.append_assoc]
  have hlength : made.length + piece.length = (made ++ piece).length := List.length_append.symm
  unfold replace
  rw [(indexOf_join made piece next more).mpr hclear]
  simp only
  rw [hsplit, hlength, List.take_left, List.drop_append, Nat.add_sub_cancel_left,
    List.drop_of_length_le (Nat.le_add_right _ 2)]
  rfl

/-- Text in front that is done with stays, as long as no placeholder comes up in it. -/
theorem format_verbatim_iff (made : Bytes) {piece : Bytes} {more : List Bytes}
    (hclean : Clean piece more) (args : List Bytes) :
    (format (made ++ join piece more) args = made ++ substitute piece more args ∧
        positions (made ++ join piece more) args = places made.length piece more args) ↔
      args = [] ∨ ¬ placeholder <:+: made ++ front piece more args := by
  induction args generalizing made piece more with
  | nil =>
    refine ⟨fun _ => .inl rfl, fun _ => ⟨?_, ?_⟩⟩
    · rw [substitute_nil]
      rfl
    · cases more <;> rfl
  | cons arg args ih =>
    rw [format, positions, List.foldl_cons, ← format]
    cases more with
    | nil =>
      by_cases hinside : placeholder <:+: made ++ piece
      · refine iff_of_false (fun h => ?_) (fun h => ?_)
        · exact indexOf_eq_none_iff.mp (List.cons.inj h.2).1 hinside
        · exact h.elim (List.cons_ne_nil _ _) fun hclear => hclear hinside
      · have hnone : indexOf placeholder (made ++ join piece []) = none :=
          indexOf_eq_none_iff.mpr hinside
        have hsame : replace (made ++ join piece []) arg = made ++ join piece [] := by
          unfold replace
          rw [hnone]
        obtain ⟨hresult, hplaced⟩ := (ih made hclean).mpr (.inr hinside)
        rw [hsame, hnone, hresult, hplaced]
        exact iff_of_true ⟨rfl, rfl⟩ (.inr hinside)
    | cons next more =>
      by_cases hinside : placeholder <:+: made ++ piece
      · refine iff_of_false (fun h => ?_) (fun h => ?_)
        · exact (indexOf_join made piece next more).mp (List.cons.inj h.2).1 hinside
        · refine h.elim (List.cons_ne_nil _ _) fun hclear => hclear (hinside.trans ?_)
          exact ((List.prefix_append_right_inj made).mpr (front_extends ..)).isInfix
      · have hnext : Clean next more :=
          ⟨hclean.2 next (List.mem_cons_self ..),
            fun b hb => hclean.2 b (List.mem_cons_of_mem _ hb)⟩
        have hrest := ih (made ++ piece ++ arg) hnext
        rw [List.length_append, List.length_append] at hrest
        rw [(indexOf_join made piece next more).mpr hinside, replace_join hinside, substitute,
          places]
        refine (and_congr ?_ ?_).trans (hrest.trans ?_)
        · rw [← List.append_assoc, ← List.append_assoc]
        · exact List.cons_inj_right _
        · cases args with
          | nil => exact iff_of_true (.inl rfl) (.inr hinside)
          | cons last args =>
            rw [front, List.append_assoc, List.append_assoc, List.append_assoc]
            simp only [List.cons_ne_nil, false_or]

/-- **Arguments are put in verbatim** exactly where there is no placeholder in what is made
in front of the last one's. -/
theorem verbatim_iff (fmt : Bytes) (args : List Bytes) :
    Verbatim fmt args ↔ ¬ placeholder <:+: front (pieces fmt).1 (pieces fmt).2 args := by
  have hclean := pieces_clean fmt
  have hiff := format_verbatim_iff [] hclean args
  rw [pieces_join] at hiff
  refine ⟨fun h => ?_, fun h => ?_⟩
  · rcases hiff.mp ⟨h.result, h.placed⟩ with rfl | hfront
    · rw [front_nil]
      exact hclean.1
    · exact hfront
  · obtain ⟨hresult, hplaced⟩ := hiff.mpr (.inr h)
    exact ⟨hresult, hplaced⟩

/-- The braces of the first argument are taken for the second placeholder. -/
theorem format_rescans :
    format (text "\x7b\x7d \x7b\x7d") [text "\x7b\x7d", text "x"] = text "x \x7b\x7d" ∧
      ¬ Verbatim (text "\x7b\x7d \x7b\x7d") [text "\x7b\x7d", text "x"] := by
  refine ⟨by decide, fun h => ?_⟩
  exact absurd h.result (by decide)

end HttpServer.Logger
