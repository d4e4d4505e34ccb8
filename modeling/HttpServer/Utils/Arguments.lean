import HttpServer.Lib.Map
import HttpServer.Bytes

/-! `utils::parseArguments`.

A command line is read in exactly one way as a list of arguments, an option that takes a value with
whatever follows it, and at most an option that lacks its value at the end. The map has for each
option what was given last, or its default, and nothing else (`parseArguments_reads`). -/
namespace HttpServer.Utils
open Lib

inductive Opt where
  | host | port | help
  deriving DecidableEq

namespace Opt

def word : Opt → Bytes
  | host => text "--host"
  | port => text "--port"
  | help => text "--help"

def default : Opt → Bytes
  | host => text "0.0.0.0"
  | port => text "8080"
  | help => text "false"

theorem word_inj {o o' : Opt} (h : o.word = o'.word) : o = o' := by
  revert h
  cases o <;> cases o' <;> decide +kernel

theorem word_ne (o o' : Opt) (h : o ≠ o') : o.word ≠ o'.word := fun heq => h (word_inj heq)

end Opt

def defaultArguments : Map Bytes Bytes :=
  Map.ofList [(Opt.host.word, Opt.host.default), (Opt.port.word, Opt.port.default),
    (Opt.help.word, Opt.help.default)]

/-- The loop, with the arguments that are left. -/
def argumentLoop (args : Map Bytes Bytes) : List Bytes → Map Bytes Bytes
  | [] => args
  | [arg] => if arg = Opt.help.word then args.insert Opt.help.word (text "true") else args
  | arg :: value :: rest =>
    if arg = Opt.host.word then argumentLoop (args.insert Opt.host.word value) rest
    else if arg = Opt.port.word then argumentLoop (args.insert Opt.port.word value) rest
    else if arg = Opt.help.word then
      argumentLoop (args.insert Opt.help.word (text "true")) (value :: rest)
    else argumentLoop args (value :: rest)

/-- The first argument is the program itself. -/
def parseArguments (argv : List Bytes) : Map Bytes Bytes :=
  argumentLoop defaultArguments argv.tail

/-! ### Command lines -/

inductive Argument where
  | host (address : Bytes)
  | port (number : Bytes)
  | help
  | other (word : {w : Bytes // ∀ o : Opt, w ≠ o.word})

/-- How a command line ends: with an option that lacks its value, or not. -/
inductive Ending where
  | complete | host | port
  deriving DecidableEq

structure CommandLine where
  arguments : List Argument
  ending : Ending

namespace Argument

def words : Argument → List Bytes
  | host address => [Opt.host.word, address]
  | port number => [Opt.port.word, number]
  | help => [Opt.help.word]
  | other word => [word.val]

/-- What an argument gives an option. -/
def value? : Opt → Argument → Option Bytes
  | .host, host address => some address
  | .port, port number => some number
  | .help, help => some (text "true")
  | _, _ => none

/-- What it stores. -/
def entry? : Argument → Option (Bytes × Bytes)
  | host address => some (Opt.host.word, address)
  | port number => some (Opt.port.word, number)
  | help => some (Opt.help.word, text "true")
  | other _ => none

/-- What is stored first for an option, by whatever equality of words it is looked up. -/
theorem lookup_entries [BEq Bytes] [LawfulBEq Bytes] (arguments : List Argument) (o : Opt) :
    (arguments.filterMap entry?).lookup o.word = arguments.findSome? (value? o) := by
  have hbeq : ∀ o' : Opt, (o.word == o'.word) = (o == o') := by
    intro o'
    by_cases heq : o = o'
    · rw [heq]
      simp
    · rw [beq_eq_false_iff_ne.mpr heq, beq_eq_false_iff_ne]
      exact fun h => heq (Opt.word_inj h)
  induction arguments with
  | nil => rfl
  | cons argument arguments ih =>
    cases argument with
    | host address =>
      show List.lookup o.word ((Opt.host.word, address) :: _) = _
      rw [List.lookup_cons, hbeq, ih]
      cases o <;> rfl
    | port number =>
      show List.lookup o.word ((Opt.port.word, number) :: _) = _
      rw [List.lookup_cons, hbeq, ih]
      cases o <;> rfl
    | help =>
      show List.lookup o.word ((Opt.help.word, text "true") :: _) = _
      rw [List.lookup_cons, hbeq, ih]
      cases o <;> rfl
    | other word =>
      have hnone : value? o (.other word) = none := by cases o <;> rfl
      rw [List.findSome?_cons, hnone]
      exact ih

/-- Nothing is stored under another key. -/
theorem lookup_entries_other [BEq Bytes] [LawfulBEq Bytes] {key : Bytes}
    (hkey : ∀ o : Opt, key ≠ o.word) (arguments : List Argument) :
    (arguments.filterMap entry?).lookup key = none := by
  rw [List.lookup_eq_none_iff]
  intro e he
  obtain ⟨argument, _, hentry⟩ := List.mem_filterMap.mp he
  rw [bne_iff_ne]
  cases argument with
  | host address =>
    cases hentry
    exact hkey .host
  | port number =>
    cases hentry
    exact hkey .port
  | help =>
    cases hentry
    exact hkey .help
  | other word => cases hentry

end Argument

def Ending.words : Ending → List Bytes
  | complete => []
  | host => [Opt.host.word]
  | port => [Opt.port.word]

namespace CommandLine

def words (c : CommandLine) : List Bytes :=
  c.arguments.flatMap Argument.words ++ c.ending.words

/-- The option's value: what it was given last. -/
def value (c : CommandLine) (o : Opt) : Bytes :=
  (c.arguments.reverse.findSome? (Argument.value? o)).getD o.default

def cons (argument : Argument) (c : CommandLine) : CommandLine :=
  {c with arguments := argument :: c.arguments}

theorem words_cons (argument : Argument) (c : CommandLine) :
    (cons argument c).words = argument.words ++ c.words := by
  rw [words, cons, List.flatMap_cons, List.append_assoc, words]

end CommandLine

theorem other_word {arg : Bytes} (hhost : arg ≠ Opt.host.word) (hport : arg ≠ Opt.port.word)
    (hhelp : arg ≠ Opt.help.word) (o : Opt) : arg ≠ o.word := by
  cases o with
  | host => exact hhost
  | port => exact hport
  | help => exact hhelp

namespace CommandLine

/-- How a list of words is read. -/
def read : List Bytes → CommandLine
  | [] => ⟨[], .complete⟩
  | [arg] =>
    if hhost : arg = Opt.host.word then ⟨[], .host⟩
    else if hport : arg = Opt.port.word then ⟨[], .port⟩
    else if hhelp : arg = Opt.help.word then ⟨[.help], .complete⟩
    else ⟨[.other ⟨arg, other_word hhost hport hhelp⟩], .complete⟩
  | arg :: value :: rest =>
    if hhost : arg = Opt.host.word then cons (.host value) (read rest)
    else if hport : arg = Opt.port.word then cons (.port value) (read rest)
    else if hhelp : arg = Opt.help.word then cons .help (read (value :: rest))
    else cons (.other ⟨arg, other_word hhost hport hhelp⟩) (read (value :: rest))

theorem words_read (words : List Bytes) : (read words).words = words := by
  fun_induction read words with
  | case1 => rfl
  | case2 => rfl
  | case3 => rfl
  | case4 => rfl
  | case5 => rfl
  | case6 value rest ih => rw [words_cons, ih]; rfl
  | case7 value rest _ ih => rw [words_cons, ih]; rfl
  | case8 value rest _ _ ih => rw [words_cons, ih]; rfl
  | case9 arg value rest _ _ _ ih => rw [words_cons, ih]; rfl

theorem read_help (rest : List Bytes) :
    read (Opt.help.word :: rest) = cons .help (read rest) := by
  cases rest with
  | nil =>
    show read [Opt.help.word] = cons .help ⟨[], .complete⟩
    rw [read, dif_neg (Opt.word_ne .help .host (by decide)),
      dif_neg (Opt.word_ne .help .port (by decide)), dif_pos rfl]
    rfl
  | cons value rest =>
    rw [read, dif_neg (Opt.word_ne .help .host (by decide)),
      dif_neg (Opt.word_ne .help .port (by decide)), dif_pos rfl]

theorem read_other (word : {w : Bytes // ∀ o : Opt, w ≠ o.word}) (rest : List Bytes) :
    read (word.val :: rest) = cons (.other word) (read rest) := by
  have hhost := word.property .host
  have hport := word.property .port
  have hhelp := word.property .help
  cases rest with
  | nil =>
    show read [word.val] = cons (.other word) ⟨[], .complete⟩
    rw [read, dif_neg hhost, dif_neg hport, dif_neg hhelp]
    rfl
  | cons value rest => rw [read, dif_neg hhost, dif_neg hport, dif_neg hhelp]

theorem read_words (c : CommandLine) : read c.words = c := by
  obtain ⟨arguments, ending⟩ := c
  induction arguments with
  | nil =>
    cases ending with
    | complete => rfl
    | host =>
      show read [Opt.host.word] = _
      rw [read, dif_pos rfl]
    | port =>
      show read [Opt.port.word] = _
      rw [read, dif_neg (Opt.word_ne .port .host (by decide)), dif_pos rfl]
  | cons argument arguments ih =>
    have hwords : (⟨argument :: arguments, ending⟩ : CommandLine).words =
        argument.words ++ (⟨arguments, ending⟩ : CommandLine).words :=
      words_cons argument ⟨arguments, ending⟩
    rw [hwords]
    generalize (⟨arguments, ending⟩ : CommandLine).words = rest at ih
    cases argument with
    | host address =>
      show read (Opt.host.word :: address :: rest) = _
      rw [read, dif_pos rfl, ih]
      rfl
    | port number =>
      show read (Opt.port.word :: number :: rest) = _
      rw [read, dif_neg (Opt.word_ne .port .host (by decide)), dif_pos rfl, ih]
      rfl
    | help =>
      show read (Opt.help.word :: rest) = _
      rw [read_help, ih]
      rfl
    | other word =>
      show read (word.val :: rest) = _
      rw [read_other, ih]
      rfl

/-- **A command line is read in one way.** -/
theorem words_eq_iff {c : CommandLine} {words : List Bytes} : c.words = words ↔ c = read words := by
  constructor
  · rintro rfl
    exact (read_words c).symm
  · rintro rfl
    exact words_read words

end CommandLine

/-! ### The loop -/

theorem argumentLoop_help (args : Map Bytes Bytes) (rest : List Bytes) :
    argumentLoop args (Opt.help.word :: rest) =
      argumentLoop (args.insert Opt.help.word (text "true")) rest := by
  cases rest with
  | nil =>
    show argumentLoop args [Opt.help.word] = args.insert Opt.help.word (text "true")
    rw [argumentLoop, if_pos rfl]
  | cons value rest =>
    rw [argumentLoop, if_neg (Opt.word_ne .help .host (by decide)),
      if_neg (Opt.word_ne .help .port (by decide)), if_pos rfl]

theorem argumentLoop_other (args : Map Bytes Bytes) (word : {w : Bytes // ∀ o : Opt, w ≠ o.word})
    (rest : List Bytes) : argumentLoop args (word.val :: rest) = argumentLoop args rest := by
  cases rest with
  | nil =>
    show argumentLoop args [word.val] = args
    rw [argumentLoop, if_neg (word.property .help)]
  | cons value rest =>
    rw [argumentLoop, if_neg (word.property .host), if_neg (word.property .port),
      if_neg (word.property .help)]

/-- The loop stores what the arguments give, one after the other. -/
theorem argumentLoop_words (args : Map Bytes Bytes) (c : CommandLine) :
    argumentLoop args c.words = Map.setAll args (c.arguments.filterMap Argument.entry?) := by
  obtain ⟨arguments, ending⟩ := c
  induction arguments generalizing args with
  | nil =>
    cases ending with
    | complete => rfl
    | host =>
      show argumentLoop args [Opt.host.word] = _
      rw [argumentLoop, if_neg (Opt.word_ne .host .help (by decide))]
      rfl
    | port =>
      show argumentLoop args [Opt.port.word] = _
      rw [argumentLoop, if_neg (Opt.word_ne .port .help (by decide))]
      rfl
  | cons argument arguments ih =>
    have hwords : (⟨argument :: arguments, ending⟩ : CommandLine).words =
        argument.words ++ (⟨arguments, ending⟩ : CommandLine).words :=
      CommandLine.words_cons argument ⟨arguments, ending⟩
    rw [hwords]
    generalize (⟨arguments, ending⟩ : CommandLine).words = rest at ih
    cases argument with
    | host address =>
      show argumentLoop args (Opt.host.word :: address :: rest) = _
      rw [argumentLoop, if_pos rfl]
      exact ih _
    | port number =>
      show argumentLoop args (Opt.port.word :: number :: rest) = _
      rw [argumentLoop, if_neg (Opt.word_ne .port .host (by decide)), if_pos rfl]
      exact ih _
    | help =>
      show argumentLoop args (Opt.help.word :: rest) = _
      rw [argumentLoop_help]
      exact ih _
    | other word =>
      show argumentLoop args (word.val :: rest) = _
      rw [argumentLoop_other]
      exact ih _

theorem lookup_default (o : Opt) : defaultArguments.lookup o.word = some o.default := by
  unfold defaultArguments
  rw [Map.ofList, Map.lookup_setAll]
  cases o <;> decide +kernel

theorem lookup_default_other {key : Bytes} (hkey : ∀ o : Opt, key ≠ o.word) :
    defaultArguments.lookup key = none := by
  unfold defaultArguments
  simp only [Map.ofList, Map.setAll_cons, Map.setAll_nil, Map.lookup_insert_eq,
    if_neg (hkey .host), if_neg (hkey .port), if_neg (hkey .help)]
  rfl

/-- **What is given last**: whatever the arguments are, they are one command line, and the map has
each option with the value that this gave it last, or else its default, and no other key. -/
theorem parseArguments_reads (argv : List Bytes) :
    ∃ c : CommandLine, (∀ c' : CommandLine, c'.words = argv.tail ↔ c' = c) ∧
      (∀ o : Opt, (parseArguments argv).lookup o.word = some (c.value o)) ∧
      ∀ key, (∀ o : Opt, key ≠ o.word) → (parseArguments argv).lookup key = none := by
  have hparse : parseArguments argv = Map.setAll defaultArguments
      ((CommandLine.read argv.tail).arguments.filterMap Argument.entry?) := by
    rw [← argumentLoop_words, CommandLine.words_read, parseArguments]
  refine ⟨CommandLine.read argv.tail, fun c' => CommandLine.words_eq_iff, fun o => ?_,
    fun key hkey => ?_⟩
  · have hgiven := @Argument.lookup_entries instBEqOfDecidableEq _
      (CommandLine.read argv.tail).arguments.reverse o
    rw [hparse, Map.lookup_setAll, ← List.filterMap_reverse, hgiven, lookup_default,
      CommandLine.value]
    cases (CommandLine.read argv.tail).arguments.reverse.findSome? (Argument.value? o) <;> rfl
  · have hnone := @Argument.lookup_entries_other instBEqOfDecidableEq _ key hkey
      (CommandLine.read argv.tail).arguments.reverse
    rw [hparse, Map.lookup_setAll, ← List.filterMap_reverse, hnone, lookup_default_other hkey]
    rfl

end HttpServer.Utils
