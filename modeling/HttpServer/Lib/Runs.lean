import Mathlib.Tactic.Common

/-! Runs of a machine and the histories they leave.

A machine takes one step per input. `Along step P s inputs` says that every step
of a run from `s` meets the rule `P`; what the rule preserves on one step, it
preserves over a run (`invariant_run`). A history is kept newest first, and
`Throughout P h` says that each entry satisfies `P` of everything before it. -/
namespace Lib.Runs
variable {σ ι : Type*}

/-- The state after a list of inputs. -/
def run (step : σ → ι → σ) (s : σ) : List ι → σ
  | [] => s
  | i :: rest => run step (step s i) rest

theorem run_append (step : σ → ι → σ) (s : σ) (past rest : List ι) :
    run step s (past ++ rest) = run step (run step s past) rest := by
  induction past generalizing s with
  | nil => rfl
  | cons i past ih => exact ih _

/-- Every step of the run meets the rule. -/
def Along (step : σ → ι → σ) (P : σ → ι → Prop) (s : σ) : List ι → Prop
  | [] => True
  | i :: rest => P s i ∧ Along step P (step s i) rest

variable {step : σ → ι → σ} {P Q : σ → ι → Prop}

/-- What a run has kept to it has kept to from the beginning. -/
theorem Along.of_append {s : σ} {past rest : List ι} (h : Along step P s (past ++ rest)) :
    Along step P s past := by
  induction past generalizing s with
  | nil => trivial
  | cons i past ih => exact ⟨h.1, ih h.2⟩

theorem along_append {s : σ} {past rest : List ι} :
    Along step P s (past ++ rest) ↔ Along step P s past ∧ Along step P (run step s past) rest := by
  induction past generalizing s with
  | nil => exact (and_iff_right trivial).symm
  | cons i past ih => exact (and_congr_right fun _ => ih).trans and_assoc.symm

/-- A rule on the inputs alone. -/
theorem Along.of_forall {R : ι → Prop} {s : σ} {inputs : List ι} (h : ∀ i ∈ inputs, R i) :
    Along step (fun _ i => R i) s inputs := by
  induction inputs generalizing s with
  | nil => trivial
  | cons i rest ih =>
    exact ⟨h i (List.mem_cons_self ..), ih fun j hj => h j (List.mem_cons_of_mem i hj)⟩

instance Along.decidable [∀ s i, Decidable (P s i)] :
    (inputs : List ι) → (s : σ) → Decidable (Along step P s inputs)
  | [], _ => isTrue trivial
  | i :: rest, s => @instDecidableAnd _ _ _ (Along.decidable rest (step s i))

/-- **What every step preserves, a run preserves**, if every step meets the rule. -/
theorem invariant_run {Inv : σ → Prop} (hstep : ∀ s i, Inv s → P s i → Inv (step s i)) {s : σ}
    {inputs : List ι} (h : Inv s) (hp : Along step P s inputs) : Inv (run step s inputs) := by
  induction inputs generalizing s with
  | nil => exact h
  | cons i rest ih => exact ih (hstep s i h hp.1) hp.2

/-- The same for what also looks back at the inputs so far. -/
theorem history_run {Inv : List ι → σ → Prop}
    (hstep : ∀ past s i, Inv past s → P s i → Inv (past ++ [i]) (step s i)) {past : List ι} {s : σ}
    {inputs : List ι} (h : Inv past s) (hp : Along step P s inputs) :
    Inv (past ++ inputs) (run step s inputs) := by
  induction inputs generalizing past s with
  | nil => rwa [List.append_nil]
  | cons i rest ih =>
    have hrest := ih (hstep past s i h hp.1) hp.2
    rwa [List.append_assoc, List.singleton_append] at hrest

/-- Without a rule. -/
theorem invariant_always {Inv : σ → Prop} (hstep : ∀ s i, Inv s → Inv (step s i)) {s : σ}
    (h : Inv s) (inputs : List ι) : Inv (run step s inputs) := by
  induction inputs generalizing s with
  | nil => exact h
  | cons i rest ih => exact ih (hstep s i h)

/-- What every step preserves and what implies the rule gives the rule along every run. -/
theorem Along.of_invariant {Inv : σ → Prop} (hstep : ∀ s i, Inv s → Inv (step s i))
    (hp : ∀ s i, Inv s → P s i) {s : σ} (h : Inv s) (inputs : List ι) :
    Along step P s inputs := by
  induction inputs generalizing s with
  | nil => trivial
  | cons i rest ih => exact ⟨hp s i h, ih (hstep s i h)⟩

/-- **A rule that says just when a step preserves an invariant** holds along exactly the runs
with the invariant in every state they come through. -/
theorem Along.iff_invariant {Inv : σ → Prop} (hstep : ∀ s i, Inv s → (Inv (step s i) ↔ P s i))
    {s : σ} (h : Inv s) (inputs : List ι) :
    (∀ past rest, inputs = past ++ rest → Inv (run step s past)) ↔ Along step P s inputs := by
  induction inputs generalizing s with
  | nil =>
    refine iff_of_true (fun past rest heq => ?_) trivial
    rw [(List.append_eq_nil_iff.mp heq.symm).1]
    exact h
  | cons i inputs ih =>
    refine ⟨fun hall => ?_, fun halong past rest heq => ?_⟩
    · have hnext : Inv (step s i) := hall [i] inputs rfl
      refine ⟨(hstep s i h).mp hnext, (ih hnext).mp fun past rest heq => ?_⟩
      exact hall (i :: past) rest (congrArg _ heq)
    · cases past with
      | nil => exact h
      | cons j past =>
        obtain ⟨rfl, hrest⟩ := List.cons.inj heq
        exact (ih ((hstep s i h).mpr halong.1)).mpr halong.2 past rest hrest

/-- The run comes through a state with the goal. -/
def Reaches (step : σ → ι → σ) (goal : σ → Prop) (s : σ) : List ι → Prop
  | [] => goal s
  | i :: rest => goal s ∨ Reaches step goal (step s i) rest

theorem Reaches.here {goal : σ → Prop} {s : σ} (h : goal s) (inputs : List ι) :
    Reaches step goal s inputs := by
  cases inputs with
  | nil => exact h
  | cons i rest => exact .inl h

theorem Reaches.append {goal : σ → Prop} {s : σ} {past : List ι} (h : Reaches step goal s past)
    (rest : List ι) : Reaches step goal s (past ++ rest) := by
  induction past generalizing s with
  | nil =>
    have hgoal : goal s := h
    exact .here hgoal rest
  | cons i past ih => exact h.imp_right ih

theorem Reaches.of_run {goal : σ → Prop} {s : σ} {past rest : List ι}
    (h : Reaches step goal (run step s past) rest) : Reaches step goal s (past ++ rest) := by
  induction past generalizing s with
  | nil => exact h
  | cons i past ih => exact .inr (ih h)

theorem Reaches.mono {goal goal' : σ → Prop} (himp : ∀ s, goal s → goal' s) {s : σ}
    {inputs : List ι} (h : Reaches step goal s inputs) : Reaches step goal' s inputs := by
  induction inputs generalizing s with
  | nil => exact himp s h
  | cons i rest ih => exact h.imp (himp s) ih

/-- What holds until the goal is reached holds where it is reached first. -/
theorem Reaches.first {goal J : σ → Prop} (hstep : ∀ s i, ¬ goal s → J s → J (step s i)) {s : σ}
    (hs : J s) {inputs : List ι} (h : Reaches step goal s inputs) :
    Reaches step (fun s' => goal s' ∧ J s') s inputs := by
  induction inputs generalizing s with
  | nil => exact ⟨h, hs⟩
  | cons i rest ih =>
    by_cases hgoal : goal s
    · exact .inl ⟨hgoal, hs⟩
    · exact .inr (ih (hstep s i hgoal hs) (h.resolve_left hgoal))

/-! ### Inputs under other names -/

theorem run_map {κ : Type*} (f : κ → ι) (s : σ) (inputs : List κ) :
    run step s (inputs.map f) = run (fun s k => step s (f k)) s inputs := by
  induction inputs generalizing s with
  | nil => rfl
  | cons k rest ih => exact ih _

theorem reaches_map {κ : Type*} (f : κ → ι) {goal : σ → Prop} {s : σ} (inputs : List κ) :
    Reaches step goal s (inputs.map f) ↔ Reaches (fun s k => step s (f k)) goal s inputs := by
  induction inputs generalizing s with
  | nil => exact Iff.rfl
  | cons k rest ih => exact or_congr_right ih

/-- **Two machines that keep step**: while the one keeps to its rule so does the other, and what
relates their states still does. -/
theorem simulation_run {σ' ι' : Type*} {step' : σ' → ι' → σ'} {P' : σ' → ι' → Prop}
    {R : σ → σ' → Prop} {f : ι → ι'}
    (hstep : ∀ s t i, R s t → P s i → P' t (f i) ∧ R (step s i) (step' t (f i))) {s : σ} {t : σ'}
    {inputs : List ι} (h : R s t) (hp : Along step P s inputs) :
    Along step' P' t (inputs.map f) ∧ R (run step s inputs) (run step' t (inputs.map f)) := by
  induction inputs generalizing s t with
  | nil => exact ⟨trivial, h⟩
  | cons i rest ih =>
    obtain ⟨hnext, hrelated⟩ := hstep s t i h hp.1
    exact ⟨⟨hnext, (ih hrelated hp.2).1⟩, (ih hrelated hp.2).2⟩

/-! ### Histories, newest entry first -/

variable {ε : Type*}

/-- Every entry satisfies `P` of the entries before it. -/
inductive Throughout (P : List ε → ε → Prop) : List ε → Prop
  | nil : Throughout P []
  | cons {e : ε} {older : List ε} (he : P older e) (h : Throughout P older) :
    Throughout P (e :: older)

theorem throughout_cons {P : List ε → ε → Prop} {e : ε} {older : List ε} :
    Throughout P (e :: older) ↔ P older e ∧ Throughout P older := by
  constructor
  · intro h
    cases h with
    | cons he h => exact ⟨he, h⟩
  · intro h
    exact .cons h.1 h.2

/-- A property that does not look at the entries before. -/
theorem throughout_entries_iff {P : ε → Prop} {history : List ε} :
    Throughout (fun _ e => P e) history ↔ ∀ e ∈ history, P e := by
  induction history with
  | nil => exact ⟨fun _ e he => absurd he List.not_mem_nil, fun _ => .nil⟩
  | cons e older ih => rw [throughout_cons, ih, List.forall_mem_cons]

instance Throughout.decidable {P : List ε → ε → Prop} [∀ older e, Decidable (P older e)] :
    (history : List ε) → Decidable (Throughout P history)
  | [] => isTrue .nil
  | e :: older =>
    have := Throughout.decidable (P := P) older
    decidable_of_iff (P older e ∧ Throughout P older) throughout_cons.symm

/-- What holds of an entry for one reason holds for a weaker one. -/
theorem Throughout.mono {P Q : List ε → ε → Prop} (hpq : ∀ older e, P older e → Q older e)
    {history : List ε} (h : Throughout P history) : Throughout Q history := by
  induction h with
  | nil => exact .nil
  | cons he _ ih => exact .cons (hpq _ _ he) ih

theorem Throughout.of_append {P : List ε → ε → Prop} {newer older : List ε}
    (h : Throughout P (newer ++ older)) : Throughout P older := by
  induction newer with
  | nil => exact h
  | cons e newer ih => exact ih (throughout_cons.mp h).2

/-- Entries that `P` does not constrain leave a history as good as it was. -/
theorem Throughout.append {P : List ε → ε → Prop} {newer older : List ε}
    (h : Throughout P older) (hfree : ∀ e ∈ newer, ∀ before, P before e) :
    Throughout P (newer ++ older) := by
  induction newer with
  | nil => exact h
  | cons e newer ih =>
    exact .cons (hfree e (List.mem_cons_self ..) _)
      (ih fun e' he => hfree e' (List.mem_cons_of_mem _ he))

end Lib.Runs
