import HttpServer.Worker

/-! What the tasks do in every order of steps. -/
namespace HttpServer
open Lib Slots

/-- A call is of the function registered last for its key. -/
def CallsRegistered {κ π φ ρ : Type} [DecidableEq κ] (fn : π → φ)
    (older : List (Slots.Entry κ π (Calling φ ρ))) (e : Slots.Entry κ π (Calling φ ρ)) : Prop :=
  ∀ k t f, e = .did k t (.called f) →
    (registered k older).map (fun r => (r.1, fn r.2)) = some (t, f)

theorem callsRegistered {κ π δ ω φ ρ : Type} [DecidableEq κ] {fn : π → φ}
    {B : Behaviour π δ ω (Calling φ ρ)}
    (hcalls : ∀ p d stop o f, (B.advance p d stop o).2 = some (.called f) → f = fn p)
    {log : List (Slots.Entry κ π (Calling φ ρ))} (h : Runs.Throughout (Current B) log) :
    Runs.Throughout (CallsRegistered fn) log := by
  refine h.mono fun older e hcurrent k t f he => ?_
  obtain ⟨p, hreg, d, stop, o, hstep⟩ := hcurrent k t _ he
  rw [hreg, Option.map_some, hcalls p d stop o f hstep]

namespace TaskManager
variable {φ : Type}

theorem advance_calls {task : Task φ} {phase : Phase} {stop : Bool} {turn : Turn} {fn : φ}
    (h : (advance task phase stop turn).2 = some (.called fn)) : fn = task.fn := by
  cases phase with
  | checking => cases h
  | entering =>
    cases h
    rfl
  | calling =>
    simp only [advance] at h
    split at h <;> cases h
  | waiting nextTick =>
    simp only [advance] at h
    split at h <;> cases h
  | done => cases h

theorem marks : (behaviour φ).Marks Calling.begins (· == .calling) where
  start _ := rfl
  live phase h := by
    rw [beq_iff_eq.mp h]
    rfl
  moves task phase stop turn := by
    cases phase with
    | checking => cases stop <;> rfl
    | entering => exact ⟨rfl, rfl⟩
    | calling => cases hreturns : turn.returns <;> simp [behaviour, advance, hreturns, Calling.begins]
    | waiting nextTick =>
      by_cases hnow : turn.now < nextTick <;> cases stop <;> simp [behaviour, advance, hnow]
    | done => rfl

/-- The steps a thread takes at most when it is asked to stop: `fn` is called and returns, the
tick is over, the loop is left. -/
def rank : Phase → Nat
  | .done => 0
  | .checking => 1
  | .waiting _ => 2
  | .calling => 3
  | .entering => 4

theorem rank_le (phase : Phase) : rank phase ≤ 4 := by
  cases phase <;> simp [rank]

theorem heeds : (behaviour φ).Heeds Turn.returns rank where
  zero phase := by cases phase <;> simp [rank, behaviour]
  falls task phase turn := by
    cases phase with
    | calling => cases hreturns : turn.returns <;> simp [behaviour, advance, rank, hreturns]
    | waiting nextTick => by_cases hnow : turn.now < nextTick <;> simp [behaviour, advance, rank, hnow]
    | _ => simp [behaviour, advance, rank]
  counted task phase turn hreturns hlive := by
    cases phase with
    | calling => simp [behaviour, advance, rank, hreturns]
    | waiting nextTick => by_cases hnow : turn.now < nextTick <;> simp [behaviour, advance, rank, hnow]
    | done => cases hlive
    | _ => simp [behaviour, advance, rank]

/-- The calls a thread has still to make when it is asked to stop: the one that it has
tested `stop` for. -/
def callsLeft (phase : Phase) : Nat := if phase = .entering then 1 else 0

theorem callsLeft_advance (task : Task φ) (phase : Phase) (turn : Turn) :
    (((behaviour φ).advance task phase true turn).2.elim 0 fun e =>
      if e.begins = true then 1 else 0) +
      callsLeft ((behaviour φ).advance task phase true turn).1 ≤ callsLeft phase := by
  cases phase with
  | calling =>
    cases hreturns : turn.returns <;> simp [behaviour, advance, callsLeft, hreturns, Calling.begins]
  | waiting nextTick =>
    by_cases hnow : turn.now < nextTick <;> simp [behaviour, advance, callsLeft, hnow]
  | _ => simp [behaviour, advance, callsLeft, Calling.begins]

theorem disciplined (key : Bytes) (task : Task φ) :
    Disciplined .empty (repeatEvery key task.interval task.fn) :=
  ⟨_, .unlink trivial, _, .requestStop, _, .join, _, .spawn, _, .publish, trivial⟩

theorem proper (i : Input φ) : i.slots.Proper := by
  cases i with
  | repeatEvery key interval fn => exact disciplined key {interval := interval, fn := fn}
  | proceed => trivial
  | run t now => trivial

theorem orderly_run (inputs : List (Input φ)) :
    Slots.Orderly (behaviour φ) Calling.begins (· == .calling)
      (Runs.run step ({} : State φ) inputs) := by
  have hstep : ∀ (s : State φ) (i : Input φ),
      Slots.Orderly (behaviour φ) Calling.begins (· == .calling) s →
        Slots.Orderly (behaviour φ) Calling.begins (· == .calling) (step s i) :=
    fun _ i h => h.step marks i.slots (proper i)
  exact Runs.invariant_always hstep orderly_start inputs

/-- **One call at a time, and of what was registered last**: in whatever order callers and
threads go on, no two calls of one key's functions are in progress at once, and each call is of the
function that the last `repeatEvery` of its key was given. -/
theorem calls_alone (inputs : List (Input φ)) :
    (∀ key, (inProgress Calling.begins key (Runs.run step ({} : State φ) inputs).log).length ≤ 1) ∧
      Runs.Throughout (CallsRegistered Task.fn) (Runs.run step ({} : State φ) inputs).log := by
  have h := orderly_run inputs
  exact ⟨h.working.alone marks h.inv, callsRegistered (fun _ _ _ _ _ => advance_calls) h.current⟩

/-- **A thread that was asked to stop calls its function once more at most**, and only if it had
tested `stop` for that call before; and it has ended when it has had four turns in which its
function, where it is in progress, returns: whatever callers and other threads do in between. -/
theorem asked_ends (inputs more : List (Input φ)) (t : Nat) (th : Thread Bytes (Task φ) Phase)
    (hth : (Runs.run step ({} : State φ) inputs).threads[t]? = some th) (hasked : th.stop = true) :
    (∃ newer, (Runs.run step ({} : State φ) (inputs ++ more)).log =
        newer ++ (Runs.run step ({} : State φ) inputs).log ∧
      doings Calling.begins t newer ≤ if th.state = .entering then 1 else 0) ∧
    (4 ≤ turns Turn.returns t (more.map Input.slots) →
      ∃ th', (Runs.run step ({} : State φ) (inputs ++ more)).threads[t]? = some th' ∧
        th'.state = .done) := by
  have hrun : Runs.run step ({} : State φ) (inputs ++ more) =
      Runs.run (Slots.step (behaviour φ)) (Runs.run step ({} : State φ) inputs)
        (more.map Input.slots) := by
    rw [Runs.run_append, Runs.run_map]
    rfl
  rw [hrun]
  refine ⟨doings_run callsLeft_advance hth hasked (more.map Input.slots), fun hturns => ?_⟩
  obtain ⟨th', hth', hended⟩ := ends_of_turns heeds ⟨th, hth, hasked⟩ fun th _ _ =>
    Nat.le_trans (rank_le th.state) hturns
  exact ⟨th', hth', beq_iff_eq.mp hended⟩

/-- The first task is replaced between its test and its call. -/
theorem asked_ends_replaced :
    ∃ th', (Runs.run step ({} : State Nat) ([.repeatEvery [] 5 1, .proceed, .proceed, .proceed,
        .proceed, .proceed, .proceed, .run 0 ⟨0, true⟩, .repeatEvery [] 5 2, .proceed, .proceed] ++
        [.run 0 ⟨1, true⟩, .proceed, .run 0 ⟨2, true⟩, .run 0 ⟨9, true⟩,
          .run 0 ⟨9, true⟩])).threads[0]? = some th' ∧ th'.state = .done :=
  (asked_ends _ _ 0 ⟨[], ⟨5, 1⟩, true, .entering⟩ rfl rfl).2 (by decide)

/-- **`repeatEvery` returns** where functions do: when the callers and threads take turns, and a
function in progress comes to its end in each round, the call that got the mutex comes back within
ten rounds, and its function is the one registered. -/
theorem repeatEvery_returns (inputs : List (Input φ)) (key : Bytes) (interval : Int) (fn : φ)
    (hfree : (Runs.run step ({} : State φ) inputs).todo = none)
    (rounds : List (List (Input φ)))
    (hrounds : Rounds (behaviour φ) Turn.returns
      (step (Runs.run step ({} : State φ) inputs) (.repeatEvery key interval fn))
      (rounds.map fun turns => turns.map Input.slots))
    (hlong : 10 ≤ rounds.length) :
    Runs.Reaches step
      (fun s => s.todo = none ∧
        ∃ t, registered key s.log = some (t, {interval := interval, fn := fn}))
      (step (Runs.run step ({} : State φ) inputs) (.repeatEvery key interval fn))
      rounds.flatten := by
  refine call_returns proper heeds rank_le (orderly_run inputs).inv hfree
    (disciplined key {interval := interval, fn := fn}) (fun j q hop => ?_) ?_ hrounds hlong
  · simpa [repeatEvery] using hop
  · simp [repeatEvery]

theorem repeatEvery_returns_first :
    Runs.Reaches step
      (fun s => s.todo = none ∧ ∃ t, registered [] s.log = some (t, {interval := 5, fn := 1}))
      (step ({} : State Nat) (.repeatEvery [] 5 1))
      (List.replicate 10 [.proceed, .run 0 ⟨0, true⟩]).flatten := by
  have hturn : ∀ s : State Nat, s.threads.length ≤ 1 →
      Round Turn.returns s
        (([.proceed, .run 0 ⟨0, true⟩] : List (Input Nat)).map Input.slots) := by
    intro s hs
    refine ⟨List.mem_cons_self .., fun t ht => ⟨⟨0, true⟩, rfl, ?_⟩⟩
    obtain rfl : t = 0 := by omega
    exact List.mem_cons_of_mem _ (List.mem_cons_self ..)
  refine repeatEvery_returns [] [] 5 1 rfl (List.replicate 10 [.proceed, .run 0 ⟨0, true⟩]) ?_
    (by decide)
  exact ⟨hturn _ (by decide), hturn _ (by decide), hturn _ (by decide), hturn _ (by decide),
    hturn _ (by decide), hturn _ (by decide), hturn _ (by decide), hturn _ (by decide),
    hturn _ (by decide), hturn _ (by decide), trivial⟩

end TaskManager

namespace Worker
variable {π δ ω ε : Type} (B : Behaviour π δ ω ε)

theorem disciplined (id : Int) (fn : π) : Disciplined .empty (enqueue id fn) :=
  ⟨_, .find trivial, _, .requestStop, _, .join, _, .spawn, _, .erase, _, .publish, trivial⟩

theorem proper (i : Input π ω) : i.slots.Proper := by
  cases i with
  | enqueue id fn => exact disciplined id fn
  | proceed => trivial
  | run t o => trivial

theorem inv_run (inputs : List (Input π ω)) :
    Inv B (Runs.run (step B) ({} : Slots.State Int π δ ε) inputs) := by
  have hstep : ∀ (s : Slots.State Int π δ ε) (i : Input π ω), Inv B s → Inv B (step B s i) :=
    fun _ i h => h.step i.slots (proper i)
  exact Runs.invariant_always hstep inv_start inputs

/-- **`enqueue` swaps tasks**: whatever the functions do and in whatever order everybody goes
on, an id has at most one thread that has not ended, and only the one enqueued last does
anything. -/
theorem enqueue_swaps (inputs : List (Input π ω)) :
    (∀ id t u, Live B (Runs.run (step B) ({} : Slots.State Int π δ ε) inputs) id t →
      Live B (Runs.run (step B) ({} : Slots.State Int π δ ε) inputs) id u → t = u) ∧
    Runs.Throughout (Current B) (Runs.run (step B) ({} : Slots.State Int π δ ε) inputs).log := by
  refine ⟨fun id t u ht hu => (inv_run B inputs).exclusive ht hu, ?_⟩
  have hstep : ∀ (s : Slots.State Int π δ ε) (i : Input π ω),
      Inv B s ∧ Runs.Throughout (Current B) s.log →
        Inv B (step B s i) ∧ Runs.Throughout (Current B) (step B s i).log :=
    fun s i ⟨hinv, hlog⟩ => ⟨hinv.step i.slots (proper i), throughout_current hinv i.slots hlog⟩
  exact (Runs.invariant_always hstep ⟨inv_start, .nil⟩ inputs).2

/-- **`~Worker` leaves no thread behind**: it stops and joins what is in the map, and while
nobody calls, nothing is left when it is through. -/
theorem destroyed (inputs : List (Input π ω)) (keys : List Int)
    (hfree : (Runs.run (step B) ({} : Slots.State Int π δ ε) inputs).todo = none)
    (hkeys : ∀ id t,
      (Runs.run (step B) ({} : Slots.State Int π δ ε) inputs).slots id = some t → id ∈ keys)
    (more : List (Input π ω)) (hmore : ∀ i ∈ more, ∀ id fn, i ≠ .enqueue id fn)
    (hthrough : (Runs.run (step B)
      (destruct B (Runs.run (step B) {} inputs) keys) more).todo = none) (id : Int) (t : Nat) :
    ¬ Live B (Runs.run (step B) (destruct B (Runs.run (step B) {} inputs) keys) more) id t := by
  have hstep : ∀ (s : Slots.State Int π δ ε) (i : Input π ω), Inv B s ∧ Emptying s →
      (∀ id fn, i ≠ .enqueue id fn) → Inv B (step B s i) ∧ Emptying (step B s i) := by
    intro s i ⟨hinv, hempty⟩ hi
    refine ⟨hinv.step i.slots (proper i), hempty.step fun ops hops => ?_⟩
    cases i with
    | enqueue id fn => exact hi id fn rfl
    | proceed => cases hops
    | run t o => cases hops
  have hinv := (inv_run B inputs).step (.call (destroy keys)) (disciplined_destroy keys trivial)
  obtain ⟨hinv', hempty⟩ := Runs.invariant_run hstep ⟨hinv, emptying_call hfree hkeys⟩
    (Runs.Along.of_forall hmore)
  exact hempty.gone hinv' hthrough id t

theorem destroyed_one : ¬ Live (Server.repeatLoop Nat)
    (Runs.run (step (Server.repeatLoop Nat)) (destruct (Server.repeatLoop Nat)
      (Runs.run (step (Server.repeatLoop Nat)) {} [.enqueue 7 1, .proceed, .proceed, .proceed,
        .proceed, .proceed, .proceed, .proceed]) [7])
      [.proceed, .proceed, .run 0 none, .proceed, .proceed]) 7 0 := by
  refine destroyed (Server.repeatLoop Nat) _ [7] rfl (fun id t h => ?_) _ ?_ rfl 7 0
  · by_contra hne
    have hid : id ≠ 7 := fun heq => hne (heq ▸ List.mem_cons_self ..)
    change Function.update (Function.update (fun _ => none) 7 none) 7 (some 0) id = some t at h
    rw [Function.update_of_ne hid, Function.update_of_ne hid] at h
    cases h
  · intro i hi id fn heq
    subst heq
    simp at hi

end Worker

namespace Server
variable {φ : Type}

theorem advance_calls {fn f : φ} {phase : Phase} {stop : Bool} {result : Option Bool}
    (h : (advance fn phase stop result).2 = some (.called f)) : f = fn := by
  cases phase with
  | checking => cases h
  | entering =>
    cases h
    rfl
  | calling => cases result <;> cases h
  | sleeping => cases h
  | done => cases h

theorem marks : (repeatLoop φ).Marks Calling.begins (· == .calling) where
  start _ := rfl
  live phase h := by
    rw [beq_iff_eq.mp h]
    rfl
  moves fn phase stop result := by
    cases phase with
    | checking => cases stop <;> rfl
    | entering => exact ⟨rfl, rfl⟩
    | calling =>
      match result with
      | none => rfl
      | some true => exact ⟨rfl, rfl⟩
      | some false => exact ⟨rfl, rfl⟩
    | sleeping => rfl
    | done => rfl

/-- The loop's steps when it is asked to stop: `fn` is called and returns, the sleep is over, the
loop is left. -/
def rank : Phase → Nat
  | .done => 0
  | .checking => 1
  | .sleeping => 2
  | .calling => 3
  | .entering => 4

theorem rank_le (phase : Phase) : rank phase ≤ 4 := by
  cases phase <;> simp [rank]

theorem heeds : (repeatLoop φ).Heeds Option.isSome rank where
  zero phase := by cases phase <;> simp [rank, repeatLoop]
  falls fn phase result := by
    cases phase with
    | calling =>
      match result with
      | none => exact Nat.le_refl _
      | some true => exact Nat.le_succ 2
      | some false => exact Nat.zero_le 3
    | _ => simp [repeatLoop, advance, rank]
  counted fn phase result hresult hlive := by
    cases phase with
    | calling =>
      match result, hresult with
      | some true, _ => exact Nat.lt_succ_self 2
      | some false, _ => exact Nat.succ_pos 2
    | done => cases hlive
    | _ => simp [repeatLoop, advance, rank]

/-- The last a thread logs is that its function returned `false`. -/
def gaveUp : Calling φ Bool → Bool
  | .called _ => false
  | .returned _ result => !result

theorem ended_of_gaveUp (fn : φ) (phase : Phase) (stop : Bool) (result : Option Bool)
    (e : Calling φ Bool)
    (he : ((repeatLoop φ).advance fn phase stop result).2 = some e) (hlast : gaveUp e = true) :
    (repeatLoop φ).ended ((repeatLoop φ).advance fn phase stop result).1 = true := by
  cases phase with
  | checking => cases he
  | entering =>
    cases he
    cases hlast
  | calling =>
    match result, he with
    | some false, he => rfl
    | some true, he =>
      cases he
      cases hlast
  | sleeping => cases he
  | done => cases he

theorem orderly_run (inputs : List (Worker.Input φ (Option Bool))) :
    Slots.Orderly (repeatLoop φ) Calling.begins (· == .calling)
      (Runs.run repeatStep {} inputs) := by
  have hstep : ∀ (s : Slots.State Int φ Phase (Calling φ Bool)) (i : Worker.Input φ (Option Bool)),
      Slots.Orderly (repeatLoop φ) Calling.begins (· == .calling) s →
        Slots.Orderly (repeatLoop φ) Calling.begins (· == .calling) (repeatStep s i) :=
    fun _ i h => h.step marks i.slots (Worker.proper i)
  exact Runs.invariant_always hstep orderly_start inputs

/-- **What `Server::repeatEvery` repeats**: no two calls of one id's functions are in progress at
once, each is of the function given last for its id, and a thread whose function returned
`false` calls nothing more. -/
theorem repeatEvery_calls (inputs : List (Worker.Input φ (Option Bool))) :
    (∀ id, (inProgress Calling.begins id (Runs.run repeatStep {} inputs).log).length ≤ 1) ∧
      Runs.Throughout (CallsRegistered fun fn : φ => fn) (Runs.run repeatStep {} inputs).log ∧
      Runs.Throughout (Slots.Final gaveUp) (Runs.run repeatStep {} inputs).log := by
  have h := orderly_run inputs
  refine ⟨h.working.alone marks h.inv,
    callsRegistered (fun _ _ _ _ _ => advance_calls) h.current, ?_⟩
  have hstep : ∀ (s : Slots.State Int φ Phase (Calling φ Bool)) (i : Worker.Input φ (Option Bool)),
      Closed (repeatLoop φ) gaveUp s ∧ Runs.Throughout (Slots.Final gaveUp) s.log →
        Closed (repeatLoop φ) gaveUp (repeatStep s i) ∧
          Runs.Throughout (Slots.Final gaveUp) (repeatStep s i).log :=
    fun s i ⟨hclosed, hlog⟩ =>
      ⟨closed_step ended_of_gaveUp hclosed i.slots, throughout_final hclosed i.slots hlog⟩
  refine (Runs.invariant_always hstep ⟨fun k t x hx => ?_, .nil⟩ inputs).2
  cases hx

/-- **`Server::repeatEvery` returns** where functions do, within eleven rounds in each of which a
function in progress comes to its end, and its function is the one that is registered. -/
theorem repeatEvery_back (inputs : List (Worker.Input φ (Option Bool))) (id : Int) (fn : φ)
    (hfree : (Runs.run repeatStep {} inputs).todo = none)
    (rounds : List (List (Worker.Input φ (Option Bool))))
    (hrounds : Rounds (repeatLoop φ) Option.isSome
      (repeatStep (Runs.run repeatStep {} inputs) (.enqueue id fn))
      (rounds.map fun turns => turns.map Worker.Input.slots))
    (hlong : 11 ≤ rounds.length) :
    Runs.Reaches repeatStep (fun s => s.todo = none ∧ ∃ t, registered id s.log = some (t, fn))
      (repeatStep (Runs.run repeatStep {} inputs) (.enqueue id fn)) rounds.flatten := by
  refine call_returns Worker.proper heeds rank_le (orderly_run inputs).inv hfree
    (Worker.disciplined id fn) (fun j q hop => ?_) ?_ hrounds hlong
  · simpa [Worker.enqueue] using hop
  · simp [Worker.enqueue]

theorem repeatEvery_back_first :
    Runs.Reaches repeatStep (fun s => s.todo = none ∧ ∃ t, registered 3 s.log = some (t, 1))
      (repeatStep ({} : Slots.State Int Nat Phase (Calling Nat Bool)) (.enqueue 3 1))
      (List.replicate 11 [.proceed, .run 0 (some true)]).flatten := by
  have hturn : ∀ s : Slots.State Int Nat Phase (Calling Nat Bool), s.threads.length ≤ 1 →
      Round Option.isSome s
        ([Worker.Input.proceed, .run 0 (some true)].map Worker.Input.slots) := by
    intro s hs
    refine ⟨List.mem_cons_self .., fun t ht => ⟨some true, rfl, ?_⟩⟩
    obtain rfl : t = 0 := by omega
    exact List.mem_cons_of_mem _ (List.mem_cons_self ..)
  refine repeatEvery_back [] 3 1 rfl (List.replicate 11 [.proceed, .run 0 (some true)]) ?_
    (by decide)
  exact ⟨hturn _ (by decide), hturn _ (by decide), hturn _ (by decide), hturn _ (by decide),
    hturn _ (by decide), hturn _ (by decide), hturn _ (by decide), hturn _ (by decide),
    hturn _ (by decide), hturn _ (by decide), hturn _ (by decide), trivial⟩

end Server
end HttpServer
