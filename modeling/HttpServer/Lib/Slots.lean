import HttpServer.Lib.Runs

/-! Worker threads in keyed slots, replaced one at a time under a lock.

A call takes the lock and goes through its operations while the threads go on: it
finds the thread in a slot, asks it to stop, waits for it, starts another and puts that in
the slot. `Hand` is what the caller knows of the thread in its hand, and a call is
`Disciplined` that starts a thread for a key only when it has joined the one there
was. Then a key never has two live threads (`Inv.exclusive`), in whatever order the
caller and the threads take their steps, and a thread does nothing more once the next of
its key has been started (`Inv.log`). -/
namespace Lib.Slots
variable {κ π δ ω ε : Type*}

/-- What a thread does by itself with its program: a step sees whether the thread was asked
to stop, and something of the world. -/
structure Behaviour (π δ ω ε : Type*) where
  start : π → δ
  advance : π → δ → Bool → ω → δ × Option ε
  ended : δ → Bool
  rests : ∀ p d stop o, ended d = true → advance p d stop o = (d, none)

structure Thread (κ π δ : Type*) where
  key : κ
  program : π
  stop : Bool
  state : δ

/-- What a caller that has the lock can do, one at a time. -/
inductive Op (κ π : Type*) where
  /-- Takes the thread out of the slot. -/
  | unlink (k : κ)
  /-- Looks it up and leaves it there. -/
  | find (k : κ)
  /-- Asks the thread in hand to stop. -/
  | requestStop
  /-- Waits for the thread in hand. -/
  | join
  | spawn (k : κ) (p : π)
  | erase (k : κ)
  /-- Puts the thread in hand into the slot. -/
  | publish (k : κ)

/-- Only what had not ended goes on. -/
theorem Behaviour.live_of_next (B : Behaviour π δ ω ε) {p : π} {d d' : δ} {stop : Bool} {o : ω}
    {c : Prop} [Decidable c] (hd : d' = if c then (B.advance p d stop o).1 else d)
    (hlive : B.ended d' = false) : B.ended d = false := by
  by_contra hended
  rw [Bool.not_eq_false] at hended
  rw [B.rests _ _ _ _ hended, ite_self] at hd
  rw [hd, hended] at hlive
  cases hlive

inductive Entry (κ π ε : Type*) where
  | spawned (k : κ) (t : Nat) (p : π)
  | did (k : κ) (t : Nat) (e : ε)
  deriving DecidableEq

/-- The threads in the order they were started, the slots, what the caller with the lock has
still to do and has in hand, and what happened, newest first. -/
structure State (κ π δ ε : Type*) where
  threads : List (Thread κ π δ) := []
  slots : κ → Option Nat := fun _ => none
  todo : Option (List (Op κ π)) := none
  hand : Option Nat := none
  log : List (Entry κ π ε) := []

/-- Who takes the next step: somebody who wants the lock, the one who has it, or a thread. -/
inductive Input (κ π ω : Type*) where
  | call (ops : List (Op κ π))
  | proceed
  | run (t : Nat) (o : ω)

/-- The thread in hand has ended, or there is none. -/
def State.over (B : Behaviour π δ ω ε) (s : State κ π δ ε) : Bool :=
  s.hand.all fun t => s.threads[t]?.all fun th => B.ended th.state

def askStop (threads : List (Thread κ π δ)) : Option Nat → List (Thread κ π δ)
  | none => threads
  | some t => threads.modify t fun th => { th with stop := true }

section
variable [DecidableEq κ]

/-- One operation; nothing when it has to wait. -/
def perform (B : Behaviour π δ ω ε) (s : State κ π δ ε) : Op κ π → Option (State κ π δ ε)
  | .unlink k => some { s with slots := Function.update s.slots k none, hand := s.slots k }
  | .find k => some { s with hand := s.slots k }
  | .requestStop => some { s with threads := askStop s.threads s.hand }
  | .join => if s.over B then some { s with hand := none } else none
  | .spawn k p =>
    some { s with
      threads := s.threads ++ [⟨k, p, false, B.start p⟩]
      hand := some s.threads.length
      log := .spawned k s.threads.length p :: s.log }
  | .erase k => some { s with slots := Function.update s.slots k none }
  | .publish k => some { s with slots := Function.update s.slots k s.hand, hand := none }

/-- The caller's step: its next operation, or its return. -/
def proceed (B : Behaviour π δ ω ε) (s : State κ π δ ε) : State κ π δ ε :=
  match s.todo with
  | none => s
  | some [] => { s with todo := none, hand := none }
  | some (op :: rest) =>
    match perform B s op with
    | none => s
    | some s' => { s' with todo := some rest }

/-- A thread's step. -/
def runThread (B : Behaviour π δ ω ε) (s : State κ π δ ε) (t : Nat) (o : ω) : State κ π δ ε :=
  match s.threads[t]? with
  | none => s
  | some th =>
    let (d, e) := B.advance th.program th.state th.stop o
    { s with
      threads := s.threads.set t { th with state := d }
      log := (e.map (Entry.did th.key t)).toList ++ s.log }

/-- A call waits while another has the lock. -/
def step (B : Behaviour π δ ω ε) (s : State κ π δ ε) : Input κ π ω → State κ π δ ε
  | .call ops => if s.todo.isNone then { s with todo := some ops, hand := none } else s
  | .proceed => proceed B s
  | .run t o => runThread B s t o

end

/-! ### What the caller knows -/

/-- What is known of the thread in hand. -/
inductive Hand (κ : Type*) where
  | empty
  | found (k : κ) (asked : Bool)
  | cleared (k : κ)
  | made (k : κ)

/-- The call may return, or go on to another key. -/
def Hand.free : Hand κ → Prop
  | .empty => True
  | .cleared _ => True
  | _ => False

/-- The operations that may be done, and what is known after them. -/
inductive Hand.After : Hand κ → Op κ π → Hand κ → Prop
  | unlink {h : Hand κ} {k : κ} (hfree : h.free) : After h (.unlink k) (.found k false)
  | find {h : Hand κ} {k : κ} (hfree : h.free) : After h (.find k) (.found k false)
  | requestStop {k : κ} {asked : Bool} : After (.found k asked) .requestStop (.found k true)
  | join {k : κ} : After (.found k true) .join (.cleared k)
  | spawn {k : κ} {p : π} : After (.cleared k) (.spawn k p) (.made k)
  | erase {k : κ} : After (.made k) (.erase k) (.made k)
  | publish {k : κ} : After (.made k) (.publish k) .empty

/-- A call that may be made, from what is known when it is at `ops`. -/
def Disciplined : Hand κ → List (Op κ π) → Prop
  | h, [] => h.free
  | h, op :: rest => ∃ h', h.After op h' ∧ Disciplined h' rest

/-- Thread `t` was started for `k`. -/
def Belongs (s : State κ π δ ε) (k : κ) (t : Nat) : Prop :=
  ∃ th, s.threads[t]? = some th ∧ th.key = k

/-- Thread `t` was started for `k` and has not ended. -/
def Live (B : Behaviour π δ ω ε) (s : State κ π δ ε) (k : κ) (t : Nat) : Prop :=
  ∃ th, s.threads[t]? = some th ∧ th.key = k ∧ B.ended th.state = false

/-- The thread started last for a key, with its program. -/
def registered [DecidableEq κ] (k : κ) : List (Entry κ π ε) → Option (Nat × π)
  | [] => none
  | .spawned j t p :: older => if j = k then some (t, p) else registered k older
  | .did _ _ _ :: older => registered k older

/-- Thread `t` was asked to stop. -/
def Asked (s : State κ π δ ε) (t : Nat) : Prop := ∃ th, s.threads[t]? = some th ∧ th.stop = true

variable {B : Behaviour π δ ω ε} {s s' : State κ π δ ε} {k : κ} {t u : Nat}

/-! ### What a step does to the threads -/

theorem runThread_cases (B : Behaviour π δ ω ε) (s : State κ π δ ε) (t : Nat) (o : ω) :
    s.threads[t]? = none ∧ runThread B s t o = s ∨
      ∃ th, s.threads[t]? = some th ∧
        runThread B s t o =
          { s with
            threads := s.threads.set t
              { th with state := (B.advance th.program th.state th.stop o).1 }
            log := ((B.advance th.program th.state th.stop o).2.map
              (Entry.did th.key t)).toList ++ s.log } := by
  unfold runThread
  cases hth : s.threads[t]? with
  | none => exact .inl ⟨rfl, rfl⟩
  | some th => exact .inr ⟨th, rfl, rfl⟩

/-- A thread's step changes its state and nothing else of any thread. -/
theorem runThread_thread (o : ω) {th' : Thread κ π δ}
    (h : (runThread B s t o).threads[u]? = some th') :
    ∃ th, s.threads[u]? = some th ∧ th'.key = th.key ∧ th'.program = th.program ∧
      th'.stop = th.stop ∧
      th'.state = if t = u then (B.advance th.program th.state th.stop o).1 else th.state := by
  rcases runThread_cases B s t o with ⟨hnone, heq⟩ | ⟨th, hth, heq⟩
  · rw [heq] at h
    refine ⟨th', h, rfl, rfl, rfl, (if_neg fun htu => ?_).symm⟩
    rw [htu, h] at hnone
    cases hnone
  · rw [heq] at h
    simp only [List.getElem?_set] at h
    split at h
    · next htu =>
      subst htu
      split at h
      · cases h
        exact ⟨th, hth, rfl, rfl, rfl, (if_pos rfl).symm⟩
      · cases h
    · next htu => exact ⟨th', h, rfl, rfl, rfl, (if_neg htu).symm⟩

theorem runThread_getElem? (o : ω) {th : Thread κ π δ} (h : s.threads[u]? = some th) :
    (runThread B s t o).threads[u]? =
      some { th with
        state := if t = u then (B.advance th.program th.state th.stop o).1 else th.state } := by
  rcases runThread_cases B s t o with ⟨hnone, heq⟩ | ⟨th', hth', heq⟩
  · rw [heq, h, if_neg]
    rintro rfl
    rw [h] at hnone
    cases hnone
  · rw [heq]
    simp only [List.getElem?_set]
    split
    · next htu =>
      subst htu
      rw [h] at hth'
      cases hth'
      rw [if_pos (List.getElem?_eq_some_iff.mp h).1]
    · exact h

theorem belongs_runThread (o : ω) : Belongs (runThread B s t o) k u ↔ Belongs s k u := by
  constructor
  · rintro ⟨th', hth', rfl⟩
    obtain ⟨th, hth, hkey, _⟩ := runThread_thread o hth'
    exact ⟨th, hth, hkey.symm⟩
  · rintro ⟨th, hth, rfl⟩
    exact ⟨_, runThread_getElem? o hth, rfl⟩

/-- A thread that has ended stays ended. -/
theorem live_runThread (o : ω) (h : Live B (runThread B s t o) k u) : Live B s k u := by
  obtain ⟨th', hth', rfl, hlive⟩ := h
  obtain ⟨th, hth, hkey, _, _, hstate⟩ := runThread_thread o hth'
  exact ⟨th, hth, hkey.symm, B.live_of_next hstate hlive⟩

theorem asked_runThread (o : ω) (h : Asked s u) : Asked (runThread B s t o) u := by
  obtain ⟨th, hth, hstop⟩ := h
  exact ⟨_, runThread_getElem? o hth, hstop⟩

@[simp] theorem runThread_slots (o : ω) : (runThread B s t o).slots = s.slots := by
  rcases runThread_cases B s t o with ⟨_, heq⟩ | ⟨_, _, heq⟩ <;> rw [heq]

@[simp] theorem runThread_hand (o : ω) : (runThread B s t o).hand = s.hand := by
  rcases runThread_cases B s t o with ⟨_, heq⟩ | ⟨_, _, heq⟩ <;> rw [heq]

@[simp] theorem runThread_todo (o : ω) : (runThread B s t o).todo = s.todo := by
  rcases runThread_cases B s t o with ⟨_, heq⟩ | ⟨_, _, heq⟩ <;> rw [heq]

theorem askStop_getElem? (threads : List (Thread κ π δ)) (hand : Option Nat) (u : Nat) :
    (askStop threads hand)[u]? =
      threads[u]?.map fun th => { th with stop := th.stop || hand == some u } := by
  cases hand with
  | none => simp [askStop]
  | some t =>
    simp only [askStop, List.getElem?_modify]
    by_cases htu : t = u
    · cases threads[u]? <;> simp [htu]
    · have hne : (t == u) = false := beq_eq_false_iff_ne.mpr htu
      cases threads[u]? <;> simp [htu, hne]

/-- A caller's step neither ends a thread nor starts one again. -/
theorem askStop_live {hand : Option Nat} {s' : State κ π δ ε}
    (h : s'.threads = askStop s.threads hand) : Live B s' k u ↔ Live B s k u := by
  unfold Live
  rw [h, askStop_getElem?]
  cases s.threads[u]? <;> simp

theorem askStop_belongs {hand : Option Nat} {s' : State κ π δ ε}
    (h : s'.threads = askStop s.threads hand) : Belongs s' k u ↔ Belongs s k u := by
  unfold Belongs
  rw [h, askStop_getElem?]
  cases s.threads[u]? <;> simp

theorem askStop_asked {s' : State κ π δ ε} (h : s'.threads = askStop s.threads (some u))
    (hb : Belongs s k u) : Asked s' u := by
  obtain ⟨th, hth, _⟩ := hb
  refine ⟨_, by rw [h, askStop_getElem?, hth]; rfl, ?_⟩
  simp

/-- A new thread is live, and the others are as they were. -/
theorem spawn_thread {th th' : Thread κ π δ} {s' : State κ π δ ε}
    (h : s'.threads = s.threads ++ [th]) (hu : s'.threads[u]? = some th') :
    s.threads[u]? = some th' ∨ u = s.threads.length ∧ th' = th := by
  rw [h] at hu
  rcases Nat.lt_trichotomy u s.threads.length with hlt | heq | hgt
  · exact .inl (by rwa [List.getElem?_append_left hlt] at hu)
  · subst heq
    rw [List.getElem?_concat_length] at hu
    exact .inr ⟨rfl, (Option.some_inj.mp hu).symm⟩
  · rw [List.getElem?_eq_none (by simp; omega)] at hu
    cases hu

theorem spawn_live {th : Thread κ π δ} {s' : State κ π δ ε}
    (h : s'.threads = s.threads ++ [th]) (hu : Live B s' k u) :
    Live B s k u ∨ u = s.threads.length ∧ k = th.key := by
  obtain ⟨th', hth, rfl, hlive⟩ := hu
  rcases spawn_thread h hth with hth | ⟨rfl, rfl⟩
  · exact .inl ⟨th', hth, rfl, hlive⟩
  · exact .inr ⟨rfl, rfl⟩

theorem spawn_belongs {th : Thread κ π δ} {s' : State κ π δ ε}
    (h : s'.threads = s.threads ++ [th]) (hb : Belongs s k u) : Belongs s' k u := by
  obtain ⟨th', hth, hk⟩ := hb
  refine ⟨th', ?_, hk⟩
  rw [h, List.getElem?_append_left (List.getElem?_eq_some_iff.mp hth).1, hth]

section
variable [DecidableEq κ]

/-- A live thread is in the slot of its key, or in hand if the key is `taken`. -/
def Placed (B : Behaviour π δ ω ε) (s : State κ π δ ε) (taken : Option κ) : Prop :=
  ∀ k t, Live B s k t → (if taken = some k then s.hand else s.slots k) = some t

/-- What is known holds. -/
def Hand.Holds (B : Behaviour π δ ω ε) (s : State κ π δ ε) : Hand κ → Prop
  | .empty => Placed B s none
  | .found k asked =>
    Placed B s (some k) ∧ ∀ t, s.hand = some t → Belongs s k t ∧ (asked = true → Asked s t)
  | .cleared k => Placed B s (some k) ∧ s.hand = none
  | .made k => Placed B s (some k) ∧ ∃ t, s.hand = some t ∧ Belongs s k t

structure Sound (B : Behaviour π δ ω ε) (s : State κ π δ ε) : Prop where
  /-- The thread in a slot is one of its key. -/
  named : ∀ k t, s.slots k = some t → Belongs s k t
  /-- A live thread is the last of its key. -/
  latest : ∀ t th, s.threads[t]? = some th → B.ended th.state = false →
    registered th.key s.log = some (t, th.program)

structure Inv (B : Behaviour π δ ω ε) (s : State κ π δ ε) : Prop extends Sound B s where
  knows : ∃ h : Hand κ, Disciplined h (s.todo.getD []) ∧ h.Holds B s

/-- With nothing in hand, a key that is taken has no live thread. -/
theorem Placed.of_taken (h : Placed B s (some k)) (hhand : s.hand = none) : Placed B s none := by
  intro j t ht
  have hplace := h j t ht
  split at hplace
  · rw [hhand] at hplace
    cases hplace
  · exact hplace

/-- What is known stays so while threads only end. -/
theorem Hand.Holds.mono (hbelongs : ∀ k t, Belongs s k t → Belongs s' k t)
    (hlive : ∀ k t, Live B s' k t → Live B s k t) (hasked : ∀ t, Asked s t → Asked s' t)
    (hslots : s'.slots = s.slots) (hhand : s'.hand = s.hand) {h : Hand κ} (hh : h.Holds B s) :
    h.Holds B s' := by
  have hplaced : ∀ taken : Option κ, Placed B s taken → Placed B s' taken := by
    intro taken hp k t ht
    rw [hslots, hhand]
    exact hp k t (hlive k t ht)
  cases h with
  | empty => exact hplaced _ hh
  | found k asked =>
    refine ⟨hplaced _ hh.1, fun t ht => ?_⟩
    obtain ⟨hb, ha⟩ := hh.2 t (hhand ▸ ht)
    exact ⟨hbelongs k t hb, fun hasks => hasked t (ha hasks)⟩
  | cleared k => exact ⟨hplaced _ hh.1, hhand.trans hh.2⟩
  | made k =>
    obtain ⟨hp, t, ht, hb⟩ := hh
    exact ⟨hplaced _ hp, t, hhand.trans ht, hbelongs k t hb⟩

theorem Hand.Holds.placed {h : Hand κ} (hfree : h.free) (hh : h.Holds B s) : Placed B s none := by
  cases h with
  | empty => exact hh
  | cleared k => exact hh.1.of_taken hh.2
  | found k asked => cases hfree
  | made k => cases hfree

/-! ### The invariant -/

theorem Sound.exclusive (h : Sound B s) (ht : Live B s k t) (hu : Live B s k u) : t = u := by
  obtain ⟨th, hth, rfl, hlive⟩ := ht
  obtain ⟨th', hth', hk, hlive'⟩ := hu
  have hlast := h.latest u th' hth' hlive'
  rw [hk, h.latest t th hth hlive] at hlast
  exact (Prod.mk.inj (Option.some_inj.mp hlast)).1

/-- What a thread does is no registration. -/
theorem registered_did (k : κ) (newer : Option ε) (j : κ) (t : Nat) (older : List (Entry κ π ε)) :
    registered k ((newer.map (Entry.did j t)).toList ++ older) = registered k older := by
  cases newer <;> rfl

theorem Sound.run (h : Sound B s) (t : Nat) (o : ω) : Sound B (runThread B s t o) := by
  refine ⟨fun k u hu => ?_, fun u th' hth' hlive => ?_⟩
  · rw [runThread_slots] at hu
    exact (belongs_runThread o).mpr (h.named k u hu)
  · obtain ⟨th, hth, hkey, hprogram, _, hstate⟩ := runThread_thread o hth'
    have hlast := h.latest u th hth (B.live_of_next hstate hlive)
    rw [hkey, hprogram, ← hlast]
    rcases runThread_cases B s t o with ⟨_, heq⟩ | ⟨th'', _, heq⟩
    · rw [heq]
    · rw [heq]
      exact registered_did _ _ _ _ _

theorem Inv.run (h : Inv B s) (t : Nat) (o : ω) : Inv B (runThread B s t o) := by
  obtain ⟨hand, hd, hh⟩ := h.knows
  refine ⟨h.toSound.run t o, hand, by rwa [runThread_todo],
    hh.mono ?_ ?_ ?_ (runThread_slots o) (runThread_hand o)⟩
  · exact fun k u => (belongs_runThread o).mpr
  · exact fun k u => live_runThread o
  · exact fun u => asked_runThread o

/-- With other slots and another hand, the threads are as sound as they were. -/
theorem Sound.of_threads (h : Sound B s) (hthreads : s'.threads = s.threads)
    (hlog : s'.log = s.log) (hnamed : ∀ k t, s'.slots k = some t → Belongs s k t) :
    Sound B s' := by
  refine ⟨fun k t ht => ?_, fun t th hth hlive => ?_⟩
  · rw [Belongs, hthreads]
    exact hnamed k t ht
  · rw [hlog]
    exact h.latest t th (hthreads ▸ hth) hlive

/-- An empty slot is as good as any. -/
theorem Sound.erased (h : Sound B s) (k : κ) :
    ∀ j t, Function.update s.slots k none j = some t → Belongs s j t := by
  intro j t ht
  rw [Function.update_apply] at ht
  split at ht
  · cases ht
  · exact h.named j t ht

/-- The caller has the thread of the slot in hand. -/
theorem Placed.look (h : Placed B s none) (hthreads : s'.threads = s.threads)
    (hslots : ∀ j, j ≠ k → s'.slots j = s.slots j) (hhand : s'.hand = s.slots k) :
    Placed B s' (some k) := by
  intro j t ht
  rw [Live, hthreads] at ht
  have hplace : s.slots j = some t := h j t ht
  split
  · next hk => rw [hhand, Option.some_inj.mp hk, hplace]
  · next hk => rw [hslots j fun hjk => hk (congrArg some hjk.symm), hplace]

/-- The slot of the key that is taken does not matter. -/
theorem Placed.keep (h : Placed B s (some k)) (hthreads : s'.threads = s.threads)
    (hslots : ∀ j, j ≠ k → s'.slots j = s.slots j) (hhand : s'.hand = s.hand) :
    Placed B s' (some k) := by
  intro j t ht
  rw [Live, hthreads] at ht
  have hplace := h j t ht
  split at hplace
  · next hk => rw [if_pos hk, hhand, hplace]
  · next hk => rw [if_neg hk, hslots j fun hjk => hk (congrArg some hjk.symm), hplace]

/-- The thread in hand goes into the slot. -/
theorem Placed.publish (h : Placed B s (some k)) (hthreads : s'.threads = s.threads)
    (hslots : ∀ j, j ≠ k → s'.slots j = s.slots j) (hslot : s'.slots k = s.hand) :
    Placed B s' none := by
  intro j t ht
  rw [Live, hthreads] at ht
  have hplace := h j t ht
  rw [if_neg (Option.some_ne_none j).symm]
  split at hplace
  · next hk => rw [← Option.some_inj.mp hk, hslot, hplace]
  · next hk => rw [hslots j fun hjk => hk (congrArg some hjk.symm), hplace]

/-- Whoever waited for the thread in hand has none left. -/
theorem Placed.joined (h : Placed B s (some k)) (hover : s.over B = true)
    (hthreads : s'.threads = s.threads) (hslots : s'.slots = s.slots) : Placed B s' (some k) := by
  intro j t ht
  rw [Live, hthreads] at ht
  have hplace := h j t ht
  split at hplace
  · obtain ⟨th, hth, _, hlive⟩ := ht
    rw [State.over, hplace, Option.all_some, hth, Option.all_some, hlive] at hover
    cases hover
  · next hk => rw [if_neg hk, hslots, hplace]

/-- The caller's operation on the threads: asking one to stop. -/
theorem Sound.asked (h : Sound B s) {hand : Option Nat}
    (hthreads : s'.threads = askStop s.threads hand) (hslots : s'.slots = s.slots)
    (hlog : s'.log = s.log) : Sound B s' := by
  refine ⟨fun j t ht => ?_, fun t th' hth' hlive => ?_⟩
  · exact (askStop_belongs hthreads).mpr (h.named j t (hslots ▸ ht))
  · rw [hthreads, askStop_getElem?] at hth'
    obtain ⟨th, hth, rfl⟩ := Option.map_eq_some_iff.mp hth'
    rw [hlog]
    exact h.latest t th hth hlive

/-- Starting one, for a key without a live thread. -/
theorem Sound.spawn (h : Sound B s) (th : Thread κ π δ) (hnone : ∀ t, ¬ Live B s th.key t)
    (hthreads : s'.threads = s.threads ++ [th]) (hslots : s'.slots = s.slots)
    (hlog : s'.log = .spawned th.key s.threads.length th.program :: s.log) : Sound B s' := by
  refine ⟨fun j t ht => ?_, fun t th' hth' hlive => ?_⟩
  · exact spawn_belongs hthreads (h.named j t (hslots ▸ ht))
  · rw [hlog, registered]
    rcases spawn_thread hthreads hth' with hth' | ⟨rfl, rfl⟩
    · rw [if_neg fun hk => hnone t ⟨th', hth', hk.symm, hlive⟩]
      exact h.latest t th' hth' hlive
    · exact if_pos rfl

theorem Placed.spawn (th : Thread κ π δ) (h : Placed B s (some th.key)) (hhand : s.hand = none)
    (hthreads : s'.threads = s.threads ++ [th]) (hslots : s'.slots = s.slots)
    (hhand' : s'.hand = some s.threads.length) : Placed B s' (some th.key) := by
  intro j t ht
  rcases spawn_live hthreads ht with ht | ⟨rfl, rfl⟩
  · have hplace := h j t ht
    split at hplace
    · rw [hhand] at hplace
      cases hplace
    · next hk => rw [if_neg hk, hslots, hplace]
  · rw [if_pos rfl, hhand']

/-- **One operation of a disciplined call.** -/
theorem Sound.perform (hs : Sound B s) {h h' : Hand κ} {op : Op κ π} (hh : h.Holds B s)
    (hafter : h.After op h') (hp : perform B s op = some s') : Sound B s' ∧ h'.Holds B s' := by
  have hne : ∀ {k j : κ} {v : Option Nat}, j ≠ k → Function.update s.slots k v j = s.slots j :=
    fun hjk => Function.update_of_ne hjk _ _
  cases hafter with
  | @unlink _ k hfree =>
    cases hp
    refine ⟨hs.of_threads rfl rfl (hs.erased k), ?_, fun t ht => ⟨hs.named k t ht, by simp⟩⟩
    exact (hh.placed hfree).look rfl (fun j => hne) rfl
  | @find _ k hfree =>
    cases hp
    refine ⟨hs.of_threads rfl rfl hs.named, ?_, fun t ht => ⟨hs.named k t ht, by simp⟩⟩
    exact (hh.placed hfree).look rfl (fun _ _ => rfl) rfl
  | @requestStop k asked =>
    cases hp
    refine ⟨hs.asked rfl rfl rfl, fun j t ht => ?_, fun t ht => ?_⟩
    · exact hh.1 j t ((askStop_live rfl).mp ht)
    · have hb := (hh.2 t ht).1
      exact ⟨(askStop_belongs rfl).mpr hb, fun _ => askStop_asked (congrArg (askStop _) ht) hb⟩
  | @join k =>
    simp only [Slots.perform] at hp
    split at hp
    · next hover =>
      cases hp
      exact ⟨hs.of_threads rfl rfl hs.named, hh.1.joined hover rfl rfl, rfl⟩
    · cases hp
  | @spawn k p =>
    cases hp
    have hnone : ∀ t, ¬ Live B s k t := by
      intro t ht
      have hplace := hh.1 k t ht
      rw [if_pos rfl, hh.2] at hplace
      cases hplace
    let th : Thread κ π δ := ⟨k, p, false, B.start p⟩
    have hplaced : Placed B s (some th.key) := hh.1
    refine ⟨hs.spawn th hnone rfl rfl rfl, ?_, s.threads.length, rfl, ?_⟩
    · exact hplaced.spawn th hh.2 rfl rfl rfl
    · exact ⟨th, List.getElem?_concat_length .., rfl⟩
  | @erase k =>
    cases hp
    obtain ⟨hplaced, t, ht, hb⟩ := hh
    exact ⟨hs.of_threads rfl rfl (hs.erased k), hplaced.keep rfl (fun j => hne) rfl, t, ht, hb⟩
  | @publish k =>
    cases hp
    obtain ⟨hplaced, t, ht, hb⟩ := hh
    refine ⟨hs.of_threads rfl rfl fun j u hu => ?_, ?_⟩
    · simp only [Function.update_apply, ht] at hu
      split at hu
      · next hjk =>
        cases hu
        exact hjk ▸ hb
      · exact hs.named j u hu
    · exact hplaced.publish rfl (fun j => hne) (Function.update_self ..)

/-- Only disciplined calls are made. -/
def Input.Proper : Input κ π ω → Prop
  | .call ops => Disciplined .empty ops
  | _ => True

/-- **Whatever comes next, the invariant stays.** -/
theorem Inv.step (h : Inv B s) (i : Input κ π ω) (hi : i.Proper) : Inv B (Slots.step B s i) := by
  obtain ⟨hand, hd, hh⟩ := h.knows
  cases i with
  | call ops =>
    simp only [Slots.step]
    split
    · next hfree =>
      rw [Option.isNone_iff_eq_none.mp hfree] at hd
      have hplaced := hh.placed hd
      exact ⟨h.of_threads rfl rfl h.named, .empty, hi, hplaced⟩
    · exact h
  | proceed =>
    simp only [Slots.step, proceed]
    split
    · exact h
    · next htodo =>
      rw [htodo] at hd
      have hplaced := hh.placed hd
      exact ⟨h.of_threads rfl rfl h.named, .empty, trivial, hplaced⟩
    · next op rest htodo =>
      rw [htodo] at hd
      obtain ⟨hand', hafter, hrest⟩ := hd
      split
      · exact h
      · next s' hp =>
        obtain ⟨hs', hh'⟩ := h.perform hh hafter hp
        exact ⟨hs'.of_threads rfl rfl hs'.named, hand', hrest, hh'.mono (fun _ _ hb => hb)
          (fun _ _ hl => hl) (fun _ ha => ha) rfl rfl⟩
  | run t o => exact h.run t o

theorem inv_start : Inv B ({} : State κ π δ ε) := by
  have hthreads : ∀ t : Nat, ({} : State κ π δ ε).threads[t]? = none := fun t => List.getElem?_nil
  refine ⟨⟨fun k t ht => (by cases ht), fun t th hth => ?_⟩, .empty, trivial, fun k t ht => ?_⟩
  · rw [hthreads] at hth
    cases hth
  · obtain ⟨th, hth, _⟩ := ht
    rw [hthreads] at hth
    cases hth

/-! ### The log -/

/-- What a thread is apart from the request to stop. -/
def Thread.view (th : Thread κ π δ) : κ × π × δ := (th.key, th.program, th.state)

omit [DecidableEq κ] in
theorem askStop_view (threads : List (Thread κ π δ)) (hand : Option Nat) :
    (askStop threads hand).map Thread.view = threads.map Thread.view := by
  refine List.ext_getElem? fun u => ?_
  rw [List.getElem?_map, List.getElem?_map, askStop_getElem?]
  cases threads[u]? <;> rfl

/-- **What a step does to the threads and the log**: it leaves them as they are, starts a thread,
or lets one take its step. -/
theorem step_cases (B : Behaviour π δ ω ε) (s : State κ π δ ε) (i : Input κ π ω) :
    ((step B s i).log = s.log ∧
      (step B s i).threads.map Thread.view = s.threads.map Thread.view) ∨
    (∃ k p, (step B s i).log = .spawned k s.threads.length p :: s.log ∧
      (step B s i).threads = s.threads ++ [⟨k, p, false, B.start p⟩]) ∨
    ∃ t th o, i = .run t o ∧ s.threads[t]? = some th ∧
      (step B s i).log =
        ((B.advance th.program th.state th.stop o).2.map (Entry.did th.key t)).toList ++ s.log ∧
      (step B s i).threads =
        s.threads.set t { th with state := (B.advance th.program th.state th.stop o).1 } := by
  cases i with
  | call ops =>
    simp only [step]
    split <;> exact .inl ⟨rfl, rfl⟩
  | proceed =>
    simp only [step, proceed]
    split
    · exact .inl ⟨rfl, rfl⟩
    · exact .inl ⟨rfl, rfl⟩
    · next op rest _ =>
      split
      · exact .inl ⟨rfl, rfl⟩
      · next s' hp =>
        cases op with
        | spawn k p =>
          cases hp
          exact .inr (.inl ⟨k, p, rfl, rfl⟩)
        | requestStop =>
          cases hp
          exact .inl ⟨rfl, askStop_view s.threads s.hand⟩
        | join =>
          simp only [perform] at hp
          split at hp
          · cases hp
            exact .inl ⟨rfl, rfl⟩
          · cases hp
        | _ =>
          cases hp
          exact .inl ⟨rfl, rfl⟩
  | run t o =>
    simp only [step]
    rcases runThread_cases B s t o with ⟨_, heq⟩ | ⟨th, hth, heq⟩
    · exact .inl ⟨congrArg State.log heq, congrArg (fun s => s.threads.map Thread.view) heq⟩
    · exact .inr (.inr ⟨t, th, o, rfl, hth, congrArg State.log heq, congrArg State.threads heq⟩)

/-- Only the thread registered last for a key does anything, and what its program does. -/
def Current (B : Behaviour π δ ω ε) (older : List (Entry κ π ε)) (e : Entry κ π ε) : Prop :=
  ∀ k t x, e = .did k t x →
    ∃ p, registered k older = some (t, p) ∧ ∃ d stop o, (B.advance p d stop o).2 = some x

/-- **A thread is silent once the next one of its key is there.** -/
theorem throughout_current (h : Inv B s) (i : Input κ π ω)
    (hlog : Runs.Throughout (Current B) s.log) :
    Runs.Throughout (Current B) (step B s i).log := by
  rcases step_cases B s i with ⟨heq, _⟩ | ⟨k, p, heq, _⟩ | ⟨t, th, o, _, hth, heq, _⟩
  · exact heq ▸ hlog
  · rw [heq]
    refine .cons (fun _ _ _ he => ?_) hlog
    cases he
  · rw [heq]
    cases he : (B.advance th.program th.state th.stop o).2 with
    | none => exact hlog
    | some e =>
      refine .cons (fun _ _ _ hdid => ?_) hlog
      cases hdid
      refine ⟨th.program, h.latest t th hth ?_, _, _, o, he⟩
      by_contra hended
      rw [Bool.not_eq_false] at hended
      rw [B.rests _ _ _ _ hended] at he
      cases he

/-- What a thread does after its last entry: nothing. -/
def Final (last : ε → Bool) (older : List (Entry κ π ε)) (e : Entry κ π ε) : Prop :=
  ∀ k t x, e = .did k t x → ∀ j y, Entry.did j t y ∈ older → last y = false

/-- A thread with a last entry in the log has ended. -/
def Closed (B : Behaviour π δ ω ε) (last : ε → Bool) (s : State κ π δ ε) : Prop :=
  ∀ k t x, Entry.did k t x ∈ s.log → last x = true →
    ∃ th, s.threads[t]? = some th ∧ B.ended th.state = true

theorem closed_step {last : ε → Bool}
    (hlast : ∀ p d stop o e, (B.advance p d stop o).2 = some e → last e = true →
      B.ended (B.advance p d stop o).1 = true)
    (h : Closed B last s) (i : Input κ π ω) : Closed B last (step B s i) := by
  rcases step_cases B s i with ⟨hlog, hview⟩ | ⟨k, p, hlog, heq⟩ | ⟨t, th, o, _, hth, hlog, heq⟩
  · intro k t x hx hl
    rw [hlog] at hx
    obtain ⟨th, hth, hended⟩ := h k t x hx hl
    have hview' : (s.threads.map Thread.view)[t]? = some th.view := by
      rw [List.getElem?_map, hth, Option.map_some]
    rw [← hview, List.getElem?_map] at hview'
    obtain ⟨th', hth', heq⟩ := Option.map_eq_some_iff.mp hview'
    refine ⟨th', hth', ?_⟩
    rw [(Prod.mk.inj (Prod.mk.inj heq).2).2]
    exact hended
  · intro k t x hx hl
    rw [hlog] at hx
    obtain ⟨th, hth, hended⟩ := h k t x ((List.mem_cons.mp hx).resolve_left (by simp)) hl
    refine ⟨th, ?_, hended⟩
    rw [heq, List.getElem?_append_left (List.getElem?_eq_some_iff.mp hth).1, hth]
  · intro k u x hx hl
    rw [hlog] at hx
    have hlt := (List.getElem?_eq_some_iff.mp hth).1
    rw [heq]
    rcases List.mem_append.mp hx with hx | hx
    · obtain ⟨e, he, hdid⟩ := Option.map_eq_some_iff.mp (Option.mem_toList.mp hx)
      cases hdid
      exact ⟨_, List.getElem?_set_self hlt, hlast _ _ _ _ _ he hl⟩
    · obtain ⟨th', hth', hended⟩ := h k u x hx hl
      by_cases htu : t = u
      · subst htu
        rw [hth] at hth'
        cases hth'
        refine ⟨_, List.getElem?_set_self hlt, ?_⟩
        simp only [B.rests _ _ _ _ hended, hended]
      · exact ⟨th', by rw [List.getElem?_set_ne htu, hth'], hended⟩

/-- **After its last entry a thread is silent.** -/
theorem throughout_final {last : ε → Bool} (h : Closed B last s) (i : Input κ π ω)
    (hlog : Runs.Throughout (Final last) s.log) :
    Runs.Throughout (Final last) (step B s i).log := by
  rcases step_cases B s i with ⟨heq, _⟩ | ⟨k, p, heq, _⟩ | ⟨t, th, o, _, hth, heq, _⟩
  · exact heq ▸ hlog
  · rw [heq]
    refine .cons (fun _ _ _ he => ?_) hlog
    cases he
  · rw [heq]
    cases he : (B.advance th.program th.state th.stop o).2 with
    | none => exact hlog
    | some e =>
      refine .cons (fun _ _ _ hdid j y hy => ?_) hlog
      cases hdid
      by_contra hl
      rw [Bool.not_eq_false] at hl
      obtain ⟨th', hth', hended⟩ := h j t y hy hl
      rw [hth] at hth'
      cases hth'
      rw [B.rests _ _ _ _ hended] at he
      cases he

/-- A thread that was asked to stop stays so. -/
theorem asked_step (ht : Asked s t) (B : Behaviour π δ ω ε) (i : Input κ π ω) :
    Asked (step B s i) t := by
  cases i with
  | call ops =>
    simp only [step]
    split <;> exact ht
  | run u o => exact asked_runThread o ht
  | proceed =>
    simp only [step, proceed]
    split
    · exact ht
    · exact ht
    · next op rest _ =>
      split
      · exact ht
      · next s' hp =>
        obtain ⟨th, hth, hstop⟩ := ht
        cases op with
        | spawn k p =>
          cases hp
          refine ⟨th, ?_, hstop⟩
          exact (List.getElem?_append_left (List.getElem?_eq_some_iff.mp hth).1).trans hth
        | requestStop =>
          cases hp
          refine ⟨_, (askStop_getElem? s.threads s.hand t).trans (by rw [hth]; rfl), ?_⟩
          simp [hstop]
        | join =>
          simp only [perform] at hp
          split at hp
          · cases hp
            exact ⟨th, hth, hstop⟩
          · cases hp
        | _ =>
          cases hp
          exact ⟨th, hth, hstop⟩

end
end Lib.Slots
