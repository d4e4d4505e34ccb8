import HttpServer.Lib.Slots

/-! The caller comes back.

A thread that heeds the request to stop ends after at most `rank` steps of its own that
count: one in which it waits for something else does not. In a round the caller has a turn and
every thread one that counts, in any order and any number of times; each round brings the
caller nearer to its return (`returns_of_rounds`). -/
namespace Lib.Slots
variable {κ π δ ω ε : Type*} [DecidableEq κ]
variable {B : Behaviour π δ ω ε} {s s' : State κ π δ ε} {k : κ} {t u : Nat}

/-- Asked to stop, a thread goes down in rank with every step that counts, and up with none,
until it has ended. -/
structure Behaviour.Heeds (B : Behaviour π δ ω ε) (counts : ω → Bool) (rank : δ → Nat) :
    Prop where
  zero : ∀ d, rank d = 0 ↔ B.ended d = true
  falls : ∀ p d o, rank (B.advance p d true o).1 ≤ rank d
  counted : ∀ p d o, counts o = true → B.ended d = false → rank (B.advance p d true o).1 < rank d

section
variable (B) (counts : ω → Bool) (rank : δ → Nat) (most : Nat)

/-- How long the thread in hand can go on. -/
def handRank (s : State κ π δ ε) : Nat :=
  match s.hand with
  | none => 0
  | some t =>
    match s.threads[t]? with
    | none => 0
    | some th => rank th.state

/-- The turns a call takes at most. -/
def cost : List (Op κ π) → Nat
  | [] => 1
  | .join :: rest => most + 1 + cost rest
  | _ :: rest => 1 + cost rest

/-- The turns that are left. -/
def distance (s : State κ π δ ε) : Nat :=
  match s.todo with
  | none => 0
  | some (.join :: rest) => handRank rank s + 1 + cost most rest
  | some ops => cost most ops

/-- The caller waits for the thread in its hand. -/
def Waits (s : State κ π δ ε) : Prop :=
  (∃ rest, s.todo = some (.join :: rest)) ∧ s.over B = false

/-- A turn for the caller, and one that counts for every thread there is. -/
def Round (s : State κ π δ ε) (inputs : List (Input κ π ω)) : Prop :=
  .proceed ∈ inputs ∧ ∀ t < s.threads.length, ∃ o, counts o = true ∧ .run t o ∈ inputs

/-- One round after the other. -/
def Rounds (s : State κ π δ ε) : List (List (Input κ π ω)) → Prop
  | [] => True
  | inputs :: rest => Round counts s inputs ∧ Rounds (Runs.run (step B) s inputs) rest

end

variable {counts : ω → Bool} {rank : δ → Nat} {most : Nat}

omit [DecidableEq κ] in
theorem distance_le_cost (hmost : ∀ d, rank d ≤ most) {ops : List (Op κ π)}
    (htodo : s.todo = some ops) : distance rank most s ≤ cost most ops := by
  unfold distance
  rw [htodo]
  split
  · next h => cases h
  · next rest h =>
    cases h
    have hhand : handRank rank s ≤ most := by
      unfold handRank
      split
      · exact Nat.zero_le _
      · split
        · exact Nat.zero_le _
        · exact hmost _
    simp only [cost]
    omega
  · next h =>
    cases h
    exact Nat.le_refl _

omit [DecidableEq κ] in
theorem distance_pos {ops : List (Op κ π)} (htodo : s.todo = some ops) :
    0 < distance rank most s := by
  have hcost : ∀ ops : List (Op κ π), 0 < cost most ops := by
    intro ops
    cases ops with
    | nil => exact Nat.one_pos
    | cons op rest => cases op <;> simp only [cost] <;> omega
  unfold distance
  rw [htodo]
  split
  · next h => cases h
  · exact Nat.lt_of_lt_of_le Nat.one_pos (by omega)
  · next h =>
    cases h
    exact hcost _

/-- Who is waited for was asked to stop, and is there. -/
theorem Inv.asked (h : Inv B s) (hwait : Waits B s) :
    ∃ t th, s.hand = some t ∧ s.threads[t]? = some th ∧ th.stop = true ∧
      B.ended th.state = false := by
  obtain ⟨⟨rest, htodo⟩, hover⟩ := hwait
  obtain ⟨hand, hd, hh⟩ := h.knows
  rw [htodo] at hd
  obtain ⟨hand', hafter, _⟩ := hd
  cases hafter with
  | join =>
    cases hhand : s.hand with
    | none =>
      rw [State.over, hhand] at hover
      cases hover
    | some t =>
      obtain ⟨th, hth, hstop⟩ := (hh.2 t hhand).2 rfl
      refine ⟨t, th, rfl, hth, hstop, ?_⟩
      rw [State.over, hhand, Option.all_some, hth, Option.all_some] at hover
      exact hover

/-- While the caller waits, a thread's turn takes it no further away, and one that counts, of
the thread in hand, brings it nearer. -/
theorem Waits.run (hwait : Waits B s) (h : Inv B s) (hheeds : B.Heeds counts rank) (most t : Nat)
    (o : ω) :
    (s.hand = some t → counts o = true →
      distance rank most (runThread B s t o) < distance rank most s) ∧
    (distance rank most (runThread B s t o) < distance rank most s ∨
      Waits B (runThread B s t o) ∧
        distance rank most (runThread B s t o) ≤ distance rank most s) := by
  obtain ⟨u, th, hhand, hth, hstop, hlive⟩ := h.asked hwait
  obtain ⟨⟨rest, htodo⟩, hover⟩ := hwait
  have hnext := runThread_getElem? (B := B) (t := t) o hth
  have htodo' : (runThread B s t o).todo = some (.join :: rest) := by rw [runThread_todo, htodo]
  have hdist : ∀ s' : State κ π δ ε, s'.todo = some (.join :: rest) →
      distance rank most s' = handRank rank s' + 1 + cost most rest := by
    intro s' h'
    rw [distance, h']
  rw [hdist _ htodo, hdist _ htodo', handRank, handRank, runThread_hand, hhand]
  have hwaits : B.ended (if t = u then (B.advance th.program th.state th.stop o).1
      else th.state) = false → Waits B (runThread B s t o) := by
    intro hlive'
    refine ⟨⟨rest, htodo'⟩, ?_⟩
    rw [State.over, runThread_hand, hhand, Option.all_some, hnext]
    exact hlive'
  simp only [hth, hnext, Option.some_inj]
  by_cases htu : u = t
  · subst htu
    simp only [if_true, hstop] at hwaits ⊢
    have hle := hheeds.falls th.program th.state o
    refine ⟨fun _ hcounts => ?_, ?_⟩
    · have hlt := hheeds.counted th.program th.state o hcounts hlive
      omega
    · cases hended : B.ended (B.advance th.program th.state true o).1 with
      | true =>
        left
        have hzero := (hheeds.zero _).mpr hended
        have hpos : rank th.state ≠ 0 := fun h0 => by
          rw [(hheeds.zero _).mp h0] at hlive
          cases hlive
        omega
      | false => exact .inr ⟨hwaits hended, by omega⟩
  · rw [if_neg (Ne.symm htu)] at hwaits ⊢
    exact ⟨fun heq => absurd heq htu, .inr ⟨hwaits hlive, Nat.le_refl _⟩⟩

omit [DecidableEq κ] in
/-- A thread in hand that has ended has nothing to change. -/
theorem over_runThread (hover : s.over B = true) (rank : δ → Nat) (t : Nat) (o : ω) :
    (runThread B s t o).over B = true ∧
      handRank rank (runThread B s t o) = handRank rank s := by
  rw [State.over] at hover
  rw [State.over, handRank, handRank, runThread_hand]
  cases hhand : s.hand with
  | none => exact ⟨rfl, rfl⟩
  | some u =>
    rw [hhand, Option.all_some] at hover
    simp only [Option.all_some]
    cases hth : s.threads[u]? with
    | none =>
      have hnone : (runThread B s t o).threads[u]? = none := by
        rcases runThread_cases B s t o with ⟨_, heq⟩ | ⟨_, _, heq⟩
        · rw [heq, hth]
        · rw [heq]
          exact List.getElem?_eq_none (by simpa using List.getElem?_eq_none_iff.mp hth)
      rw [hnone]
      exact ⟨rfl, rfl⟩
    | some th =>
      rw [hth, Option.all_some] at hover
      have hrest : (if t = u then (B.advance th.program th.state th.stop o).1 else th.state) =
          th.state := by
        rw [B.rests _ _ _ _ hover, ite_self]
      simp only [runThread_getElem? o hth, hrest, Option.all_some]
      exact ⟨hover, trivial⟩

omit [DecidableEq κ] in
/-- A caller that need not wait need not wait after a thread's turn either. -/
theorem not_waits_run (hwait : ¬ Waits B s) (rank : δ → Nat) (most t : Nat) (o : ω) :
    ¬ Waits B (runThread B s t o) ∧
      distance rank most (runThread B s t o) = distance rank most s := by
  by_cases hjoin : ∃ rest, s.todo = some (.join :: rest)
  · have hover : s.over B = true := by
      rw [← Bool.not_eq_false]
      exact fun hover => hwait ⟨hjoin, hover⟩
    obtain ⟨hover', hrank⟩ := over_runThread hover rank t o
    obtain ⟨rest, htodo⟩ := hjoin
    refine ⟨fun hw => ?_, ?_⟩
    · rw [Waits, hover'] at hw
      cases hw.2
    · rw [distance, distance, runThread_todo, htodo]
      exact congrArg (· + 1 + _) hrank
  · refine ⟨fun hw => hjoin (by rw [← runThread_todo o]; exact hw.1), ?_⟩
    unfold distance
    rw [runThread_todo]
    split
    · rfl
    · next rest htodo => exact absurd ⟨rest, htodo⟩ hjoin
    · rfl

/-- A caller that need not wait comes nearer with its own turn. -/
theorem proceed_nearer (hmost : ∀ d, rank d ≤ most) (hwait : ¬ Waits B s)
    {ops : List (Op κ π)} (htodo : s.todo = some ops) :
    (proceed B s).todo = none ∨ distance rank most (proceed B s) < distance rank most s := by
  cases ops with
  | nil => exact .inl (by rw [proceed, htodo])
  | cons op rest =>
    right
    have hdone : ∃ s', perform B s op = some s' := by
      cases op with
      | join =>
        have hover : s.over B = true := by
          rw [← Bool.not_eq_false]
          exact fun hover => hwait ⟨⟨rest, htodo⟩, hover⟩
        exact ⟨_, if_pos hover⟩
      | _ => exact ⟨_, rfl⟩
    obtain ⟨s', hp⟩ := hdone
    have heq : proceed B s = { s' with todo := some rest } := by simp only [proceed, htodo, hp]
    have hle : distance rank most { s' with todo := some rest } ≤ cost most rest :=
      distance_le_cost hmost rfl
    have hlt : cost most rest < distance rank most s := by
      unfold distance
      rw [htodo]
      cases op <;> simp only [cost] <;> omega
    rw [heq]
    exact Nat.lt_of_le_of_lt hle hlt

/-- The call comes to its end. -/
def Returns (B : Behaviour π δ ω ε) (s : State κ π δ ε) (inputs : List (Input κ π ω)) : Prop :=
  Runs.Reaches (step B) (fun s' => s'.todo = none) s inputs

theorem Returns.now (htodo : s.todo = none) (inputs : List (Input κ π ω)) : Returns B s inputs :=
  @Runs.Reaches.here _ _ (step B) (fun s' => s'.todo = none) s htodo inputs

/-- The call comes to its end, or is still on and nearer to it than `n`. -/
def Nearer (B : Behaviour π δ ω ε) (rank : δ → Nat) (most n : Nat) (s : State κ π δ ε)
    (inputs : List (Input κ π ω)) : Prop :=
  Returns B s inputs ∨
    (Runs.run (step B) s inputs).todo ≠ none ∧
      distance rank most (Runs.run (step B) s inputs) < n

theorem Nearer.later {n : Nat} {i : Input κ π ω} {rest : List (Input κ π ω)}
    (h : Nearer B rank most n (step B s i) rest) : Nearer B rank most n s (i :: rest) :=
  Or.imp_left Or.inr h

theorem Nearer.mono {m n : Nat} {inputs : List (Input κ π ω)} (h : Nearer B rank most m s inputs)
    (hmn : m ≤ n) : Nearer B rank most n s inputs :=
  Or.imp_right (fun ⟨hon, hlt⟩ => ⟨hon, Nat.lt_of_lt_of_le hlt hmn⟩) h

/-- Somebody else's call does not matter to the one that has the lock. -/
theorem step_call {ops : List (Op κ π)} (htodo : s.todo = some ops) (B : Behaviour π δ ω ε)
    (ops' : List (Op κ π)) : step B s (.call ops') = s := by
  simp [step, htodo]

/-- Neither does the caller's own turn while it waits. -/
theorem step_waits (hwait : Waits B s) : step B s .proceed = s := by
  obtain ⟨⟨rest, htodo⟩, hover⟩ := hwait
  simp [step, proceed, htodo, perform, hover]

section
variable (hheeds : B.Heeds counts rank) (hmost : ∀ d, rank d ≤ most)
include hheeds hmost

/-- No turn takes the caller further away. -/
theorem nearer_step (h : Inv B s) {ops : List (Op κ π)} (htodo : s.todo = some ops)
    (i : Input κ π ω) :
    (step B s i).todo = none ∨ distance rank most (step B s i) ≤ distance rank most s := by
  by_cases hwait : Waits B s
  · right
    cases i with
    | call ops' => exact Nat.le_of_eq (by rw [step_call htodo])
    | proceed => exact Nat.le_of_eq (by rw [step_waits hwait])
    | run t o =>
      rcases (hwait.run h hheeds most t o).2 with hlt | ⟨_, hle⟩
      · exact Nat.le_of_lt hlt
      · exact hle
  · cases i with
    | call ops' => exact .inr (Nat.le_of_eq (by rw [step_call htodo]))
    | proceed => exact (proceed_nearer hmost hwait htodo).imp_right Nat.le_of_lt
    | run t o => exact .inr (Nat.le_of_eq (not_waits_run hwait rank most t o).2)

theorem nearer_run (h : Inv B s) {ops : List (Op κ π)} (htodo : s.todo = some ops) {n : Nat}
    (hn : distance rank most s < n) {inputs : List (Input κ π ω)}
    (hproper : ∀ i ∈ inputs, i.Proper) : Nearer B rank most n s inputs := by
  induction inputs generalizing s ops with
  | nil => exact .inr ⟨by simp [Runs.run, htodo], hn⟩
  | cons i rest ih =>
    have hnext := h.step i (hproper i (List.mem_cons_self ..))
    cases htodo' : (step B s i).todo with
    | none => exact .inl (.inr (Returns.now htodo' rest))
    | some ops' =>
      have hle := (nearer_step hheeds hmost h htodo i).resolve_left (by simp [htodo'])
      exact (ih hnext htodo' (Nat.lt_of_le_of_lt hle hn) fun j hj =>
        hproper j (List.mem_cons_of_mem i hj)).later

/-- A turn that brings the caller nearer, followed by any others. -/
theorem nearer_of_step (h : Inv B s) {i : Input κ π ω} {rest : List (Input κ π ω)}
    (hproper : ∀ j ∈ i :: rest, j.Proper) {n : Nat}
    (hstep : (step B s i).todo = none ∨ distance rank most (step B s i) < n) :
    Nearer B rank most n s (i :: rest) := by
  cases htodo : (step B s i).todo with
  | none => exact .inl (.inr (Returns.now htodo rest))
  | some ops =>
    have hlt := hstep.resolve_left (by simp [htodo])
    have hnext := h.step i (hproper i (List.mem_cons_self ..))
    exact (nearer_run hheeds hmost hnext htodo hlt fun j hj =>
      hproper j (List.mem_cons_of_mem i hj)).later

/-- A round that finds the caller not waiting: its own turn counts. -/
theorem round_free (h : Inv B s) {ops : List (Op κ π)} (htodo : s.todo = some ops)
    (hwait : ¬ Waits B s) {inputs : List (Input κ π ω)} (hproper : ∀ i ∈ inputs, i.Proper)
    (hin : .proceed ∈ inputs) : Nearer B rank most (distance rank most s) s inputs := by
  induction inputs generalizing s with
  | nil => cases hin
  | cons i rest ih =>
    have hnext := h.step i (hproper i (List.mem_cons_self ..))
    have hproper' : ∀ j ∈ rest, j.Proper := fun j hj => hproper j (List.mem_cons_of_mem i hj)
    cases i with
    | call ops' =>
      have hin' := (List.mem_cons.mp hin).resolve_left (by simp)
      refine Nearer.later ?_
      rw [step_call htodo]
      exact ih h htodo hwait hproper' hin'
    | proceed => exact nearer_of_step hheeds hmost h hproper (proceed_nearer hmost hwait htodo)
    | run t o =>
      have hin' := (List.mem_cons.mp hin).resolve_left (by simp)
      obtain ⟨hwait', heq⟩ := not_waits_run hwait rank most t o
      have hrest := ih hnext (by simpa [step] using htodo) hwait' hproper' hin'
      rw [← heq]
      exact hrest.later

/-- A round that finds the caller waiting: the turn of the thread in its hand counts. -/
theorem round_waits (h : Inv B s) (hwait : Waits B s) {inputs : List (Input κ π ω)}
    (hproper : ∀ i ∈ inputs, i.Proper)
    (hin : ∀ t, s.hand = some t → ∃ o, counts o = true ∧ .run t o ∈ inputs) :
    Nearer B rank most (distance rank most s) s inputs := by
  obtain ⟨t, hhand⟩ : ∃ t, s.hand = some t := by
    obtain ⟨t, _, hhand, _⟩ := h.asked hwait
    exact ⟨t, hhand⟩
  replace hin := hin t hhand
  induction inputs generalizing s with
  | nil =>
    obtain ⟨o, _, ho⟩ := hin
    cases ho
  | cons i rest ih =>
    have hnext := h.step i (hproper i (List.mem_cons_self ..))
    have hproper' : ∀ j ∈ rest, j.Proper := fun j hj => hproper j (List.mem_cons_of_mem i hj)
    obtain ⟨⟨ops, htodo⟩, hover⟩ := id hwait
    obtain ⟨o, hcounts, ho⟩ := hin
    cases i with
    | call ops' =>
      have ho' := (List.mem_cons.mp ho).resolve_left (by simp)
      refine Nearer.later ?_
      rw [step_call htodo]
      exact ih h hwait hproper' hhand ⟨o, hcounts, ho'⟩
    | proceed =>
      have ho' := (List.mem_cons.mp ho).resolve_left (by simp)
      refine Nearer.later ?_
      rw [step_waits hwait]
      exact ih h hwait hproper' hhand ⟨o, hcounts, ho'⟩
    | run u o' =>
      obtain ⟨hcount, hlt | ⟨hwait', hle⟩⟩ := hwait.run h hheeds most u o'
      · exact nearer_of_step hheeds hmost h hproper (.inr hlt)
      · rcases List.mem_cons.mp ho with heq | ho'
        · cases heq
          exact nearer_of_step hheeds hmost h hproper (.inr (hcount hhand hcounts))
        · refine Nearer.later (Nearer.mono ?_ hle)
          exact ih hnext hwait' hproper' ((runThread_hand o').trans hhand) ⟨o, hcounts, ho'⟩

/-- **A call that has the lock returns**, after as many rounds as it has turns left. -/
theorem returns_of_rounds (h : Inv B s) {rounds : List (List (Input κ π ω))}
    (hproper : ∀ inputs ∈ rounds, ∀ i ∈ inputs, i.Proper) (hrounds : Rounds B counts s rounds)
    (hlong : distance rank most s ≤ rounds.length) : Returns B s rounds.flatten := by
  induction rounds generalizing s with
  | nil =>
    cases htodo : s.todo with
    | none => exact .now htodo _
    | some ops => exact absurd (distance_pos htodo) (Nat.not_lt.mpr hlong)
  | cons inputs rest ih =>
    have hproper' := hproper inputs (List.mem_cons_self ..)
    have hturn : s.todo = none ∨ Nearer B rank most (distance rank most s) s inputs := by
      cases htodo : s.todo with
      | none => exact .inl rfl
      | some ops =>
        right
        by_cases hwait : Waits B s
        · refine round_waits hheeds hmost h hwait hproper' fun t ht => hrounds.1.2 t ?_
          obtain ⟨u, th, hhand, hth, _⟩ := h.asked hwait
          rw [ht] at hhand
          cases hhand
          exact (List.getElem?_eq_some_iff.mp hth).1
        · exact round_free hheeds hmost h htodo hwait hproper' hrounds.1.1
    rcases hturn with htodo | hret | ⟨_, hlt⟩
    · exact .now htodo _
    · exact hret.append rest.flatten
    · have hstep : ∀ (s' : State κ π δ ε) (i : Input κ π ω), Inv B s' → i.Proper →
          Inv B (step B s' i) := fun _ i hs' hi => hs'.step i hi
      have hinv := Runs.invariant_run hstep h (Runs.Along.of_forall hproper')
      have hproper'' : ∀ inputs ∈ rest, ∀ i ∈ inputs, i.Proper :=
        fun inputs hin => hproper inputs (List.mem_cons_of_mem _ hin)
      refine Runs.Reaches.of_run (ih hinv hproper'' hrounds.2 ?_)
      rw [List.length_cons] at hlong
      omega

end

/-! ### The thread that was asked -/

/-- How often thread `t` has a turn that counts. -/
def turns (counts : ω → Bool) (t : Nat) : List (Input κ π ω) → Nat
  | [] => 0
  | .run u o :: rest => turns counts t rest + if u = t ∧ counts o = true then 1 else 0
  | _ :: rest => turns counts t rest

/-- How often thread `t` does something `loud`. -/
def doings (loud : ε → Bool) (t : Nat) : List (Entry κ π ε) → Nat
  | [] => 0
  | .did _ u e :: older => doings loud t older + if u = t ∧ loud e = true then 1 else 0
  | .spawned _ _ _ :: older => doings loud t older

omit [DecidableEq κ] in
theorem doings_append (loud : ε → Bool) (t : Nat) (newer older : List (Entry κ π ε)) :
    doings loud t (newer ++ older) = doings loud t newer + doings loud t older := by
  induction newer with
  | nil => exact (Nat.zero_add _).symm
  | cons e newer ih =>
    cases e with
    | spawned k u p => exact ih
    | did k u x =>
      rw [List.cons_append, doings, doings, ih]
      omega

/-- Only its own turn changes what a thread has come to. -/
theorem step_state (B : Behaviour π δ ω ε) (s : State κ π δ ε) (i : Input κ π ω)
    {th : Thread κ π δ} (hth : s.threads[t]? = some th) :
    ∃ th', (step B s i).threads[t]? = some th' ∧
      th'.state = match i with
        | .run u o => if u = t then (B.advance th.program th.state th.stop o).1 else th.state
        | _ => th.state := by
  cases i with
  | run u o => exact ⟨_, runThread_getElem? o hth, rfl⟩
  | call ops =>
    simp only [step]
    split <;> exact ⟨th, hth, rfl⟩
  | proceed =>
    rcases step_cases B s (.proceed : Input κ π ω) with ⟨_, heq⟩ | ⟨k, p, _, heq⟩ | ⟨_, _, _, h, _⟩
    · have hview : ((step B s .proceed).threads.map Thread.view)[t]? = some th.view := by
        rw [heq, List.getElem?_map, hth, Option.map_some]
      rw [List.getElem?_map] at hview
      obtain ⟨th', hth', hv⟩ := Option.map_eq_some_iff.mp hview
      exact ⟨th', hth', (Prod.mk.inj (Prod.mk.inj hv).2).2⟩
    · refine ⟨th, ?_, rfl⟩
      rw [heq, List.getElem?_append_left (List.getElem?_eq_some_iff.mp hth).1, hth]
    · cases h

/-- A step of a thread that was asked to stop, and any other: what it does is taken off what
it has `left`. -/
theorem doings_step {loud : ε → Bool} {left : δ → Nat}
    (hleft : ∀ p d o, ((B.advance p d true o).2.elim 0 fun e => if loud e = true then 1 else 0) +
      left (B.advance p d true o).1 ≤ left d)
    {th : Thread κ π δ} (hth : s.threads[t]? = some th) (hstop : th.stop = true)
    (i : Input κ π ω) :
    ∃ th' es, (step B s i).threads[t]? = some th' ∧ th'.stop = true ∧
      (step B s i).log = es ++ s.log ∧ doings loud t es + left th'.state ≤ left th.state := by
  obtain ⟨th', hth', hstate⟩ := step_state B s i hth
  have hstop' : th'.stop = true := by
    obtain ⟨th'', hth'', hstop''⟩ := asked_step ⟨th, hth, hstop⟩ B i
    rw [hth'] at hth''
    cases hth''
    exact hstop''
  suffices hlog : ∃ es, (step B s i).log = es ++ s.log ∧
      doings loud t es + left th'.state ≤ left th.state by
    obtain ⟨es, hes, hle⟩ := hlog
    exact ⟨th', es, hth', hstop', hes, hle⟩
  cases i with
  | call ops =>
    refine ⟨[], ?_, by rw [hstate]; exact Nat.le_of_eq (Nat.zero_add _)⟩
    simp only [step]
    split <;> rfl
  | proceed =>
    have hsame : ∀ es : List (Entry κ π ε), doings loud t es = 0 →
        doings loud t es + left th'.state ≤ left th.state := by
      intro es hes
      exact Nat.le_of_eq (by rw [hes, hstate, Nat.zero_add])
    rcases step_cases B s (.proceed : Input κ π ω) with ⟨heq, _⟩ | ⟨k, p, heq, _⟩ | ⟨_, _, _, h, _⟩
    · exact ⟨[], heq, hsame _ rfl⟩
    · exact ⟨[.spawned k s.threads.length p], heq, hsame _ rfl⟩
    · cases h
  | run u o =>
    simp only at hstate
    rcases runThread_cases B s u o with ⟨hnone, heq⟩ | ⟨th₀, hth₀, heq⟩
    · have hut : u ≠ t := by
        rintro rfl
        rw [hth] at hnone
        cases hnone
      refine ⟨[], congrArg State.log heq, ?_⟩
      rw [hstate, if_neg hut]
      exact Nat.le_of_eq (Nat.zero_add _)
    · refine ⟨_, congrArg State.log heq, ?_⟩
      by_cases hut : u = t
      · subst hut
        rw [hth] at hth₀
        cases hth₀
        have hbudget := hleft th.program th.state o
        rw [hstate, if_pos rfl, hstop]
        cases he : (B.advance th.program th.state true o).2 <;> rw [he] at hbudget <;>
          simpa [doings] using hbudget
      · rw [hstate, if_neg hut]
        cases (B.advance th₀.program th₀.state th₀.stop o).2 <;> simp [doings, hut]

/-- **What a thread that was asked to stop can still do**: no more than it had left. -/
theorem doings_run {loud : ε → Bool} {left : δ → Nat}
    (hleft : ∀ p d o, ((B.advance p d true o).2.elim 0 fun e => if loud e = true then 1 else 0) +
      left (B.advance p d true o).1 ≤ left d)
    {th : Thread κ π δ} (hth : s.threads[t]? = some th) (hstop : th.stop = true)
    (inputs : List (Input κ π ω)) :
    ∃ newer, (Runs.run (step B) s inputs).log = newer ++ s.log ∧
      doings loud t newer ≤ left th.state := by
  induction inputs generalizing s th with
  | nil => exact ⟨[], rfl, Nat.zero_le _⟩
  | cons i rest ih =>
    obtain ⟨th', es, hth', hstop', hes, hle⟩ := doings_step hleft hth hstop i
    obtain ⟨newer, hlog, hnewer⟩ := ih hth' hstop'
    refine ⟨newer ++ es, by rw [List.append_assoc, ← hes]; exact hlog, ?_⟩
    rw [doings_append]
    omega

/-- **A thread that was asked to stop ends** when it has had as many turns that count as its
rank. -/
theorem ends_of_turns (hheeds : B.Heeds counts rank) (ht : Asked s t) {inputs : List (Input κ π ω)}
    (hturns : ∀ th, s.threads[t]? = some th → B.ended th.state = false →
      rank th.state ≤ turns counts t inputs) :
    ∃ th, (Runs.run (step B) s inputs).threads[t]? = some th ∧ B.ended th.state = true := by
  induction inputs generalizing s with
  | nil =>
    obtain ⟨th, hth, _⟩ := ht
    refine ⟨th, hth, ?_⟩
    by_contra hlive
    rw [Bool.not_eq_true] at hlive
    have hzero : rank th.state ≤ 0 := hturns th hth hlive
    rw [(hheeds.zero _).mp (Nat.le_zero.mp hzero)] at hlive
    cases hlive
  | cons i rest ih =>
    obtain ⟨th, hth, hstop⟩ := id ht
    obtain ⟨th', hth', hstate⟩ := step_state B s i hth
    refine ih (asked_step ht B i) fun th'' hth'' hlive' => ?_
    rw [hth'] at hth''
    cases hth''
    cases i with
    | run u o =>
      simp only at hstate
      have hlive := B.live_of_next hstate hlive'
      have hle := hturns th hth hlive
      rw [turns] at hle
      by_cases hut : u = t
      · rw [if_pos hut, hstop] at hstate
        rw [hstate]
        have hfalls := hheeds.falls th.program th.state o
        by_cases hcounts : counts o = true
        · rw [if_pos ⟨hut, hcounts⟩] at hle
          have hlt := hheeds.counted th.program th.state o hcounts hlive
          omega
        · rw [if_neg fun h => hcounts h.2] at hle
          omega
      · rw [if_neg hut] at hstate
        rw [if_neg fun h => hut h.1] at hle
        rw [hstate]
        exact hle
    | call ops =>
      rw [hstate] at hlive' ⊢
      exact hturns th hth hlive'
    | proceed =>
      rw [hstate] at hlive' ⊢
      exact hturns th hth hlive'

/-! ### What it leaves behind -/

/-- The call is the one that registers `p` for `k`, or has done so. -/
structure Registering (k : κ) (p : π) (s : State κ π δ ε) : Prop where
  only : ∀ j q, Op.spawn j q ∈ s.todo.getD [] → j = k ∧ q = p
  due : Op.spawn k p ∈ s.todo.getD [] ∨ ∃ t, registered k s.log = some (t, p)

theorem Registering.step {p : π} (h : Registering k p s) (hon : s.todo ≠ none)
    (i : Input κ π ω) : Registering k p (step B s i) := by
  cases i with
  | call ops' =>
    obtain ⟨ops, htodo⟩ := Option.ne_none_iff_exists'.mp hon
    rwa [step_call htodo]
  | run t o =>
    refine ⟨by rw [Slots.step, runThread_todo]; exact h.only, ?_⟩
    rw [Slots.step, runThread_todo]
    rcases h.due with hdue | ⟨u, hu⟩
    · exact .inl hdue
    · refine .inr ⟨u, ?_⟩
      rcases runThread_cases B s t o with ⟨_, heq⟩ | ⟨th, _, heq⟩
      · rw [heq, hu]
      · rw [heq]
        exact (registered_did k _ _ _ _).trans hu
  | proceed =>
    simp only [Slots.step, proceed]
    split
    · exact h
    · next htodo =>
      have hdue := h.due
      rw [htodo] at hdue
      exact ⟨fun _ _ hop => absurd hop List.not_mem_nil,
        .inr (hdue.resolve_left List.not_mem_nil)⟩
    · next op rest htodo =>
      have honly := h.only
      have hdue := h.due
      rw [htodo] at honly hdue
      have honly' : ∀ j q, Op.spawn j q ∈ rest → j = k ∧ q = p :=
        fun j q hop => honly j q (List.mem_cons_of_mem op hop)
      split
      · exact h
      · next s' hp =>
        by_cases hspawn : ∃ j q, op = .spawn j q
        · obtain ⟨j, q, rfl⟩ := hspawn
          obtain ⟨rfl, rfl⟩ := honly j q (List.mem_cons_self ..)
          cases hp
          exact ⟨honly', .inr ⟨s.threads.length, if_pos rfl⟩⟩
        · have hlog : s'.log = s.log := by
            cases op with
            | spawn j q => exact absurd ⟨j, q, rfl⟩ hspawn
            | join =>
              simp only [perform] at hp
              split at hp
              · cases hp
                rfl
              · cases hp
            | _ =>
              cases hp
              rfl
          refine ⟨honly', hdue.imp (fun hop => ?_) fun hreg => by rwa [hlog]⟩
          exact (List.mem_cons.mp hop).resolve_left fun heq => hspawn ⟨k, p, heq.symm⟩

/-- **A call that comes to its end has registered what it was called with.** -/
theorem Returns.registered {p : π} {inputs : List (Input κ π ω)} (h : Returns B s inputs)
    (hreg : Registering k p s) :
    Runs.Reaches (step B)
      (fun s' => s'.todo = none ∧ ∃ t, registered k s'.log = some (t, p)) s inputs := by
  have hstep : ∀ (s' : State κ π δ ε) (i : Input κ π ω), ¬ s'.todo = none → Registering k p s' →
      Registering k p (Slots.step B s' i) := fun s' i hon hr => hr.step hon i
  refine (Runs.Reaches.first hstep hreg h).mono fun s' ⟨htodo, hr⟩ => ⟨htodo, ?_⟩
  have hdue := hr.due
  rw [htodo] at hdue
  exact hdue.resolve_left List.not_mem_nil

/-- **A call that gets the lock returns within as many rounds as it costs**, and has registered
what it was called with. The inputs may have other names. -/
theorem call_returns {ι : Type*} {f : ι → Input κ π ω} (hproper : ∀ i, (f i).Proper)
    (hheeds : B.Heeds counts rank) (hmost : ∀ d, rank d ≤ most) (h : Inv B s) (hfree : s.todo = none)
    {ops : List (Op κ π)} (hops : Disciplined .empty ops) {p : π}
    (honly : ∀ j q, Op.spawn j q ∈ ops → j = k ∧ q = p) (hdue : Op.spawn k p ∈ ops)
    {rounds : List (List ι)}
    (hrounds : Rounds B counts (step B s (.call ops)) (rounds.map fun inputs => inputs.map f))
    (hlong : cost most ops ≤ rounds.length) :
    Runs.Reaches (fun s i => step B s (f i))
      (fun s' => s'.todo = none ∧ ∃ t, registered k s'.log = some (t, p))
      (step B s (.call ops)) rounds.flatten := by
  have htodo : (step B s (.call ops)).todo = some ops := by simp [step, hfree]
  have hproper' : ∀ inputs ∈ rounds.map fun inputs => inputs.map f, ∀ i ∈ inputs, i.Proper := by
    intro inputs hin i hi
    obtain ⟨_, _, rfl⟩ := List.mem_map.mp hin
    obtain ⟨i', _, rfl⟩ := List.mem_map.mp hi
    exact hproper i'
  have hinv : Inv B (step B s (.call ops)) := h.step (.call ops) hops
  have hdist : distance rank most (step B s (.call ops)) ≤ cost most ops :=
    distance_le_cost hmost htodo
  have hreturns := returns_of_rounds hheeds hmost hinv hproper' hrounds (by
    rw [List.length_map]
    exact Nat.le_trans hdist hlong)
  rw [← List.map_flatten] at hreturns
  refine (Runs.reaches_map f rounds.flatten).mp (hreturns.registered ⟨?_, .inl ?_⟩) <;>
    rw [htodo]
  · exact honly
  · exact hdue

end Lib.Slots
