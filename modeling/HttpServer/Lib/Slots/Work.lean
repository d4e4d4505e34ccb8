import HttpServer.Lib.Slots

/-! Work that is begun and finished.

A thread's entries say when it begins a piece of work and when it has finished it. With one live
thread a key, no two pieces of work of one key are in progress at once (`Working.alone`). -/
namespace Lib.Slots
variable {κ π δ ω ε : Type*} [DecidableEq κ]

/-- The threads that are at work for a key. -/
def inProgress (begins : ε → Bool) (k : κ) : List (Entry κ π ε) → List Nat
  | [] => []
  | .spawned _ _ _ :: older => inProgress begins k older
  | .did j t e :: older =>
    if j = k then
      if begins e then t :: inProgress begins k older else (inProgress begins k older).erase t
    else inProgress begins k older

/-- A thread is busy from an entry that begins to the next that does not. -/
structure Behaviour.Marks (B : Behaviour π δ ω ε) (begins : ε → Bool) (busy : δ → Bool) :
    Prop where
  start : ∀ p, busy (B.start p) = false
  live : ∀ d, busy d = true → B.ended d = false
  moves : ∀ p d stop o,
    match (B.advance p d stop o).2 with
    | none => busy (B.advance p d stop o).1 = busy d
    | some e => busy d = !begins e ∧ busy (B.advance p d stop o).1 = begins e

/-- Thread `t` is one of `k` and busy. -/
def Busy (busy : δ → Bool) (s : State κ π δ ε) (k : κ) (t : Nat) : Prop :=
  ∃ th, s.threads[t]? = some th ∧ th.key = k ∧ busy th.state = true

/-- The log says who is busy. -/
structure Working (begins : ε → Bool) (busy : δ → Bool) (s : State κ π δ ε) : Prop where
  mem_iff : ∀ k t, t ∈ inProgress begins k s.log ↔ Busy busy s k t
  nodup : ∀ k, (inProgress begins k s.log).Nodup

variable {B : Behaviour π δ ω ε} {begins : ε → Bool} {busy : δ → Bool} {s : State κ π δ ε}

theorem working_start : Working begins busy ({} : State κ π δ ε) := by
  refine ⟨fun k t => iff_of_false List.not_mem_nil fun ⟨th, hth, _⟩ => ?_, fun k => List.nodup_nil⟩
  rw [List.getElem?_nil] at hth
  cases hth

omit [DecidableEq κ] in
theorem busy_iff {k : κ} {t : Nat} :
    Busy busy s k t ↔
      ∃ p d, (s.threads.map Thread.view)[t]? = some (k, p, d) ∧ busy d = true := by
  constructor
  · rintro ⟨th, hth, rfl, hbusy⟩
    exact ⟨th.program, th.state, by rw [List.getElem?_map, hth]; rfl, hbusy⟩
  · rintro ⟨p, d, hview, hbusy⟩
    rw [List.getElem?_map] at hview
    obtain ⟨th, hth, heq⟩ := Option.map_eq_some_iff.mp hview
    cases heq
    exact ⟨th, hth, rfl, hbusy⟩

/-- One thread's step, as the log tells it. -/
theorem inProgress_did (k j : κ) (t : Nat) (e : Option ε) (log : List (Entry κ π ε)) :
    inProgress begins k ((e.map (Entry.did j t)).toList ++ log) =
      match e with
      | none => inProgress begins k log
      | some e =>
        if j = k then
          if begins e then t :: inProgress begins k log else (inProgress begins k log).erase t
        else inProgress begins k log := by
  cases e <;> rfl

/-- **The log goes on saying who is busy.** -/
theorem Working.step (hw : Working begins busy s) (hmarks : B.Marks begins busy)
    (i : Input κ π ω) : Working begins busy (Slots.step B s i) := by
  rcases step_cases B s i with ⟨hlog, hview⟩ | ⟨j, p, hlog, heq⟩ | ⟨t, th, o, _, hth, hlog, heq⟩
  · refine ⟨fun k u => ?_, fun k => hlog ▸ hw.nodup k⟩
    rw [hlog, hw.mem_iff, busy_iff, busy_iff, hview]
  · have hin : ∀ k, inProgress begins k (Slots.step B s i).log = inProgress begins k s.log := by
      intro k
      rw [hlog]
      rfl
    refine ⟨fun k u => ?_, fun k => by rw [hin]; exact hw.nodup k⟩
    rw [hin, hw.mem_iff]
    constructor
    · rintro ⟨th, hth, hk, hbusy⟩
      refine ⟨th, ?_, hk, hbusy⟩
      rw [heq, List.getElem?_append_left (List.getElem?_eq_some_iff.mp hth).1, hth]
    · rintro ⟨th, hth, hk, hbusy⟩
      rcases spawn_thread heq hth with hth | ⟨_, rfl⟩
      · exact ⟨th, hth, hk, hbusy⟩
      · rw [hmarks.start] at hbusy
        cases hbusy
  · have hlt := (List.getElem?_eq_some_iff.mp hth).1
    have hother : ∀ k u, u ≠ t → (Busy busy (Slots.step B s i) k u ↔ Busy busy s k u) := by
      intro k u hut
      simp only [Busy, heq, List.getElem?_set_ne hut.symm]
    have hself : ∀ k, Busy busy (Slots.step B s i) k t ↔
        th.key = k ∧ busy (B.advance th.program th.state th.stop o).1 = true := by
      intro k
      simp [Busy, heq, List.getElem?_set_self hlt]
    have hself' : ∀ k, Busy busy s k t ↔ th.key = k ∧ busy th.state = true := by
      intro k
      simp [Busy, hth]
    have hmoves := hmarks.moves th.program th.state th.stop o
    cases he : (B.advance th.program th.state th.stop o).2 with
    | none =>
      rw [he] at hmoves
      refine ⟨fun k u => ?_, fun k => ?_⟩
      · rw [hlog, inProgress_did, he, hw.mem_iff]
        by_cases hut : u = t
        · subst hut
          rw [hself, hself', hmoves]
        · rw [hother k u hut]
      · rw [hlog, inProgress_did, he]
        exact hw.nodup k
    | some e =>
      rw [he] at hmoves
      obtain ⟨hbefore, hafter⟩ := hmoves
      have hnot : begins e = true → ∀ k, t ∉ inProgress begins k s.log := by
        intro hb k hmem
        have hbusy := ((hself' k).mp ((hw.mem_iff k t).mp hmem)).2
        rw [hbefore, hb] at hbusy
        cases hbusy
      refine ⟨fun k u => ?_, fun k => ?_⟩
      · rw [hlog, inProgress_did, he]
        by_cases hk : th.key = k
        · cases hb : begins e with
          | true =>
            simp only [hk, hb, if_true, List.mem_cons, hw.mem_iff]
            by_cases hut : u = t
            · subst hut
              simp [hself, hafter, hb, hk]
            · simp [hother k u hut, hut]
          | false =>
            simp only [hk, hb, if_true, Bool.false_eq_true, if_false]
            rw [List.Nodup.mem_erase_iff (hw.nodup k), hw.mem_iff]
            by_cases hut : u = t
            · subst hut
              simp [hself, hafter, hb]
            · simp [hother k u hut, hut]
        · simp only [hk, if_false, hw.mem_iff]
          by_cases hut : u = t
          · subst hut
            simp [hself, hself', hk]
          · rw [hother k u hut]
      · rw [hlog, inProgress_did, he]
        by_cases hk : th.key = k
        · cases hb : begins e with
          | true =>
            simp only [hk, hb, if_true]
            exact List.nodup_cons.mpr ⟨hnot hb k, hw.nodup k⟩
          | false =>
            simp only [hk, hb, if_true, Bool.false_eq_true, if_false]
            exact (hw.nodup k).erase t
        · simp only [hk, if_false]
          exact hw.nodup k

/-- **No two pieces of work of one key are in progress.** -/
theorem Working.alone (hw : Working begins busy s) (hmarks : B.Marks begins busy) (h : Inv B s)
    (k : κ) : (inProgress begins k s.log).length ≤ 1 := by
  have hlive : ∀ t ∈ inProgress begins k s.log, Live B s k t := by
    intro t ht
    obtain ⟨th, hth, hk, hbusy⟩ := (hw.mem_iff k t).mp ht
    exact ⟨th, hth, hk, hmarks.live _ hbusy⟩
  have hnodup := hw.nodup k
  rcases hin : inProgress begins k s.log with _ | ⟨t, _ | ⟨u, rest⟩⟩
  · exact Nat.zero_le _
  · exact Nat.le_refl _
  · rw [hin] at hlive hnodup
    have htu : t = u := h.exclusive (hlive t (by simp)) (hlive u (by simp))
    rw [htu] at hnodup
    exact absurd (List.mem_cons_self ..) (List.nodup_cons.mp hnodup).1

/-! ### The three together -/

/-- What the slots, the log and the threads keep to in every run of disciplined calls. -/
structure Orderly (B : Behaviour π δ ω ε) (begins : ε → Bool) (busy : δ → Bool)
    (s : State κ π δ ε) : Prop where
  inv : Inv B s
  working : Working begins busy s
  current : Runs.Throughout (Current B) s.log

theorem orderly_start : Orderly B begins busy ({} : State κ π δ ε) :=
  ⟨inv_start, working_start, .nil⟩

theorem Orderly.step (h : Orderly B begins busy s) (hmarks : B.Marks begins busy)
    (i : Input κ π ω) (hi : i.Proper) : Orderly B begins busy (Slots.step B s i) :=
  ⟨h.inv.step i hi, h.working.step hmarks i, throughout_current h.inv i h.current⟩

end Lib.Slots
