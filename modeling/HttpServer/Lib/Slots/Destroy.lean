import HttpServer.Lib.Slots

/-! The end of the slots: every thread is stopped and joined, one slot after the other. -/
namespace Lib.Slots
variable {κ π δ ω ε : Type*}

/-- Stops and joins the threads in these slots. -/
def destroy (keys : List κ) : List (Op κ π) :=
  keys.flatMap fun k => [.unlink k, .requestStop, .join]

theorem disciplined_destroy (keys : List κ) {h : Hand κ} (hfree : h.free) :
    Disciplined h (destroy keys : List (Op κ π)) := by
  induction keys generalizing h with
  | nil => exact hfree
  | cons k keys ih =>
    exact ⟨_, .unlink hfree, _, .requestStop, _, .join, @ih (.cleared k) trivial⟩

/-- The caller only takes threads out, and is still to come to every slot with one. -/
structure Emptying (s : State κ π δ ε) : Prop where
  only : ∀ op ∈ s.todo.getD [], (∃ k, op = .unlink k) ∨ op = .requestStop ∨ op = .join
  covers : ∀ k t, s.slots k = some t → .unlink k ∈ s.todo.getD []

variable [DecidableEq κ] {B : Behaviour π δ ω ε} {s : State κ π δ ε}

theorem emptying_call (hfree : s.todo = none) {keys : List κ}
    (hkeys : ∀ k t, s.slots k = some t → k ∈ keys) :
    Emptying (step B s (.call (destroy keys))) := by
  rw [step, hfree, if_pos Option.isNone_none]
  refine ⟨fun op hop => ?_, fun k t ht => ?_⟩
  · obtain ⟨k, _, hk⟩ := List.mem_flatMap.mp hop
    simp only [List.mem_cons, List.not_mem_nil, or_false] at hk
    rcases hk with rfl | rfl | rfl
    · exact .inl ⟨k, rfl⟩
    · exact .inr (.inl rfl)
    · exact .inr (.inr rfl)
  · exact List.mem_flatMap.mpr ⟨k, hkeys k t ht, List.mem_cons_self ..⟩

/-- With the lock taken or nobody else about, the caller goes on emptying. -/
theorem Emptying.step (h : Emptying s) {i : Input κ π ω} (hi : ∀ ops, i ≠ .call ops) :
    Emptying (Slots.step B s i) := by
  cases i with
  | call ops => exact absurd rfl (hi ops)
  | run t o =>
    simp only [Slots.step]
    exact ⟨by rw [runThread_todo]; exact h.only, by
      rw [runThread_todo, runThread_slots]; exact h.covers⟩
  | proceed =>
    simp only [Slots.step, proceed]
    split
    · exact h
    · next htodo =>
      refine ⟨fun _ hop => absurd hop List.not_mem_nil, fun k t ht => ?_⟩
      have hin := h.covers k t ht
      rw [htodo] at hin
      exact absurd hin List.not_mem_nil
    · next op rest htodo =>
      have honly : ∀ op' ∈ rest, _ := fun op' hop => h.only op' (by
        rw [htodo]; exact List.mem_cons_of_mem op hop)
      have hcovers : ∀ k t, s.slots k = some t → .unlink k ∈ op :: rest := by
        intro k t ht
        have hin := h.covers k t ht
        rwa [htodo] at hin
      have hop : (∃ k, op = .unlink k) ∨ op = .requestStop ∨ op = .join :=
        h.only op (by rw [htodo]; exact List.mem_cons_self ..)
      split
      · exact h
      · next s' hp =>
        rcases hop with ⟨j, rfl⟩ | rfl | rfl
        · cases hp
          refine ⟨honly, fun k t ht => ?_⟩
          simp only [Function.update_apply] at ht
          split at ht
          · cases ht
          · next hne =>
            refine (List.mem_cons.mp (hcovers k t ht)).resolve_left fun heq => hne ?_
            cases heq
            rfl
        · cases hp
          exact ⟨honly, fun k t ht => (List.mem_cons.mp (hcovers k t ht)).resolve_left (by simp)⟩
        · simp only [perform] at hp
          split at hp
          · cases hp
            exact ⟨honly, fun k t ht => (List.mem_cons.mp (hcovers k t ht)).resolve_left (by simp)⟩
          · cases hp

/-- **When the slots are gone, no thread is left.** -/
theorem Emptying.gone (h : Emptying s) (hinv : Inv B s) (hfree : s.todo = none) (k : κ) (t : Nat) :
    ¬ Live B s k t := by
  intro hlive
  obtain ⟨hand, hd, hh⟩ := hinv.knows
  rw [hfree] at hd
  have hslot := hh.placed hd k t hlive
  have hin := h.covers k t hslot
  rw [hfree] at hin
  exact absurd hin List.not_mem_nil

end Lib.Slots
