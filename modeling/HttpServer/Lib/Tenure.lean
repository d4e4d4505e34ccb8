import Mathlib.Data.Set.Insert
import Mathlib.Tactic.Common

/-! Numbers that are handed out, given back and handed out again.

A history, newest entry first, opens and closes numbers; the tenants are counted
in the order they come. `holder` is who has a number now and `tenant` who had it
last, so a close call is a stray one exactly when the number has no holder.
Without stray calls nobody is closed twice (`closeCalls_le_one`). -/
namespace Lib.Tenure
variable {ε ν : Type*} [DecidableEq ν]

/-- What an entry does to the numbers. -/
inductive Effect (ν : Type*) where
  | opens (n : ν)
  | closes (n : ν)
  | nothing
  deriving DecidableEq

variable (effect : ε → Effect ν)

/-- How many tenants there have been: the next one's number among them. -/
def openings : List ε → Nat
  | [] => 0
  | e :: older =>
    match effect e with
    | .opens _ => openings older + 1
    | _ => openings older

/-- Who has the number. -/
def holder : List ε → ν → Option Nat
  | [], _ => none
  | e :: older, n =>
    match effect e with
    | .opens m => if n = m then some (openings effect older) else holder older n
    | .closes m => if n = m then none else holder older n
    | .nothing => holder older n

/-- Who has the number, or had it last. -/
def tenant : List ε → ν → Option Nat
  | [], _ => none
  | e :: older, n =>
    match effect e with
    | .opens m => if n = m then some (openings effect older) else tenant older n
    | _ => tenant older n

/-- How often a tenant was closed: the close calls on the number while it was its own
or nobody's after it. -/
def closeCalls (c : Nat) : List ε → Nat
  | [] => 0
  | e :: older =>
    match effect e with
    | .closes m => closeCalls c older + if tenant effect older m = some c then 1 else 0
    | _ => closeCalls c older

/-- Every close call is on a number that somebody has. -/
def NoStray : List ε → Prop
  | [] => True
  | e :: older => (∀ m, effect e = .closes m → (holder effect older m).isSome) ∧ NoStray older

variable {effect}

theorem holder_opens {e : ε} {m : ν} (he : effect e = .opens m) (older : List ε) (n : ν) :
    holder effect (e :: older) n =
      if n = m then some (openings effect older) else holder effect older n := by
  simp [holder, he]

theorem holder_closes {e : ε} {m : ν} (he : effect e = .closes m) (older : List ε) (n : ν) :
    holder effect (e :: older) n = if n = m then none else holder effect older n := by
  simp [holder, he]

theorem holder_nothing {e : ε} (he : effect e = .nothing) (older : List ε) (n : ν) :
    holder effect (e :: older) n = holder effect older n := by
  simp [holder, he]

variable (effect) in
/-- The numbers that somebody has. -/
def inUse (log : List ε) : Set ν := {n | (holder effect log n).isSome = true}

theorem notMem_inUse {log : List ε} {n : ν} :
    n ∉ inUse effect log ↔ holder effect log n = none := by
  rw [inUse, Set.mem_ofPred_eq, Option.not_isSome_iff_eq_none]

theorem inUse_nil : inUse effect ([] : List ε) = ∅ :=
  Set.eq_empty_of_forall_notMem fun _ => notMem_inUse.mpr rfl

theorem inUse_opens {e : ε} {m : ν} (he : effect e = .opens m) (older : List ε) :
    inUse effect (e :: older) = insert m (inUse effect older) := by
  ext n
  rw [inUse, Set.mem_ofPred_eq, holder_opens he, Set.mem_insert_iff]
  split
  · next heq => exact iff_of_true rfl (.inl heq)
  · next hne => exact (or_iff_right hne).symm

theorem inUse_closes {e : ε} {m : ν} (he : effect e = .closes m) (older : List ε) :
    inUse effect (e :: older) = inUse effect older \ {m} := by
  ext n
  rw [inUse, Set.mem_ofPred_eq, holder_closes he, Set.mem_sdiff, Set.mem_singleton_iff]
  split
  · next heq => exact iff_of_false Bool.false_ne_true fun h => h.2 heq
  · next hne => exact (and_iff_left hne).symm

theorem inUse_nothing {e : ε} (he : effect e = .nothing) (older : List ε) :
    inUse effect (e :: older) = inUse effect older := by
  ext n
  rw [inUse, Set.mem_ofPred_eq, holder_nothing he]
  rfl

theorem inUse_append {newer : List ε} (hn : ∀ e ∈ newer, effect e = .nothing) (older : List ε) :
    inUse effect (newer ++ older) = inUse effect older := by
  induction newer with
  | nil => rfl
  | cons e newer ih =>
    rw [List.cons_append, inUse_nothing (hn e (List.mem_cons_self ..))]
    exact ih fun e' he' => hn e' (List.mem_cons_of_mem _ he')

/-- Closing is all that takes a number away. -/
theorem holder_of_closes {e : ε} (he : ∀ m, effect e ≠ .opens m) {older : List ε} {n : ν} {c : Nat}
    (h : holder effect (e :: older) n = some c) : holder effect older n = some c := by
  cases hk : effect e with
  | opens m => exact absurd hk (he m)
  | nothing => rwa [holder_nothing hk] at h
  | closes m =>
    rw [holder_closes hk] at h
    split at h
    · cases h
    · exact h

theorem holder_of_append {newer older : List ε} (hn : ∀ e ∈ newer, ∀ m, effect e ≠ .opens m) {n : ν}
    {c : Nat} (h : holder effect (newer ++ older) n = some c) : holder effect older n = some c := by
  induction newer with
  | nil => exact h
  | cons e newer ih =>
    exact ih (fun e' he' => hn e' (List.mem_cons_of_mem _ he'))
      (holder_of_closes (hn e (List.mem_cons_self ..)) h)

omit [DecidableEq ν] in
theorem openings_append {newer older : List ε} (hn : ∀ e ∈ newer, ∀ m, effect e ≠ .opens m) :
    openings effect (newer ++ older) = openings effect older := by
  induction newer with
  | nil => rfl
  | cons e newer ih =>
    have hrest := ih fun e' he' => hn e' (List.mem_cons_of_mem _ he')
    cases hk : effect e with
    | opens m => exact absurd hk (hn e (List.mem_cons_self ..) m)
    | closes m => simpa only [List.cons_append, openings, hk] using hrest
    | nothing => simpa only [List.cons_append, openings, hk] using hrest

theorem tenant_of_holder {log : List ε} {n : ν} {c : Nat} (h : holder effect log n = some c) :
    tenant effect log n = some c := by
  induction log with
  | nil => cases h
  | cons e older ih =>
    cases hk : effect e with
    | opens m =>
      rw [holder_opens hk] at h
      simp only [tenant, hk]
      split
      · next hn => rwa [if_pos hn] at h
      · next hn => exact ih (by rwa [if_neg hn] at h)
    | closes m =>
      simp only [tenant, hk]
      exact ih (holder_of_closes (by simp [hk]) h)
    | nothing =>
      simp only [tenant, hk]
      exact ih (holder_of_closes (by simp [hk]) h)

theorem tenant_lt {log : List ε} {n : ν} {c : Nat} (h : tenant effect log n = some c) :
    c < openings effect log := by
  induction log with
  | nil => cases h
  | cons e older ih =>
    cases hk : effect e with
    | opens m =>
      simp only [tenant, openings, hk] at h ⊢
      split at h
      · cases h
        exact Nat.lt_succ_self _
      · exact Nat.lt_succ_of_lt (ih h)
    | closes m =>
      simp only [tenant, openings, hk] at h ⊢
      exact ih h
    | nothing =>
      simp only [tenant, openings, hk] at h ⊢
      exact ih h

theorem holder_lt {log : List ε} {n : ν} {c : Nat} (h : holder effect log n = some c) :
    c < openings effect log := tenant_lt (tenant_of_holder h)

/-- Nobody has two numbers. -/
theorem holder_inj {log : List ε} {n m : ν} {c : Nat} (hn : holder effect log n = some c)
    (hm : holder effect log m = some c) : n = m := by
  induction log with
  | nil => cases hn
  | cons e older ih =>
    cases hk : effect e with
    | opens k =>
      rw [holder_opens hk] at hn hm
      split at hn
      · next hnk =>
        split at hm
        · next hmk => rw [hnk, hmk]
        · cases hn
          exact absurd (holder_lt hm) (Nat.lt_irrefl _)
      · split at hm
        · cases hm
          exact absurd (holder_lt hn) (Nat.lt_irrefl _)
        · exact ih hn hm
    | closes k =>
      exact ih (holder_of_closes (by simp [hk]) hn) (holder_of_closes (by simp [hk]) hm)
    | nothing =>
      exact ih (holder_of_closes (by simp [hk]) hn) (holder_of_closes (by simp [hk]) hm)

/-- Somebody still to come has not been closed. -/
theorem closeCalls_future {log : List ε} {c : Nat} (h : openings effect log ≤ c) :
    closeCalls effect c log = 0 := by
  induction log with
  | nil => rfl
  | cons e older ih =>
    cases hk : effect e with
    | opens m =>
      simp only [openings, closeCalls, hk] at h ⊢
      exact ih (Nat.le_of_succ_le h)
    | nothing =>
      simp only [openings, closeCalls, hk] at h ⊢
      exact ih h
    | closes m =>
      simp only [openings, closeCalls, hk] at h ⊢
      have hm : tenant effect older m ≠ some c := fun ht => absurd (tenant_lt ht) (Nat.not_lt.mpr h)
      rw [ih h, if_neg hm]

/-- Whoever has a number has not been closed. -/
theorem closeCalls_holder {log : List ε} (hs : NoStray effect log) {c : Nat} :
    closeCalls effect c log = 0 ∨
      closeCalls effect c log = 1 ∧ ∀ n, holder effect log n ≠ some c := by
  induction log with
  | nil => exact .inl rfl
  | cons e older ih =>
    obtain ⟨hopen, hs⟩ := hs
    cases hk : effect e with
    | opens m =>
      by_cases hc : openings effect older ≤ c
      · left
        simpa only [closeCalls, hk] using closeCalls_future hc
      · rcases ih hs with h | ⟨h, hn⟩
        · exact .inl (by simpa only [closeCalls, hk] using h)
        · refine .inr ⟨by simpa only [closeCalls, hk] using h, fun n hold => ?_⟩
          rw [holder_opens hk] at hold
          split at hold
          · cases hold
            exact hc (Nat.le_refl _)
          · exact hn n hold
    | nothing =>
      simp only [closeCalls, hk, holder_nothing hk]
      exact ih hs
    | closes m =>
      obtain ⟨d, hd⟩ := Option.isSome_iff_exists.mp (hopen m hk)
      simp only [closeCalls, hk, tenant_of_holder hd, Option.some_inj]
      by_cases hdc : d = c
      · subst hdc
        rcases ih hs with h | ⟨_, hn⟩
        · refine .inr ⟨by simp [h], fun n hold => ?_⟩
          rw [holder_closes hk] at hold
          split at hold
          · cases hold
          · next hne => exact hne (holder_inj hold hd)
        · exact absurd hd (hn m)
      · simp only [hdc, if_false, Nat.add_zero]
        rcases ih hs with h | ⟨h, hn⟩
        · exact .inl h
        · exact .inr ⟨h, fun n hold => hn n (holder_of_closes (by simp [hk]) hold)⟩

/-- **Without stray close calls nobody is closed twice.** -/
theorem closeCalls_le_one {log : List ε} (hs : NoStray effect log) (c : Nat) :
    closeCalls effect c log ≤ 1 := by
  rcases @closeCalls_holder _ _ _ effect _ hs c with h | ⟨h, _⟩ <;> omega

end Lib.Tenure
