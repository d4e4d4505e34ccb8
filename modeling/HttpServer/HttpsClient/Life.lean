import HttpServer.HttpsClient.Request

/-! A TLS client from its constructor to its destructor.

What is left over between two requests depends on how the last one ended that had a socket
(`Left`); what comes of it depends on how the next one ends. -/
namespace HttpServer.HttpsClient
open Lib Lib.Tenure Lib.Runs Client

/-- A client, and how its requests ended that had a socket, newest first. -/
structure Life where
  client : HttpsClient
  outcomes : List Outcome := []

def recorded (s : HttpsClient) : Input → List Outcome
  | .request _ _ a => if s.outcome a = .noSocket then [] else [s.outcome a]
  | .setCert _ => []

def Life.step (l : Life) (i : Input) : Life :=
  {client := l.client.step i, outcomes := recorded l.client i ++ l.outcomes}

/-- The life of a client so far. -/
def life (base : BaseClient) (inputs : List Input) : Life :=
  run Life.step {client := {base := base}} inputs

/-- No handshake fails, and the address that a failed `SSL_write` leaves in `ssl_` is overwritten
by the next request. -/
def Careful (older : List Outcome) (o : Outcome) : Prop :=
  o ≠ .handshakeFailed ∧ (o = .refused → older.head? ≠ some .writeFailed)

/-- The session that a failed `SSL_read` leaves in `ssl_` is freed by the next request. -/
def Frees (older : List Outcome) (o : Outcome) : Prop :=
  older.head? = some .readFailed → o = .refused

/-- What stands in `ssl_`, by the way the last request ended. -/
inductive Left (s : HttpsClient) : Option Outcome → Prop
  | nothing {o : Option Outcome} (hssl : s.ssl = none) (hwrite : o ≠ some .writeFailed)
    (hread : o ≠ some .readFailed) : Left s o
  | freed {ssl : Nat} (hssl : s.ssl = some ssl) (hgone : ssl ∉ sessions s.log) :
    Left s (some .writeFailed)
  | live {ssl : Nat} (hssl : s.ssl = some ssl) (hlive : ssl ∈ sessions s.log) :
    Left s (some .readFailed)

theorem Left.setCert {s : HttpsClient} {o : Option Outcome} (h : Left s o) (certFile : Bytes) :
    Left (s.setCert certFile) o := by
  cases h with
  | nothing hssl hwrite hread => exact .nothing hssl hwrite hread
  | freed hssl hgone => exact .freed hssl hgone
  | live hssl hlive => exact .live hssl hlive

/-- What careful requests have come to. -/
structure Held (l : Life) : Prop where
  left : Left l.client l.outcomes.head?
  fds : descriptors l.client.log = ∅ ↔ .readFailed ∉ l.outcomes
  live : (∀ p ∈ sessions l.client.log, l.client.ssl = some p) ↔ Throughout Frees l.outcomes

structure Books (l : Life) : Prop where
  safe : Throughout Entitled l.client.log ↔ Throughout Careful l.outcomes
  held : Throughout Careful l.outcomes → Held l

theorem books_start (base : BaseClient) : Books {client := {base := base}} where
  safe := iff_of_true .nil .nil
  held _ :=
    { left := .nothing rfl (by simp) (by simp)
      fds := iff_of_true inUse_nil List.not_mem_nil
      live := iff_of_true (fun p hp => by
        have hnil : sessions [] = ∅ := inUse_nil
        rw [show ({base := base} : HttpsClient).log = [] from rfl, hnil] at hp
        exact absurd hp (Set.notMem_empty p)) .nil }

/-- Nothing is there but what stands in `ssl_`, and that is not there either. -/
theorem Left.sessions_eq_empty {s : HttpsClient} {o : Option Outcome} (h : Left s o) :
    sessions s.log = ∅ ↔ o ≠ some .readFailed ∧ ∀ p ∈ sessions s.log, s.ssl = some p := by
  rw [Set.eq_empty_iff_forall_notMem]
  cases h with
  | nothing hssl _ hread =>
    rw [hssl]
    exact ⟨fun hnone => ⟨hread, fun p hp => absurd hp (hnone p)⟩,
      fun hall p hp => Option.some_ne_none p (hall.2 p hp).symm⟩
  | @freed ssl hssl hgone =>
    rw [hssl]
    refine ⟨fun hnone => ⟨by simp, fun p hp => absurd hp (hnone p)⟩, fun hall p hp => ?_⟩
    rw [← Option.some.inj (hall.2 p hp)] at hp
    exact hgone hp
  | live hssl hlive =>
    exact ⟨fun hnone => absurd hlive (hnone _), fun hall => absurd rfl hall.1⟩

/-- What stands in `ssl_` is there, unless the last `SSL_write` failed. -/
theorem Left.there_iff {s : HttpsClient} {o : Option Outcome} (h : Left s o) :
    (∀ p, s.ssl = some p → p ∈ sessions s.log) ↔ o ≠ some .writeFailed := by
  cases h with
  | nothing hssl hwrite _ =>
    refine iff_of_true (fun p hp => ?_) hwrite
    rw [hssl] at hp
    cases hp
  | freed hssl hgone => exact iff_of_false (fun h => hgone (h _ hssl)) fun h => h rfl
  | live hssl hlive =>
    refine iff_of_true (fun p hp => ?_) (by simp)
    rw [hssl] at hp
    rwa [← Option.some.inj hp]

/-- One more request in the books, by what it changes. -/
theorem Books.next {l : Life} (h : Books l) {s : HttpsClient} {o : Outcome} {fds : Set Int}
    {live : Set Nat} {ssl : Option Nat} {safe : Prop}
    (hchanges : Changes l.client s fds live ssl safe) (hshaken : o ≠ .handshakeFailed)
    (hsafe : Held l → (safe ↔ (o = .refused → l.outcomes.head? ≠ some .writeFailed)))
    (hleft : Left s (some o))
    (hfds : fds = ∅ ↔ o ≠ .readFailed ∧ descriptors l.client.log = ∅)
    (hlive : Held l → ((∀ p ∈ live, ssl = some p) ↔
      Frees l.outcomes o ∧ ∀ p ∈ sessions l.client.log, l.client.ssl = some p)) :
    Books {client := s, outcomes := o :: l.outcomes} where
  safe := by
    rw [throughout_cons, hchanges.safe, h.safe]
    refine and_congr_left fun hcareful => ?_
    rw [hsafe (h.held hcareful), Careful, and_iff_right hshaken]
  held hcareful := by
    have hheld := h.held (throughout_cons.mp hcareful).2
    refine ⟨hleft, ?_, ?_⟩
    · rw [hchanges.fds, hfds, hheld.fds, List.mem_cons, not_or, ne_comm]
    · rw [hchanges.live, hchanges.ssl, hlive hheld, hheld.live, throughout_cons]

/-- A request that frees nothing of what an earlier one has left. -/
theorem frees_iff {l : Life} (h : Held l) {o : Outcome} (ho : o ≠ .refused) :
    sessions l.client.log = ∅ ↔
      Frees l.outcomes o ∧ ∀ p ∈ sessions l.client.log, l.client.ssl = some p := by
  rw [h.left.sessions_eq_empty]
  exact and_congr_left' ⟨fun hread hlast => absurd hlast hread, fun hfrees hlast =>
    ho (hfrees hlast)⟩

/-- What a request that had a socket does to the books. -/
theorem Books.request {l : Life} (h : Books l) {s : HttpsClient} {o : Outcome}
    (ho : o ≠ .noSocket) (hends : Ends l.client s o) :
    Books {client := s, outcomes := o :: l.outcomes} := by
  have hnothing : ∀ p : Nat, ¬ (none : Option Nat) = some p := fun p hp => by cases hp
  cases hends with
  | noSocket => exact absurd rfl ho
  | handshakeFailed hbad =>
    refine ⟨iff_of_false hbad fun hcareful => ?_, fun hcareful => ?_⟩
    · exact (throughout_cons.mp hcareful).1.1 rfl
    · exact absurd rfl (throughout_cons.mp hcareful).1.1
  | refused hchanges =>
    refine h.next hchanges (by simp) (fun hheld => ?_) (.nothing hchanges.ssl (by simp) (by simp))
      (by simp) fun _ => ?_
    · rw [hheld.left.there_iff]
      exact ⟨fun hwrite _ => hwrite, fun hwrite => hwrite rfl⟩
    · rw [and_iff_right (show Frees l.outcomes .refused from fun _ => rfl)]
      refine forall_congr' fun p => ?_
      rw [Set.mem_sdiff, Set.mem_ofPred_eq, imp_iff_not (hnothing p), not_and_not_right]
  | noSession hchanges =>
    refine h.next hchanges (by simp) (fun _ => by simp) (.nothing hchanges.ssl (by simp) (by simp))
      (by simp) fun hheld => ?_
    rw [← frees_iff hheld (by simp), Set.eq_empty_iff_forall_notMem]
    exact forall_congr' fun p => imp_iff_not (hnothing p)
  | done hchanges =>
    refine h.next hchanges (by simp) (fun _ => by simp) (.nothing hchanges.ssl (by simp) (by simp))
      (by simp) fun hheld => ?_
    rw [← frees_iff hheld (by simp), Set.eq_empty_iff_forall_notMem]
    exact forall_congr' fun p => imp_iff_not (hnothing p)
  | @writeFailed ssl hfresh hchanges =>
    refine h.next hchanges (by simp) (fun _ => by simp)
      (.freed hchanges.ssl (hchanges.live.symm ▸ hfresh)) (by simp) fun hheld => ?_
    rw [← frees_iff hheld (by simp), Set.eq_empty_iff_forall_notMem]
    refine forall_congr' fun p => ⟨fun hall hp => ?_, fun hnone hp => absurd hp hnone⟩
    rw [← Option.some.inj (hall hp)] at hp
    exact hfresh hp
  | @readFailed ssl sock hfresh hchanges =>
    refine h.next hchanges (by simp) (fun _ => by simp)
      (.live hchanges.ssl (hchanges.live.symm ▸ Set.mem_insert ..))
      (iff_of_false (Set.insert_nonempty sock _).ne_empty (by simp)) fun hheld => ?_
    rw [← frees_iff hheld (by simp), Set.eq_empty_iff_forall_notMem]
    refine ⟨fun hall p hp => ?_, fun hnone p hp => ?_⟩
    · rw [← Option.some.inj (hall p (Set.mem_insert_of_mem ssl hp))] at hp
      exact hfresh hp
    · rcases Set.mem_insert_iff.mp hp with rfl | hp
      · rfl
      · exact absurd hp (hnone p)

theorem books_step {l : Life} (h : Books l) (i : Input) : Books (l.step i) := by
  cases i with
  | setCert certFile => exact ⟨h.safe, fun hcareful => ⟨(h.held hcareful).left.setCert certFile,
      (h.held hcareful).fds, (h.held hcareful).live⟩⟩
  | request method path a =>
    have hends := request_ends l.client a method path
    by_cases hsocket : l.client.outcome a = .noSocket
    · rw [hsocket] at hends
      cases hends with
      | noSocket hsame =>
        have hstay : l.step (.request method path a) = l := by
          rw [Life.step, recorded, if_pos hsocket]
          exact congrArg (fun client => ({client := client, outcomes := l.outcomes} : Life)) hsame
        rwa [hstay]
    · rw [Life.step, recorded, if_neg hsocket]
      exact h.request hsocket hends

theorem books_life (base : BaseClient) (inputs : List Input) : Books (life base inputs) := by
  have hstep : ∀ l i, Books l → Books (Life.step l i) := fun l i h => books_step h i
  exact invariant_always hstep (books_start base) inputs

/-- The destructor frees what stands in `ssl_`. -/
theorem destruct_changes (s : HttpsClient) :
    Changes s s.destruct (descriptors s.log) (sessions s.log \ {p | s.ssl = some p}) none
      (∀ p, s.ssl = some p → p ∈ sessions s.log) := by
  have hctx : ∀ {t : HttpsClient} {F L x P}, Changes s t F L x P →
      Changes s (if t.sslCtx then {t.note .ctxFree with sslCtx := false} else t) F L x P := by
    intro t F L x P h
    split
    · exact ⟨(descriptors_other rfl t.log).trans h.fds, (sessions_other rfl t.log).trans h.live,
        h.ssl, throughout_cons.trans ((and_iff_right (entitled_free rfl rfl)).trans h.safe)⟩
    · exact h
  unfold destruct
  cases hssl : s.ssl with
  | none =>
    refine hctx ⟨rfl, ?_, hssl, ?_⟩
    · simp
    · refine (and_iff_right fun p hp => ?_).symm
      cases hp
  | some ssl =>
    have hshut : sessions (s.note (.sslShutdown ssl)).log = sessions s.log :=
      sessions_other rfl s.log
    refine hctx ⟨?_, ?_, rfl, ?_⟩
    · exact (descriptors_other rfl _).trans (descriptors_other rfl s.log)
    · refine (sessions_sslFree _ ssl).trans ?_
      rw [hshut]
      congr 1
      ext p
      rw [Set.mem_singleton_iff, Set.mem_ofPred_eq, Option.some_inj, eq_comm]
    · have hfree : Entitled (s.note (.sslShutdown ssl)).log (.sslFree ssl) ↔
          ssl ∈ sessions s.log := entitled_sslFree.trans (by rw [hshut])
      have hshutdown : Entitled s.log (.sslShutdown ssl) ↔ ssl ∈ sessions s.log :=
        ⟨fun h => h.2 ssl rfl, fun h => entitled_ssl h rfl rfl⟩
      refine throughout_cons.trans ((and_congr hfree throughout_cons).trans ?_)
      rw [hshutdown, ← and_assoc, and_self_iff]
      refine and_congr_left' ⟨fun h p hp => ?_, fun h => h ssl rfl⟩
      rwa [← Option.some.inj hp]

/-- **What a TLS client comes to**, from its constructor to its destructor. Every call is made on
what is there, exactly if no handshake fails and each failed `SSL_write` is followed by a request
that gets as far as `SSL_new`. If so, all sockets are closed in the end just when no reading
failed, and all sessions freed just when each request after a failed reading is turned down
before `SSL_new`. -/
theorem destruct_iff (base : BaseClient) (inputs : List Input) :
    (Throughout Entitled (life base inputs).client.destruct.log ↔
      Throughout Careful (life base inputs).outcomes ∧
        (life base inputs).outcomes.head? ≠ some .writeFailed) ∧
    (Throughout Entitled (life base inputs).client.destruct.log →
      (descriptors (life base inputs).client.destruct.log = ∅ ↔
        .readFailed ∉ (life base inputs).outcomes) ∧
      (sessions (life base inputs).client.destruct.log = ∅ ↔
        Throughout Frees (life base inputs).outcomes)) := by
  have hbooks := books_life base inputs
  generalize life base inputs = l at hbooks
  have hdestruct := destruct_changes l.client
  have hsafe : Throughout Entitled l.client.destruct.log ↔
      Throughout Careful l.outcomes ∧ l.outcomes.head? ≠ some .writeFailed := by
    rw [hdestruct.safe, hbooks.safe, and_comm]
    exact and_congr_right fun hcareful => (hbooks.held hcareful).left.there_iff
  refine ⟨hsafe, fun hentitled => ?_⟩
  have hheld := hbooks.held (hsafe.mp hentitled).1
  refine ⟨?_, ?_⟩
  · rw [hdestruct.fds, hheld.fds]
  · rw [hdestruct.live, ← hheld.live, Set.sdiff_eq_empty]
    rfl

end HttpServer.HttpsClient
