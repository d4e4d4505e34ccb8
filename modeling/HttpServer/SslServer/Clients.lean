import HttpServer.SslServer.Sessions

/-! The map of clients, and what is open.

The map has an entry for every open connection and no other as long as no request closes
the descriptor of a connection that is open, or a `WebSocket` (`clients_exact_iff`): a Close
frame does, and leaves an entry behind that neither the loop nor the next `poll` removes. Where the
map is exact, `stop` frees every session and closes every connection (`stop_releases`). -/
namespace HttpServer.SSLServer
open Lib Lib.Tenure Lib.Runs

/-- The clients are the open connections, and their sessions the ones there are. -/
structure Exact (s : Store) : Prop where
  connections : ∀ fd, (s.clients.lookup fd).isSome = true ↔ (connection s.log fd).isSome = true
  sessions : ∀ p, (session s.log p).isSome = true ↔
    ∃ fd client, s.clients.lookup fd = some client ∧ client.ssl = some p

/-- The clients are exact, and each session was there when it was used. -/
def ExactUsed (s : Store) : Prop := Exact s ∧ Throughout UsesLive s.log

/-- A close call of a request is on the descriptor. -/
def Closes (e : Event) (fd : Int) : Prop :=
  e = .frameClose fd ∨ e = .handlerClose fd ∨ ∃ ssl, e = .wsClose fd ssl

/-- A request closes no connection that is open, and no handler a `WebSocket`. -/
def Kept (older : List Event) (e : Event) : Prop :=
  (∀ fd, Closes e fd → connection older fd = none) ∧ ∀ fd ssl, e ≠ .wsClose fd ssl

/-- The server itself closes only what is open. -/
def ClosesOpen (older : List Event) (e : Event) : Prop :=
  ∀ fd, e = .close fd → (connection older fd).isSome = true

theorem connection_nothing {e : Event} (he : e.fdEffect = .nothing) (log : List Event) (fd : Int) :
    connection (e :: log) fd = connection log fd := holder_nothing he log fd

theorem connection_accept (log : List Event) (fd fd' : Int) :
    connection (.accept fd' :: log) fd =
      if fd = fd' then some (openings Event.fdEffect log) else connection log fd := rfl

theorem connection_close (log : List Event) (fd fd' : Int) :
    connection (.close fd' :: log) fd = if fd = fd' then none else connection log fd := rfl

/-- Every move but a request's close calls leaves the map exact, closes only what is open, and
closes nothing for a request. -/
structure Orderly (s : Store) : Prop where
  sound : Sound s
  exact : Exact s
  kept : Throughout Kept s.log
  closes : Throughout ClosesOpen s.log

theorem Orderly.exactUsed {s : Store} (h : Orderly s) : ExactUsed s := ⟨h.exact, h.sound.uses⟩

/-- An event that closes nothing for a request. -/
theorem kept_of_ne {older : List Event} {e : Event} (he : ∀ fd, e ≠ .frameClose fd ∧
    e ≠ .handlerClose fd ∧ ∀ ssl, e ≠ .wsClose fd ssl) : Kept older e := by
  refine ⟨fun fd hcloses => ?_, fun fd ssl => (he fd).2.2 ssl⟩
  rcases hcloses with heq | heq | ⟨ssl, heq⟩
  · exact absurd heq (he fd).1
  · exact absurd heq (he fd).2.1
  · exact absurd heq ((he fd).2.2 ssl)

/-- Where no handler closes a `WebSocket`, none closes one of the map's. -/
theorem spared_of_kept {log : List Event} (h : Throughout Kept log) : Throughout Spared log :=
  h.mono fun _ _ hkept => spared_of_ne hkept.2

theorem closesOpen_of_ne {older : List Event} {e : Event} (he : ∀ fd, e ≠ .close fd) :
    ClosesOpen older e := fun fd heq => absurd heq (he fd)

/-- An entry's descriptor is open. -/
theorem Exact.isOpen {s : Store} (h : Exact s) {fd : Int} {client : ClientConnection}
    (hclient : s.clients.lookup fd = some client) : (connection s.log fd).isSome = true :=
  (h.connections fd).mp (by rw [hclient]; rfl)

/-- An event on neither descriptors nor sessions. -/
theorem Exact.cons {s : Store} (h : Exact s) {e : Event} (hfd : e.fdEffect = .nothing)
    (hssl : e.sslEffect = .nothing) : Exact ⟨s.clients, e :: s.log⟩ where
  connections fd := by
    rw [connection_nothing hfd]
    exact h.connections fd
  sessions p := by
    rw [session_nothing hssl]
    exact h.sessions p

theorem Exact.accept {s : Store} (h : Exact s) {fd : Int} {ssl : Nat}
    (hfd : connection s.log fd = none) :
    Exact ⟨s.clients.insert fd {fd := fd, ssl := some ssl},
      .sslNew ssl fd :: .accept fd :: s.log⟩ := by
  -- the descriptor was free, so that no entry is written over
  have hfree : s.clients.lookup fd = none := by
    have hnot := h.connections fd
    rw [hfd] at hnot
    simpa using hnot
  refine ⟨fun fd' => ?_, fun p => ?_⟩
  · show _ ↔ (connection (.accept fd :: s.log) fd').isSome = true
    rw [Map.lookup_insert_eq, connection_accept]
    split
    · exact iff_of_true rfl rfl
    · exact h.connections fd'
  · rw [session_sslNew]
    split
    · next heq => exact iff_of_true rfl ⟨fd, _, Finmap.lookup_insert _, congrArg some heq.symm⟩
    · next hne =>
      have hold : session (.accept fd :: s.log) p = session s.log p := rfl
      rw [hold, h.sessions p]
      constructor
      · rintro ⟨fd', client, hclient, hp⟩
        have hfd' : fd' ≠ fd := by
          rintro rfl
          rw [hfree] at hclient
          cases hclient
        exact ⟨fd', client, by rw [Map.lookup_insert_eq, if_neg hfd', hclient], hp⟩
      · rintro ⟨fd', client, hclient, hp⟩
        rw [Map.lookup_insert_eq] at hclient
        split at hclient
        · cases hclient
          exact absurd (Option.some_inj.mp hp).symm hne
        · exact ⟨fd', client, hclient, hp⟩

theorem Exact.refuse {s : Store} (h : Exact s) {fd : Int} (hfd : connection s.log fd = none) :
    Exact ⟨s.clients, .close fd :: .accept fd :: s.log⟩ where
  connections fd' := by
    rw [connection_close, connection_accept, h.connections fd']
    split
    · next heq => rw [heq, hfd]
    · exact Iff.rfl
  sessions := h.sessions

/-- A handshake changes an entry and none of the keys. -/
theorem Exact.complete {s : Store} (h : Exact s) {fd : Int} {client : ClientConnection}
    (hclient : s.clients.lookup fd = some client) :
    Exact ⟨s.clients.insert fd {client with handshakeCompleted := true},
      .sslAccept client.ssl true :: s.log⟩ := by
  refine ⟨fun fd' => ?_, fun p => ?_⟩
  · show _ ↔ (connection s.log fd').isSome = true
    rw [Map.lookup_insert_eq, ← h.connections fd']
    split
    · next heq => rw [heq, hclient]; exact iff_of_true rfl rfl
    · exact Iff.rfl
  · show (session s.log p).isSome = true ↔ _
    rw [h.sessions p]
    constructor
    · rintro ⟨fd', client', hclient', hp⟩
      by_cases heq : fd' = fd
      · subst heq
        rw [hclient] at hclient'
        cases hclient'
        exact ⟨fd', _, Finmap.lookup_insert _, hp⟩
      · exact ⟨fd', client', by rw [Map.lookup_insert_eq, if_neg heq, hclient'], hp⟩
    · rintro ⟨fd', client', hclient', hp⟩
      rw [Map.lookup_insert_eq] at hclient'
      split at hclient'
      · cases hclient'
        exact ⟨fd, client, hclient, hp⟩
      · exact ⟨fd', client', hclient', hp⟩

theorem Exact.release {s : Store} (h : Exact s) (hs : Sound s) {fd : Int}
    {client : ClientConnection} {ssl : Nat} (hclient : s.clients.lookup fd = some client)
    (hentry : Entry s.log fd client ssl) :
    Exact ⟨s.clients.erase fd, .close fd :: .sslFree ssl :: s.log⟩ := by
  refine ⟨fun fd' => ?_, fun p => ?_⟩
  · rw [connection_close]
    by_cases heq : fd' = fd
    · rw [heq, Finmap.lookup_erase, if_pos rfl]
      exact Iff.rfl
    · rw [Finmap.lookup_erase_ne heq, if_neg heq]
      exact h.connections fd'
  · show (session (.sslFree ssl :: s.log) p).isSome = true ↔ _
    rw [session_sslFree]
    split
    · next heq =>
      refine iff_of_false Bool.false_ne_true ?_
      rintro ⟨fd', client', hclient', hp⟩
      by_cases hfd : fd' = fd
      · rw [hfd, Finmap.lookup_erase] at hclient'
        cases hclient'
      · rw [Finmap.lookup_erase_ne hfd] at hclient'
        refine hfd (hs.apart fd' fd client' client hclient' hclient ?_)
        rw [hp, hentry.address, heq]
    · next hne =>
      rw [h.sessions p]
      constructor
      · rintro ⟨fd', client', hclient', hp⟩
        have hfd : fd' ≠ fd := by
          rintro rfl
          rw [hclient] at hclient'
          cases hclient'
          rw [hentry.address] at hp
          exact hne (Option.some_inj.mp hp).symm
        exact ⟨fd', client', by rw [Finmap.lookup_erase_ne hfd, hclient'], hp⟩
      · rintro ⟨fd', client', hclient', hp⟩
        by_cases hfd : fd' = fd
        · rw [hfd, Finmap.lookup_erase] at hclient'
          cases hclient'
        · rw [Finmap.lookup_erase_ne hfd] at hclient'
          exact ⟨fd', client', hclient', hp⟩

/-- What a move preserves. -/
theorem Orderly.move {sockfd : Int} {s t : Store} (hm : Move sockfd s t) (h : Orderly s) :
    Orderly t := by
  have hsound := h.sound.move hm
  have hkept : ∀ {log : List Event} {e : Event}, Throughout Kept log →
      (∀ fd, e ≠ .frameClose fd ∧ e ≠ .handlerClose fd ∧ ∀ ssl, e ≠ .wsClose fd ssl) →
        Throughout Kept (e :: log) :=
    fun hlog he => .cons (kept_of_ne he) hlog
  have hcloses : ∀ {log : List Event} {e : Event}, Throughout ClosesOpen log →
      (∀ fd, e ≠ .close fd) → Throughout ClosesOpen (e :: log) :=
    fun hlog he => .cons (closesOpen_of_ne he) hlog
  cases hm with
  | accept hfd hnonneg hne hssl =>
    exact ⟨hsound, h.exact.accept hfd, hkept (hkept h.kept (by simp)) (by simp),
      hcloses (hcloses h.closes (by simp)) (by simp)⟩
  | refuse hfd =>
    refine ⟨hsound, h.exact.refuse hfd, hkept (hkept h.kept (by simp)) (by simp),
      .cons (fun fd heq => ?_) (hcloses h.closes (by simp))⟩
    cases heq
    rw [connection_accept, if_pos rfl]
    rfl
  | complete hclient =>
    exact ⟨hsound, h.exact.complete hclient, hkept h.kept (by simp), hcloses h.closes (by simp)⟩
  | wait hclient =>
    exact ⟨hsound, h.exact.cons rfl rfl, hkept h.kept (by simp), hcloses h.closes (by simp)⟩
  | read hclient hcompleted =>
    exact ⟨hsound, h.exact.cons rfl rfl, hkept h.kept (by simp), hcloses h.closes (by simp)⟩
  | @receive fd client hclient hcompleted bytes actions =>
    have hread := @Exact.cons s h.exact (.sslRead client.ssl) rfl rfl
    exact ⟨hsound, hread.cons rfl rfl, hkept (hkept h.kept (by simp)) (by simp),
      hcloses (hcloses h.closes (by simp)) (by simp)⟩
  | @release fd client hclient =>
    obtain ⟨ssl, hentry⟩ := h.sound.entry _ _ hclient
    rw [hentry.release] at hsound ⊢
    refine ⟨hsound, h.exact.release h.sound hclient hentry,
      hkept (hkept h.kept (by simp)) (by simp), .cons (fun fd' heq => ?_) ?_⟩
    · cases heq
      exact h.exact.isOpen hclient
    · exact hcloses h.closes (by simp)
  | closeListening =>
    exact ⟨hsound, h.exact.cons rfl rfl, hkept h.kept (by simp), hcloses h.closes (by simp)⟩

/-! ### What a request closes -/

theorem connection_acting {clients : Clients} {newer : List Event}
    (hnewer : ∀ e ∈ newer, Acting clients e) (log : List Event) (fd : Int) :
    connection (newer ++ log) fd = none ↔
      connection log fd = none ∨ ∃ e ∈ newer, Closes e fd := by
  induction newer with
  | nil => simp
  | cons e newer ih =>
    have hrest := ih fun e' he' => hnewer e' (List.mem_cons_of_mem e he')
    have hclosed : ∀ fd', e.fdEffect = .closes fd' → (Closes e fd ↔ fd = fd') →
        (connection (e :: (newer ++ log)) fd = none ↔
          connection log fd = none ∨ ∃ e' ∈ e :: newer, Closes e' fd) := by
      intro fd' heffect hcloses
      rw [connection, holder_closes heffect, List.exists_mem_cons_iff, hcloses]
      split
      · next heq => exact iff_of_true rfl (.inr (.inl heq))
      · next hne =>
        rw [or_iff_right hne]
        exact hrest
    have hopen : e.fdEffect = .nothing → ¬ Closes e fd →
        (connection (e :: (newer ++ log)) fd = none ↔
          connection log fd = none ∨ ∃ e' ∈ e :: newer, Closes e' fd) := by
      intro heffect hcloses
      rw [connection_nothing heffect, hrest, List.exists_mem_cons_iff, or_iff_right hcloses]
    cases hnewer e (List.mem_cons_self ..) with
    | frame fd' => exact hclosed fd' rfl (by simp [Closes, eq_comm])
    | handler fd' => exact hclosed fd' rfl (by simp [Closes, eq_comm])
    | hangUp fd' ssl => exact hclosed fd' rfl (by simp [Closes, eq_comm])
    | write hclient => exact hopen rfl (by simp [Closes])
    | dispatch fd' ssl => exact hopen rfl (by simp [Closes])

/-- Where none of the calls is on an open connection, nothing changes. -/
theorem connection_of_kept {clients : Clients} {newer log : List Event}
    (hnewer : ∀ e ∈ newer, Acting clients e)
    (hnone : ∀ e ∈ newer, ∀ fd, Closes e fd → connection log fd = none) (fd : Int) :
    connection (newer ++ log) fd = none ↔ connection log fd = none := by
  rw [connection_acting hnewer]
  refine ⟨fun h => ?_, .inl⟩
  rcases h with h | ⟨e, he, hcloses⟩
  · exact h
  · exact hnone e he fd hcloses

/-- Where no session is freed, nothing changes. -/
theorem session_acting {clients : Clients} {newer : List Event}
    (hnewer : ∀ e ∈ newer, Acting clients e) (hunclosed : ∀ fd ssl, .wsClose fd ssl ∉ newer)
    (log : List Event) (p : Nat) : session (newer ++ log) p = session log p := by
  induction newer with
  | nil => rfl
  | cons e newer ih =>
    have hrest := ih (fun e' he' => hnewer e' (List.mem_cons_of_mem e he'))
      fun fd ssl hssl => hunclosed fd ssl (List.mem_cons_of_mem e hssl)
    cases hnewer e (List.mem_cons_self ..) with
    | hangUp fd ssl => exact absurd (List.mem_cons_self ..) (hunclosed fd ssl)
    | _ => exact hrest

theorem kept_acting_iff {clients : Clients} {newer log : List Event}
    (hnewer : ∀ e ∈ newer, Acting clients e) (hlog : Throughout Kept log) :
    Throughout Kept (newer ++ log) ↔
      (∀ e ∈ newer, ∀ fd, Closes e fd → connection log fd = none) ∧
        ∀ fd ssl, .wsClose fd ssl ∉ newer := by
  induction newer with
  | nil => simpa using hlog
  | cons e newer ih =>
    have hnewer' : ∀ e' ∈ newer, Acting clients e' := fun e' he' =>
      hnewer e' (List.mem_cons_of_mem e he')
    have hhead : Throughout Kept (newer ++ log) → (Kept (newer ++ log) e ↔
        (∀ fd, Closes e fd → connection log fd = none) ∧ ∀ fd ssl, e ≠ .wsClose fd ssl) := by
      intro hkept
      refine and_congr_left fun _ => forall_congr' fun fd => imp_congr_right fun _ => ?_
      exact connection_of_kept hnewer' ((ih hnewer').mp hkept).1 fd
    rw [List.cons_append, throughout_cons, and_congr_left hhead, ih hnewer',
      List.forall_mem_cons]
    simp only [List.mem_cons, not_or, forall_and, ne_comm]
    tauto

/-- **A request's close calls**: the clients stay exact, and the sessions used are there, just when
none of them is on a connection that is open or on a `WebSocket`. -/
theorem exact_acting_iff {s : Store} (h : Orderly s) {newer : List Event}
    (hnewer : ∀ e ∈ newer, Acting s.clients e) :
    ExactUsed ⟨s.clients, newer ++ s.log⟩ ↔ Throughout Kept (newer ++ s.log) := by
  rw [kept_acting_iff hnewer h.kept]
  constructor
  · rintro ⟨hexact, huses⟩
    refine ⟨fun e he fd hcloses => ?_, fun fd ssl hssl => ?_⟩
    · have hnone : connection (newer ++ s.log) fd = none :=
        (connection_acting hnewer s.log fd).mpr (.inr ⟨e, he, hcloses⟩)
      have hnot := (hexact.connections fd).symm.trans (h.exact.connections fd)
      rw [hnone] at hnot
      simpa using hnot
    · -- the session it freed was there, so that the map had it, and has it still
      have hthere : (session s.log ssl).isSome = true := by
        obtain ⟨before, after, heq⟩ := List.append_of_mem hssl
        have hafter : ∀ e ∈ after, Acting s.clients e := fun e he =>
          hnewer e (heq ▸ List.mem_append_right _ (List.mem_cons_of_mem _ he))
        have huses : Throughout UsesLive (newer ++ s.log) := huses
        rw [heq, List.append_assoc] at huses
        obtain ⟨p, hp, hlive⟩ := (throughout_cons.mp huses.of_append).1 (some ssl) rfl
        cases hp
        obtain ⟨c, hc⟩ := Option.isSome_iff_exists.mp hlive
        have hbefore := holder_of_append (fun e he => acting_opens (hafter e he)) hc
        exact Option.isSome_iff_exists.mpr ⟨c, hbefore⟩
      have hlive := (hexact.sessions ssl).mpr ((h.exact.sessions ssl).mp hthere)
      rw [session_freed hnewer hssl] at hlive
      cases hlive
  · intro hkept
    obtain ⟨hnone, hunclosed⟩ := hkept
    have hrule : Throughout Kept (newer ++ s.log) :=
      (kept_acting_iff hnewer h.kept).mpr ⟨hnone, hunclosed⟩
    refine ⟨⟨fun fd => ?_, fun p => ?_⟩, (h.sound.acts hnewer (spared_of_kept hrule)).uses⟩
    · have hsame := connection_of_kept hnewer hnone fd
      rw [h.exact.connections fd, Option.isSome_iff_ne_none, Option.isSome_iff_ne_none, Ne, Ne,
        hsame]
    · rw [session_acting hnewer hunclosed]
      exact h.exact.sessions p

theorem closesOpen_acting {clients : Clients} {newer log : List Event}
    (hnewer : ∀ e ∈ newer, Acting clients e) (h : Throughout ClosesOpen log) :
    Throughout ClosesOpen (newer ++ log) := by
  refine h.append fun e he before => ?_
  cases hnewer e he <;> exact closesOpen_of_ne (by simp)

/-! ### Runs -/

variable {W : Type}

/-- One step: the clients stay exact just when the log says that a request closed nothing open. -/
theorem exact_step_iff (srv : Server W) {s : State W} (h : Orderly s.store) (i : Input W) :
    (ExactUsed (step srv s i).store ↔ Throughout Kept (step srv s i).log) ∧
      (Throughout Kept (step srv s i).log → Orderly (step srv s i).store) := by
  obtain ⟨u, newer, hmoves, hnewer, heq⟩ := moves_step srv s i
  have hu : Orderly u := hmoves.induction (fun _ _ hm h => h.move hm) h
  have hiff := exact_acting_iff hu hnewer
  have hlog : (step srv s i).log = newer ++ u.log := congrArg Store.log heq
  rw [heq, hlog]
  exact ⟨hiff, fun hkept => ⟨hu.sound.acts hnewer (spared_of_kept hkept), (hiff.mpr hkept).1,
    hkept, closesOpen_acting hnewer hu.closes⟩⟩

theorem orderly_initial (srv : Server W) (wsRoutes : List (WsRoute W)) :
    Orderly (State.initial srv wsRoutes).store := by
  refine ⟨sound_initial srv wsRoutes, ⟨fun fd => ?_, fun p => ?_⟩, .nil, .nil⟩
  · exact iff_of_false Bool.false_ne_true Bool.false_ne_true
  · refine iff_of_false Bool.false_ne_true ?_
    rintro ⟨fd, client, hclient, _⟩
    cases hclient

/-- **The map is what is open, exactly as long as no request closes it**: in every state the clients
are the open connections and their sessions the ones there are, and every session used was there,
just when no Close frame and no handler has closed the descriptor of a connection that was open,
and no handler a `WebSocket`. -/
theorem clients_exact_iff (srv : Server W) (wsRoutes : List (WsRoute W))
    (inputs : List (Input W)) :
    (∀ past rest, inputs = past ++ rest →
      ExactUsed (runLoop srv (State.initial srv wsRoutes) past).store) ↔
      Throughout Kept (runLoop srv (State.initial srv wsRoutes) inputs).log :=
  (keeps_run_iff srv (fun _ h => Orderly.exactUsed h) (fun _ h => h.kept)
    (fun _ i h => exact_step_iff srv h i) (orderly_initial srv wsRoutes) inputs).1

/-! ### Stop -/

theorem lookup_closeClient (s : State W) (fd fd' : Int) :
    (closeClient s fd).sslClients.lookup fd' =
      if fd' = fd then none else s.sslClients.lookup fd' := by
  unfold closeClient
  split
  · next hnone =>
    split
    · next heq => rw [heq, hnone]
    · rfl
  · split
    · next heq => rw [heq, Finmap.lookup_erase]
    · next hne => rw [Finmap.lookup_erase_ne hne]

theorem lookup_closeAll (s : State W) (clients : List Int) (fd : Int) :
    (clients.foldl closeClient s).sslClients.lookup fd =
      if fd ∈ clients then none else s.sslClients.lookup fd := by
  induction clients generalizing s with
  | nil => simp
  | cons fd' clients ih =>
    rw [List.foldl_cons, ih, lookup_closeClient]
    by_cases hin : fd ∈ clients <;> by_cases heq : fd = fd' <;> simp [hin, heq]

theorem lookup_stop (s : State W) (clients : List Int) (fd : Int) :
    (stop s clients).sslClients.lookup fd =
      if fd ∈ clients then none else s.sslClients.lookup fd := by
  have hall := lookup_closeAll {s with running := false} clients fd
  unfold stop
  simp only
  split <;> exact hall

/-- **`stop` releases everything**: where no request closed an open connection, nor a handler a
`WebSocket`, no session and no
connection is left when it has gone through the map, and the server has closed no descriptor
that was not open. -/
theorem stop_releases (srv : Server W) (wsRoutes : List (WsRoute W)) (inputs : List (Input W))
    (hkept : Throughout Kept (runLoop srv (State.initial srv wsRoutes) inputs).log)
    (clients : List Int)
    (hclients : ∀ fd, ((runLoop srv (State.initial srv wsRoutes) inputs).sslClients.lookup
      fd).isSome = true → fd ∈ clients) :
    (∀ p, session (stop (runLoop srv (State.initial srv wsRoutes) inputs) clients).log p = none) ∧
      (∀ fd, connection (stop (runLoop srv (State.initial srv wsRoutes) inputs) clients).log fd =
        none) ∧
      Throughout ClosesOpen
        (stop (runLoop srv (State.initial srv wsRoutes) inputs) clients).log := by
  have hrun := (keeps_run_iff srv (fun _ h => Orderly.exactUsed h) (fun _ h => h.kept)
    (fun _ i h => exact_step_iff srv h i) (orderly_initial srv wsRoutes) inputs).2 hkept
  generalize runLoop srv (State.initial srv wsRoutes) inputs = s at hrun hclients ⊢
  have hstopped : Orderly (stop s clients).store :=
    (moves_stop s clients).induction (fun _ _ hm h => h.move hm) hrun
  have hempty : ∀ fd, (stop s clients).store.clients.lookup fd = none := by
    intro fd
    have hlookup := lookup_stop s clients fd
    by_cases hin : fd ∈ clients
    · rwa [if_pos hin] at hlookup
    · rw [if_neg hin] at hlookup
      by_contra hsome
      refine hin (hclients fd (Option.isSome_iff_ne_none.mpr ?_))
      rwa [← hlookup]
  refine ⟨fun p => ?_, fun fd => ?_, hstopped.closes⟩
  · by_contra hsome
    obtain ⟨fd, client, hclient, _⟩ :=
      (hstopped.exact.sessions p).mp (Option.isSome_iff_ne_none.mpr hsome)
    rw [hempty fd] at hclient
    cases hclient
  · by_contra hsome
    have hin := (hstopped.exact.connections fd).mpr (Option.isSome_iff_ne_none.mpr hsome)
    rw [hempty fd] at hin
    cases hin

/-- A client accepted on descriptor 5. -/
def oneClientInputs : List (Input Unit) :=
  [.turn {Answer.nothing with poll := .ready true []},
    .turn {Answer.nothing with accept := some 5, sslNew := some 100}]

theorem stop_releases_one :
    session (runLoop bareServer (State.initial bareServer []) oneClientInputs).log 100 ≠ none ∧
      connection (stop (runLoop bareServer (State.initial bareServer []) oneClientInputs) [5]).log
        5 = none := by
  have hlog : (runLoop bareServer (State.initial bareServer []) oneClientInputs).log =
      [.sslNew 100 5, .accept 5] := rfl
  have hclients : (runLoop bareServer (State.initial bareServer []) oneClientInputs).sslClients =
      Finmap.insert 5 {fd := 5, ssl := some 100} ∅ := rfl
  refine ⟨by decide +kernel, (stop_releases bareServer [] oneClientInputs ?_ [5] ?_).2.1 5⟩
  · rw [hlog]
    exact .cons (kept_of_ne (by simp)) (.cons (kept_of_ne (by simp)) .nil)
  · intro fd hfd
    rw [hclients] at hfd
    by_contra hne
    rw [List.mem_singleton] at hne
    rw [Finmap.lookup_insert_of_ne _ hne] at hfd
    cases hfd

end HttpServer.SSLServer
