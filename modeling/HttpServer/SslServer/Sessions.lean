import HttpServer.SslServer.Step

/-! Sessions over whole runs.

A handler that closes a `WebSocket` frees a session that the map still has, or one that is gone,
or one that has got its address. As long as none does, each session is freed once at most and used
only while it is there, and a request is handled only after the handshake of its own session
(`sessions_live_iff`). -/
namespace HttpServer.SSLServer
open Lib Lib.Tenure Lib.Runs

/-- The `SSL` a call is made on. -/
def Event.uses : Event → Option (Option Nat)
  | sslFree ssl => some (some ssl)
  | wsClose _ ssl => some (some ssl)
  | sslAccept ssl _ => some ssl
  | sslRead ssl => some ssl
  | received _ ssl _ _ => some ssl
  | sslWrite ssl => some ssl
  | _ => none

/-- A call is made on an `SSL` that is there, never on the null pointer. -/
def UsesLive (older : List Event) (e : Event) : Prop :=
  ∀ ssl, e.uses = some ssl → ∃ p, ssl = some p ∧ (session older p).isSome = true

/-- The descriptor that was set for an `SSL`. -/
def descriptor (ssl : Nat) : List Event → Option Int
  | [] => none
  | .sslNew p fd :: older => if p = ssl then some fd else descriptor ssl older
  | _ :: older => descriptor ssl older

/-- The handshake is completed, by the `SSL` that has the address now. -/
def completed (ssl : Nat) : List Event → Bool
  | [] => false
  | .sslNew p _ :: older => p ≠ ssl && completed ssl older
  | .sslAccept p done :: older => p = some ssl && done || completed ssl older
  | _ :: older => completed ssl older

/-- A request's bytes were read just before, by a session that has completed its handshake, and
are handled for the descriptor that the session was set up with. -/
def Shaken (older : List Event) (e : Event) : Prop :=
  ∀ fd ssl bytes actions, e = .received fd ssl bytes actions →
    ∃ p before, ssl = some p ∧ older = .sslRead (some p) :: before ∧
      descriptor p before = some fd ∧ completed p before = true

/-- The session that the map has for a descriptor. -/
def sessionOf (fd : Int) : List Event → Option Nat
  | [] => none
  | .sslNew ssl fd' :: older => if fd' = fd then some ssl else sessionOf fd older
  | .sslFree ssl :: older => (sessionOf fd older).filter fun p => decide (p ≠ ssl)
  | _ :: older => sessionOf fd older

/-- A handler closes no `WebSocket` but one whose session is there and has been dropped from the
map, as `accept` drops one whose entry it writes over. -/
def Spared (older : List Event) (e : Event) : Prop :=
  ∀ fd ssl, e = .wsClose fd ssl →
    (session older ssl).isSome = true ∧ ∀ fd', sessionOf fd' older ≠ some ssl

/-- The sessions in the map are there. -/
def Live (s : Store) : Prop :=
  ∀ fd client, s.clients.lookup fd = some client →
    ∃ ssl, client.ssl = some ssl ∧ (session s.log ssl).isSome = true

/-- An entry has a session of its own, which is there. -/
structure Entry (log : List Event) (fd : Int) (client : ClientConnection) (ssl : Nat) : Prop where
  own : client.fd = fd
  nonneg : 0 ≤ fd
  address : client.ssl = some ssl
  live : (session log ssl).isSome = true
  setUp : descriptor ssl log = some fd
  done : client.handshakeCompleted = true → completed ssl log = true

structure Sound (s : Store) : Prop where
  entry : ∀ fd client, s.clients.lookup fd = some client → ∃ ssl, Entry s.log fd client ssl
  apart : ∀ fd fd' client client', s.clients.lookup fd = some client →
    s.clients.lookup fd' = some client' → client.ssl = client'.ssl → fd = fd'
  noted : ∀ fd, sessionOf fd s.log = (s.clients.lookup fd).bind ClientConnection.ssl
  uses : Throughout UsesLive s.log
  shaken : Throughout Shaken s.log
  spared : Throughout Spared s.log

theorem Sound.live {s : Store} (h : Sound s) : Live s := by
  intro fd client hclient
  obtain ⟨ssl, hentry⟩ := h.entry fd client hclient
  exact ⟨ssl, hentry.address, hentry.live⟩

theorem session_nothing {e : Event} (he : e.sslEffect = .nothing) (log : List Event) (p : Nat) :
    session (e :: log) p = session log p := holder_nothing he log p

theorem session_sslNew (log : List Event) (p q : Nat) (fd : Int) :
    session (.sslNew q fd :: log) p =
      if p = q then some (openings Event.sslEffect log) else session log p := rfl

theorem session_sslFree (log : List Event) (p q : Nat) :
    session (.sslFree q :: log) p = if p = q then none else session log p := rfl

theorem session_wsClose (log : List Event) (p q : Nat) (fd : Int) :
    session (.wsClose fd q :: log) p = if p = q then none else session log p := rfl

/-- What neither sets up nor frees, nor completes a handshake, leaves an entry as it is. -/
theorem Entry.cons {log : List Event} {fd : Int} {client : ClientConnection} {ssl : Nat}
    (h : Entry log fd client ssl) {e : Event} (he : e.sslEffect = .nothing) :
    Entry (e :: log) fd client ssl := by
  refine ⟨h.own, h.nonneg, h.address, ?_, ?_, fun hc => ?_⟩
  · rw [session_nothing he]
    exact h.live
  · rw [← h.setUp]
    cases e with
    | sslNew p fd => cases he
    | _ => rfl
  · have hbefore := h.done hc
    cases e with
    | sslNew p fd => cases he
    | sslAccept p done =>
      rw [SSLServer.completed, hbefore, Bool.or_true]
    | _ => exact hbefore

/-- The entry of a client that is accepted. -/
theorem Entry.fresh {fd : Int} (hnonneg : 0 ≤ fd) (ssl : Nat) (log : List Event) :
    Entry (.sslNew ssl fd :: log) fd {fd := fd, ssl := some ssl} ssl := by
  refine ⟨rfl, hnonneg, rfl, ?_, if_pos rfl, fun hc => by cases hc⟩
  rw [session_sslNew, if_pos rfl]
  rfl

/-- Another session is set up. -/
theorem Entry.sslNew {log : List Event} {fd : Int} {client : ClientConnection} {p : Nat}
    (h : Entry log fd client p) {ssl : Nat} (hp : p ≠ ssl) {fd' : Int} :
    Entry (.sslNew ssl fd' :: log) fd client p := by
  refine ⟨h.own, h.nonneg, h.address, ?_, ?_, fun hc => ?_⟩
  · rw [session_sslNew, if_neg hp]
    exact h.live
  · rw [descriptor, if_neg (Ne.symm hp)]
    exact h.setUp
  · simp [completed, Ne.symm hp, h.done hc]

theorem Entry.complete {log : List Event} {fd : Int} {client : ClientConnection} {ssl : Nat}
    (h : Entry log fd client ssl) :
    Entry (.sslAccept client.ssl true :: log) fd {client with handshakeCompleted := true} ssl := by
  have hnext : Entry (.sslAccept client.ssl true :: log) fd client ssl := h.cons rfl
  refine ⟨hnext.own, hnext.nonneg, hnext.address, hnext.live, hnext.setUp, fun _ => ?_⟩
  simp [completed, h.address]

/-- An entry stays when another session is freed. -/
theorem Entry.spare {log : List Event} {fd : Int} {client : ClientConnection} {ssl p : Nat}
    (h : Entry log fd client p) {e : Event} (he : e.sslEffect = .closes ssl) (hp : p ≠ ssl) :
    Entry (e :: log) fd client p := by
  have hlive : (session (e :: log) p).isSome = true := by
    rw [session, holder_closes he, if_neg hp]
    exact h.live
  cases e with
  | sslFree q => exact ⟨h.own, h.nonneg, h.address, hlive, h.setUp, h.done⟩
  | wsClose fd' q => exact ⟨h.own, h.nonneg, h.address, hlive, h.setUp, h.done⟩
  | _ => cases he

/-- No two entries have one session. -/
theorem Entry.ne {log : List Event} {fd fd' : Int} {client client' : ClientConnection}
    {ssl p : Nat} (h : Entry log fd client p) (h' : Entry log fd' client' ssl) (hne : fd ≠ fd') :
    p ≠ ssl := by
  rintro rfl
  exact hne (Option.some_inj.mp (h.setUp.symm.trans h'.setUp))

/-- `closeClient` frees an entry's session, and then closes its descriptor. -/
theorem Entry.release {log : List Event} {fd : Int} {client : ClientConnection} {ssl : Nat}
    (h : Entry log fd client ssl) : client.release = [.close fd, .sslFree ssl] := by
  have hne : fd ≠ -1 := by
    intro heq
    have hnonneg := h.nonneg
    omega
  simp [ClientConnection.release, h.own, h.address, hne]

/-- An event on no session. -/
theorem usesLive_of_none {older : List Event} {e : Event} (he : e.uses = none) :
    UsesLive older e := by
  intro ssl hssl
  rw [he] at hssl
  cases hssl

/-- An event that is no request. -/
theorem shaken_of_ne {older : List Event} {e : Event}
    (he : ∀ fd ssl bytes actions, e ≠ .received fd ssl bytes actions) : Shaken older e :=
  fun fd ssl bytes actions heq => absurd heq (he fd ssl bytes actions)

/-- A call on an entry's session. -/
theorem usesLive_of_entry {log : List Event} {fd : Int} {client : ClientConnection} {ssl : Nat}
    (h : Entry log fd client ssl) {e : Event} (he : e.uses = some client.ssl) : UsesLive log e := by
  intro ssl' hssl
  rw [he] at hssl
  cases hssl
  exact ⟨ssl, h.address, h.live⟩

/-- An event that is no close of a `WebSocket`. -/
theorem spared_of_ne {older : List Event} {e : Event} (he : ∀ fd ssl, e ≠ .wsClose fd ssl) :
    Spared older e := fun fd ssl heq => absurd heq (he fd ssl)

theorem sessionOf_cons {e : Event} (he : ∀ ssl, e ≠ .sslFree ssl ∧ ∀ fd, e ≠ .sslNew ssl fd)
    (log : List Event) (fd : Int) : sessionOf fd (e :: log) = sessionOf fd log := by
  cases e with
  | sslNew ssl fd' => exact absurd rfl ((he ssl).2 fd')
  | sslFree ssl => exact absurd rfl (he ssl).1
  | _ => rfl

/-- An event that has nothing to do with sessions, or uses an entry's. -/
theorem Sound.cons {s : Store} (h : Sound s) {e : Event} (he : e.sslEffect = .nothing)
    (huses : UsesLive s.log e) (hshaken : Shaken s.log e) : Sound ⟨s.clients, e :: s.log⟩ where
  entry fd client hclient := by
    obtain ⟨ssl, hentry⟩ := h.entry fd client hclient
    exact ⟨ssl, hentry.cons he⟩
  apart := h.apart
  noted fd := by
    rw [sessionOf_cons, h.noted]
    refine fun ssl => ⟨fun heq => ?_, fun fd' heq => ?_⟩
    · rw [heq] at he
      cases he
    · rw [heq] at he
      cases he
  uses := .cons huses h.uses
  shaken := .cons hshaken h.shaken
  spared := by
    refine .cons (spared_of_ne fun fd ssl heq => ?_) h.spared
    rw [heq] at he
    cases he

/-- A new entry over the one there was. -/
theorem Sound.accept {s : Store} (h : Sound s) {fd : Int} (hnonneg : 0 ≤ fd) {ssl : Nat}
    (hssl : session s.log ssl = none) :
    Sound ⟨s.clients.insert fd {fd := fd, ssl := some ssl}, .sslNew ssl fd :: s.log⟩ := by
  have hold : ∀ fd' client, s.clients.lookup fd' = some client → client.ssl ≠ some ssl := by
    intro fd' client hclient heq
    obtain ⟨p, hentry⟩ := h.entry fd' client hclient
    rw [hentry.address, Option.some_inj] at heq
    have hlive := hentry.live
    rw [heq, hssl] at hlive
    cases hlive
  have hnew : ∀ fd' client, (s.clients.insert fd {fd := fd, ssl := some ssl}).lookup fd' =
      some client → fd' = fd ∧ client = {fd := fd, ssl := some ssl} ∨
        s.clients.lookup fd' = some client := by
    intro fd' client hclient
    rw [Map.lookup_insert_eq] at hclient
    split at hclient
    · next heq => exact .inl ⟨heq, (Option.some_inj.mp hclient).symm⟩
    · exact .inr hclient
  refine ⟨fun fd' client hclient => ?_, fun fd₁ fd₂ c₁ c₂ h₁ h₂ heq => ?_, fun fd' => ?_, ?_, ?_,
    ?_⟩
  · rcases hnew fd' client hclient with ⟨rfl, rfl⟩ | hclient
    · exact ⟨ssl, .fresh hnonneg ssl _⟩
    · obtain ⟨p, hentry⟩ := h.entry fd' client hclient
      have hp : p ≠ ssl := fun heq => hold fd' client hclient (heq ▸ hentry.address)
      exact ⟨p, hentry.sslNew hp⟩
  · rcases hnew fd₁ c₁ h₁ with ⟨hfd₁, hc₁⟩ | hold₁ <;>
      rcases hnew fd₂ c₂ h₂ with ⟨hfd₂, hc₂⟩ | hold₂
    · exact hfd₁.trans hfd₂.symm
    · exact absurd (by rw [← heq, hc₁]) (hold fd₂ c₂ hold₂)
    · exact absurd (by rw [heq, hc₂]) (hold fd₁ c₁ hold₁)
    · exact h.apart fd₁ fd₂ c₁ c₂ hold₁ hold₂ heq
  · rw [sessionOf, Map.lookup_insert_eq, h.noted]
    by_cases heq : fd' = fd
    · rw [if_pos heq.symm, if_pos heq]
      rfl
    · rw [if_neg (Ne.symm heq), if_neg heq]
  · exact .cons (usesLive_of_none rfl) h.uses
  · exact .cons (shaken_of_ne (by simp)) h.shaken
  · exact .cons (spared_of_ne (by simp)) h.spared

/-- The handshake of an entry. -/
theorem Sound.complete {s : Store} (h : Sound s) {fd : Int} {client : ClientConnection}
    (hclient : s.clients.lookup fd = some client) :
    Sound ⟨s.clients.insert fd {client with handshakeCompleted := true},
      .sslAccept client.ssl true :: s.log⟩ := by
  obtain ⟨ssl, hentry⟩ := h.entry fd client hclient
  -- the entry keeps its session, so that nothing changes for the others
  have hold : ∀ fd' client', (s.clients.insert fd {client with handshakeCompleted := true}).lookup
      fd' = some client' → ∃ c, s.clients.lookup fd' = some c ∧ c.ssl = client'.ssl := by
    intro fd' client' hclient'
    rw [Map.lookup_insert_eq] at hclient'
    split at hclient'
    · next heq =>
      cases hclient'
      exact ⟨client, heq ▸ hclient, rfl⟩
    · exact ⟨client', hclient', rfl⟩
  refine ⟨fun fd' client' hclient' => ?_, fun fd₁ fd₂ c₁ c₂ h₁ h₂ heq => ?_, fun fd' => ?_, ?_, ?_,
    ?_⟩
  · rw [Map.lookup_insert_eq] at hclient'
    split at hclient'
    · next heq =>
      cases hclient'
      exact ⟨ssl, heq ▸ hentry.complete⟩
    · obtain ⟨p, hentry'⟩ := h.entry fd' client' hclient'
      exact ⟨p, hentry'.cons rfl⟩
  · obtain ⟨d₁, hd₁, heq₁⟩ := hold fd₁ c₁ h₁
    obtain ⟨d₂, hd₂, heq₂⟩ := hold fd₂ c₂ h₂
    exact h.apart fd₁ fd₂ d₁ d₂ hd₁ hd₂ (by rw [heq₁, heq₂, heq])
  · rw [sessionOf_cons (by simp), Map.lookup_insert_eq, h.noted]
    split
    · next heq =>
      rw [heq, hclient]
      rfl
    · rfl
  · exact .cons (usesLive_of_entry hentry rfl) h.uses
  · exact .cons (shaken_of_ne (by simp)) h.shaken
  · exact .cons (spared_of_ne (by simp)) h.spared

/-- An entry taken out, with its session freed. -/
theorem Sound.release {s : Store} (h : Sound s) {fd : Int} {client : ClientConnection}
    (hclient : s.clients.lookup fd = some client) :
    Sound ⟨s.clients.erase fd, client.release ++ s.log⟩ := by
  obtain ⟨ssl, hentry⟩ := h.entry fd client hclient
  have hfreed : Sound ⟨s.clients.erase fd, .sslFree ssl :: s.log⟩ := by
    have hold : ∀ fd' client', (s.clients.erase fd).lookup fd' = some client' →
        fd' ≠ fd ∧ s.clients.lookup fd' = some client' := by
      intro fd' client' hclient'
      by_cases heq : fd' = fd
      · rw [heq, Finmap.lookup_erase] at hclient'
        cases hclient'
      · rw [Finmap.lookup_erase_ne heq] at hclient'
        exact ⟨heq, hclient'⟩
    refine ⟨fun fd' client' hclient' => ?_, fun fd₁ fd₂ c₁ c₂ h₁ h₂ => ?_, fun fd' => ?_, ?_, ?_,
      ?_⟩
    · replace hclient' := hold fd' client' hclient'
      obtain ⟨hne, hclient'⟩ := hclient'
      obtain ⟨p, hentry'⟩ := h.entry fd' client' hclient'
      exact ⟨p, hentry'.spare rfl (hentry'.ne hentry hne)⟩
    · exact h.apart fd₁ fd₂ c₁ c₂ (hold fd₁ c₁ h₁).2 (hold fd₂ c₂ h₂).2
    · rw [sessionOf, h.noted]
      by_cases heq : fd' = fd
      · rw [heq, hclient, Finmap.lookup_erase, Option.bind_some, hentry.address]
        simp
      · rw [Finmap.lookup_erase_ne heq]
        cases hother : s.clients.lookup fd' with
        | none => rfl
        | some client' =>
          obtain ⟨p, hentry'⟩ := h.entry fd' client' hother
          have hne := hentry'.ne hentry heq
          rw [Option.bind_some, hentry'.address]
          simp [hne]
    · refine .cons (fun ssl' hssl' => ?_) h.uses
      cases hssl'
      exact ⟨ssl, rfl, hentry.live⟩
    · exact .cons (shaken_of_ne (by simp)) h.shaken
    · exact .cons (spared_of_ne (by simp)) h.spared
  rw [hentry.release]
  exact hfreed.cons rfl (usesLive_of_none rfl) (shaken_of_ne (by simp))

theorem Sound.move {sockfd : Int} {s t : Store} (hm : Move sockfd s t) (h : Sound s) :
    Sound t := by
  cases hm with
  | @accept fd ssl hfd hnonneg hne hssl =>
    have haccepted := @Sound.cons s h (.accept fd) rfl (usesLive_of_none rfl)
      (shaken_of_ne (by simp))
    exact haccepted.accept hnonneg hssl
  | @refuse fd hfd =>
    have haccepted := @Sound.cons s h (.accept fd) rfl (usesLive_of_none rfl)
      (shaken_of_ne (by simp))
    exact haccepted.cons rfl (usesLive_of_none rfl) (shaken_of_ne (by simp))
  | complete hclient => exact h.complete hclient
  | wait hclient =>
    obtain ⟨ssl, hentry⟩ := h.entry _ _ hclient
    exact h.cons rfl (usesLive_of_entry hentry rfl) (shaken_of_ne (by simp))
  | read hclient hcompleted =>
    obtain ⟨ssl, hentry⟩ := h.entry _ _ hclient
    exact h.cons rfl (usesLive_of_entry hentry rfl) (shaken_of_ne (by simp))
  | @receive fd client hclient hcompleted bytes actions =>
    obtain ⟨ssl, hentry⟩ := h.entry _ _ hclient
    have hread := @Sound.cons s h (.sslRead client.ssl) rfl (usesLive_of_entry hentry rfl)
      (shaken_of_ne (by simp))
    have hentry' := @Entry.cons _ _ _ _ hentry (.sslRead client.ssl) rfl
    refine hread.cons rfl (usesLive_of_entry hentry' rfl) fun fd ssl' bytes' actions' heq => ?_
    cases heq
    exact ⟨ssl, s.log, hentry.address, by rw [hentry.address], hentry.setUp,
      hentry.done hcompleted⟩
  | release hclient => exact h.release hclient
  | closeListening => exact h.cons rfl (usesLive_of_none rfl) (shaken_of_ne (by simp))

/-- A `WebSocket` closed whose session the map does not have. -/
theorem Sound.hangUp {s : Store} (h : Sound s) {fd : Int} {ssl : Nat}
    (hspared : Spared s.log (.wsClose fd ssl)) : Sound ⟨s.clients, .wsClose fd ssl :: s.log⟩ where
  entry fd' client hclient := by
    obtain ⟨p, hentry⟩ := h.entry fd' client hclient
    have hnoted : sessionOf fd' s.log = some p := by
      rw [h.noted, hclient, Option.bind_some, hentry.address]
    exact ⟨p, hentry.spare rfl fun heq => (hspared fd ssl rfl).2 fd' (heq ▸ hnoted)⟩
  apart := h.apart
  noted fd' := (sessionOf_cons (by simp) ..).trans (h.noted fd')
  uses := by
    refine .cons (fun ssl' hssl' => ?_) h.uses
    cases hssl'
    exact ⟨ssl, rfl, (hspared fd ssl rfl).1⟩
  shaken := .cons (shaken_of_ne (by simp)) h.shaken
  spared := .cons hspared h.spared

/-- What a request does, as long as the log keeps the rule. -/
theorem Sound.acts {s : Store} (h : Sound s) {newer : List Event}
    (hnewer : ∀ e ∈ newer, Acting s.clients e) (hspared : Throughout Spared (newer ++ s.log)) :
    Sound ⟨s.clients, newer ++ s.log⟩ := by
  induction newer with
  | nil => exact h
  | cons e newer ih =>
    obtain ⟨hhead, htail⟩ := throughout_cons.mp hspared
    have hrest : Sound ⟨s.clients, newer ++ s.log⟩ :=
      ih (fun e' he' => hnewer e' (List.mem_cons_of_mem e he')) htail
    cases hnewer e (List.mem_cons_self ..) with
    | frame fd => exact hrest.cons rfl (usesLive_of_none rfl) (shaken_of_ne (by simp))
    | handler fd => exact hrest.cons rfl (usesLive_of_none rfl) (shaken_of_ne (by simp))
    | dispatch fd ssl => exact hrest.cons rfl (usesLive_of_none rfl) (shaken_of_ne (by simp))
    | @write fd client hclient =>
      obtain ⟨ssl, hentry⟩ := hrest.entry fd client hclient
      exact hrest.cons rfl (usesLive_of_entry hentry rfl) (shaken_of_ne (by simp))
    | hangUp fd ssl => exact hrest.hangUp hhead

theorem acting_opens {clients : Clients} {e : Event} (h : Acting clients e) (ssl : Nat) :
    e.sslEffect ≠ .opens ssl := by
  cases h <;> simp [Event.sslEffect]

/-- A request changes nothing of what the map has. -/
theorem sessionOf_acting {clients : Clients} {newer : List Event}
    (hnewer : ∀ e ∈ newer, Acting clients e) (log : List Event) (fd : Int) :
    sessionOf fd (newer ++ log) = sessionOf fd log := by
  induction newer with
  | nil => rfl
  | cons e newer ih =>
    have hrest := ih fun e' he' => hnewer e' (List.mem_cons_of_mem e he')
    have hsame : sessionOf fd (e :: (newer ++ log)) = sessionOf fd (newer ++ log) := by
      cases hnewer e (List.mem_cons_self ..) <;> rfl
    exact hsame.trans hrest

/-- A session that a handler has freed is gone. -/
theorem session_freed {clients : Clients} {newer : List Event}
    (hnewer : ∀ e ∈ newer, Acting clients e) {fd : Int} {ssl : Nat}
    (hfreed : .wsClose fd ssl ∈ newer) (log : List Event) : session (newer ++ log) ssl = none := by
  obtain ⟨before, after, rfl⟩ := List.append_of_mem hfreed
  by_contra hsome
  obtain ⟨c, hc⟩ := Option.ne_none_iff_exists'.mp hsome
  rw [List.append_assoc, List.cons_append] at hc
  have hbefore : session (.wsClose fd ssl :: (after ++ log)) ssl = some c :=
    holder_of_append (fun e he => acting_opens (hnewer e (List.mem_append_left _ he))) hc
  rw [session_wsClose, if_pos rfl] at hbefore
  cases hbefore

/-- Where the sessions in the map are there in the end and none was used that was not, the
request has spared them. -/
theorem spared_of_live {s : Store} (h : Sound s) {newer : List Event}
    (hnewer : ∀ e ∈ newer, Acting s.clients e) (hlive : Live ⟨s.clients, newer ++ s.log⟩)
    (huses : Throughout UsesLive (newer ++ s.log)) : Throughout Spared (newer ++ s.log) := by
  suffices hall : ∀ before after, newer = before ++ after → Throughout Spared (after ++ s.log) from
    hall [] newer rfl
  intro before after
  induction after generalizing before with
  | nil => exact fun _ => h.spared
  | cons e after ih =>
    intro heq
    have hrest := ih (before ++ [e]) (by rw [heq, List.append_assoc, List.singleton_append])
    refine .cons (fun fd ssl hclose => ?_) hrest
    subst hclose
    have hmem : Event.wsClose fd ssl ∈ newer := heq ▸ List.mem_append_right _ (List.mem_cons_self ..)
    constructor
    · rw [heq, List.append_assoc] at huses
      obtain ⟨p, hp, hthere⟩ := (throughout_cons.mp huses.of_append).1 (some ssl) rfl
      cases hp
      exact hthere
    · intro fd' hheld
      have hafter : ∀ e ∈ after, Acting s.clients e := fun e he =>
        hnewer e (heq ▸ List.mem_append_right _ (List.mem_cons_of_mem _ he))
      have hnoted : sessionOf fd' (after ++ s.log) = some ssl := hheld
      rw [sessionOf_acting hafter, h.noted] at hnoted
      obtain ⟨client, hclient, hssl⟩ := Option.bind_eq_some_iff.mp hnoted
      obtain ⟨p, hp, hthere⟩ := hlive fd' client hclient
      rw [hssl, Option.some_inj] at hp
      have hthere' : (session (newer ++ s.log) p).isSome = true := hthere
      rw [← hp, session_freed hnewer hmem] at hthere'
      cases hthere'

variable {W : Type}

theorem sound_initial (srv : Server W) (wsRoutes : List (WsRoute W)) :
    Sound (State.initial srv wsRoutes).store := by
  refine ⟨fun fd client hclient => ?_, fun fd fd' client client' hclient => ?_, fun _ => rfl, .nil,
    .nil, .nil⟩
  · cases hclient
  · cases hclient

/-- The sessions in the map are there, and each session was there when it was used. -/
def Used (s : Store) : Prop := Live s ∧ Throughout UsesLive s.log

theorem Sound.used {s : Store} (h : Sound s) : Used s := ⟨h.live, h.uses⟩

/-- One step: nothing goes wrong just when handlers spare what is in the map. -/
theorem used_step_iff (srv : Server W) {s : State W} (h : Sound s.store) (i : Input W) :
    (Used (step srv s i).store ↔ Throughout Spared (step srv s i).log) ∧
      (Throughout Spared (step srv s i).log → Sound (step srv s i).store) := by
  obtain ⟨u, newer, hmoves, hnewer, heq⟩ := moves_step srv s i
  have hu : Sound u := hmoves.induction (fun _ _ hm h => h.move hm) h
  have hlog : (step srv s i).log = newer ++ u.log := congrArg Store.log heq
  rw [heq, hlog]
  exact ⟨⟨fun hused => spared_of_live hu hnewer hused.1 hused.2,
    fun hspared => (hu.acts hnewer hspared).used⟩, hu.acts hnewer⟩

/-- Calls on sessions that are there free no session that is not. -/
theorem noStray_of_usesLive {log : List Event} (h : Throughout UsesLive log) :
    NoStray Event.sslEffect log := by
  induction h with
  | nil => trivial
  | @cons e older he _ ih =>
    refine ⟨fun p hp => ?_, ih⟩
    cases e with
    | sslFree q =>
      cases hp
      obtain ⟨_, hq, hlive⟩ := he _ rfl
      cases hq
      exact hlive
    | wsClose fd q =>
      cases hp
      obtain ⟨_, hq, hlive⟩ := he _ rfl
      cases hq
      exact hlive
    | _ => cases hp

/-- **Sessions are used while they are there, as long as handlers spare those of the map**. In
every state the sessions in the map are there, and `SSL_accept`, `SSL_read`, the requests and their
answers, `SSL_free` and the handlers' own `WebSocket`s had an `SSL` that was there, just when no
handler has closed a `WebSocket` whose session was gone or in the map: with `stop` between any
steps, and whatever descriptors are closed. If none has, no session is freed twice, and what is
handled as a request was read just before from a session that has completed its handshake and was
set up for the descriptor the request is handled for. -/
theorem sessions_live_iff (srv : Server W) (wsRoutes : List (WsRoute W))
    (inputs : List (Input W)) :
    ((∀ past rest, inputs = past ++ rest →
        Used (runLoop srv (State.initial srv wsRoutes) past).store) ↔
      Throughout Spared (runLoop srv (State.initial srv wsRoutes) inputs).log) ∧
    (Throughout Spared (runLoop srv (State.initial srv wsRoutes) inputs).log →
      (∀ c, closeCalls Event.sslEffect c
          (runLoop srv (State.initial srv wsRoutes) inputs).log ≤ 1) ∧
        Throughout Shaken (runLoop srv (State.initial srv wsRoutes) inputs).log) := by
  obtain ⟨hiff, hsound⟩ := keeps_run_iff srv (fun _ h => Sound.used h) (fun _ h => h.spared)
    (fun _ i h => used_step_iff srv h i) (sound_initial srv wsRoutes) inputs
  refine ⟨hiff, fun hspared => ?_⟩
  have h := hsound hspared
  exact ⟨closeCalls_le_one (noStray_of_usesLive h.uses), h.shaken⟩

end HttpServer.SSLServer
