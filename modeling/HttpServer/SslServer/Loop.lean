import HttpServer.SslServer.Clients
import HttpServer.Server.Authentic

/-! The loop until it is stopped.

A handler that closes the `WebSocket` it is called with leaves an entry behind whose session is
gone. Its descriptor is closed too, so that `poll` does not report it, and where the descriptor is
handed out again `accept` writes over the entry: the loop itself does not come back to the
session (`loop_sessions_live`). Only `stop` goes through all entries, and only a handler that has
kept a `WebSocket` from another call can close one that the loop is still going to come to. -/
namespace HttpServer.SSLServer
open Lib Lib.Tenure Lib.Runs

/-- The descriptor's entry, if it has one, has its session. -/
def Good (s : Store) (fd : Int) : Prop :=
  ∀ client, s.clients.lookup fd = some client → ∃ ssl, Entry s.log fd client ssl

/-- The clients that the loop is going to come to in this pass. -/
def pending (sockfd : Int) : Control → List Int
  | .pass todo deadClients => todo.filter (· ≠ sockfd) ++ deadClients
  | .cleanup deadClients => deadClients
  | _ => []

/-- What is open and what the loop is going to come to has its session. -/
structure Safe (s : Store) (due : List Int) : Prop where
  opened : ∀ fd, (connection s.log fd).isSome = true → Good s fd
  coming : ∀ fd ∈ due, Good s fd
  distinct : due.Nodup
  uses : Throughout UsesLive s.log
  shaken : Throughout Shaken s.log

theorem Good.cons {s : Store} {fd : Int} (h : Good s fd) {e : Event}
    (he : e.sslEffect = .nothing) : Good ⟨s.clients, e :: s.log⟩ fd := by
  intro client hclient
  obtain ⟨ssl, hentry⟩ := h client hclient
  exact ⟨ssl, hentry.cons he⟩

theorem Good.free {s : Store} {fd fd' : Int} {client : ClientConnection} {ssl : Nat}
    (hentry : Entry s.log fd client ssl) (h : Good s fd') (hne : fd' ≠ fd) {e : Event}
    (he : e.sslEffect = .closes ssl) : Good ⟨s.clients, e :: s.log⟩ fd' := by
  intro client' hclient'
  obtain ⟨p, hentry'⟩ := h client' hclient'
  exact ⟨p, hentry'.spare he (hentry'.ne hentry hne)⟩

namespace Safe
variable {s : Store} {due : List Int}

/-- An event on no session, which opens nothing. -/
theorem cons (h : Safe s due) {e : Event} (he : e.sslEffect = .nothing)
    (hopens : ∀ fd, e.fdEffect ≠ .opens fd) (huses : UsesLive s.log e) (hshaken : Shaken s.log e) :
    Safe ⟨s.clients, e :: s.log⟩ due where
  opened fd hfd := by
    obtain ⟨c, hc⟩ := Option.isSome_iff_exists.mp hfd
    have hbefore := holder_of_closes hopens hc
    exact (h.opened fd (Option.isSome_iff_exists.mpr ⟨c, hbefore⟩)).cons he
  coming fd hfd := (h.coming fd hfd).cons he
  distinct := h.distinct
  uses := .cons huses h.uses
  shaken := .cons hshaken h.shaken

theorem sublist {due' : List Int} (h : Safe s due) (hsub : due'.Sublist due) : Safe s due' :=
  ⟨h.opened, fun fd hfd => h.coming fd (hsub.subset hfd), h.distinct.sublist hsub, h.uses, h.shaken⟩

theorem tail {fd : Int} (h : Safe s (fd :: due)) : Safe s due :=
  h.sublist (List.sublist_cons_self fd due)

/-- A client that failed is put off until the pass is over. -/
theorem fail {fd : Int} {todo deadClients : List Int} (h : Safe s (fd :: (todo ++ deadClients))) :
    Safe s (todo ++ (deadClients ++ [fd])) := by
  have hperm : (fd :: (todo ++ deadClients)).Perm (todo ++ (deadClients ++ [fd])) := by
    rw [← List.append_assoc]
    exact (List.perm_append_singleton fd _).symm
  exact ⟨h.opened, fun fd' hfd' => h.coming fd' (hperm.mem_iff.mpr hfd'),
    hperm.nodup_iff.mp h.distinct, h.uses, h.shaken⟩

/-- A client that is accepted gets an entry with its session. -/
theorem accept (h : Safe s due) {fd : Int} (hnonneg : 0 ≤ fd) {ssl : Nat}
    (hssl : session s.log ssl = none) :
    Safe ⟨s.clients.insert fd {fd := fd, ssl := some ssl}, .sslNew ssl fd :: .accept fd :: s.log⟩
      due := by
  have hgood : ∀ fd', fd' = fd ∨ Good s fd' →
      Good ⟨s.clients.insert fd {fd := fd, ssl := some ssl},
        .sslNew ssl fd :: .accept fd :: s.log⟩ fd' := by
    intro fd' hfd' client hclient
    rw [Map.lookup_insert_eq] at hclient
    split at hclient
    · next heq =>
      cases hclient
      rw [heq]
      exact ⟨ssl, .fresh hnonneg ssl _⟩
    · next hne =>
      obtain ⟨p, hentry⟩ := hfd'.resolve_left hne client hclient
      have hp : p ≠ ssl := by
        rintro rfl
        have hlive := hentry.live
        rw [hssl] at hlive
        cases hlive
      exact ⟨p, (@Entry.cons _ _ _ _ hentry (.accept fd) rfl).sslNew hp⟩
  refine ⟨fun fd' hfd' => hgood fd' ?_, fun fd' hfd' => hgood fd' (.inr (h.coming fd' hfd')),
    h.distinct, ?_, ?_⟩
  · have hconn : (connection (.accept fd :: s.log) fd').isSome = true := hfd'
    rw [connection_accept] at hconn
    by_cases heq : fd' = fd
    · exact .inl heq
    · rw [if_neg heq] at hconn
      exact .inr (h.opened fd' hconn)
  · exact .cons (usesLive_of_none rfl) (.cons (usesLive_of_none rfl) h.uses)
  · exact .cons (shaken_of_ne (by simp)) (.cons (shaken_of_ne (by simp)) h.shaken)

theorem refuse (h : Safe s due) (fd : Int) :
    Safe ⟨s.clients, .close fd :: .accept fd :: s.log⟩ due where
  opened fd' hfd' := by
    rw [connection_close, connection_accept] at hfd'
    split at hfd'
    · cases hfd'
    · exact (@Good.cons _ _ (h.opened fd' hfd') (.accept fd) rfl).cons rfl
  coming fd' hfd' := (@Good.cons _ _ (h.coming fd' hfd') (.accept fd) rfl).cons rfl
  distinct := h.distinct
  uses := .cons (usesLive_of_none rfl) (.cons (usesLive_of_none rfl) h.uses)
  shaken := .cons (shaken_of_ne (by simp)) (.cons (shaken_of_ne (by simp)) h.shaken)

/-- The handshake of a client. -/
theorem complete {fd : Int} {client : ClientConnection} {ssl : Nat} (h : Safe s due)
    (hentry : Entry s.log fd client ssl) :
    Safe ⟨s.clients.insert fd {client with handshakeCompleted := true},
      .sslAccept client.ssl true :: s.log⟩ due := by
  have hgood : ∀ fd', Good s fd' →
      Good ⟨s.clients.insert fd {client with handshakeCompleted := true},
        .sslAccept client.ssl true :: s.log⟩ fd' := by
    intro fd' hfd' client' hclient'
    rw [Map.lookup_insert_eq] at hclient'
    split at hclient'
    · next heq =>
      cases hclient'
      rw [heq]
      exact ⟨ssl, hentry.complete⟩
    · exact hfd'.cons rfl client' hclient'
  exact ⟨fun fd' hfd' => hgood fd' (h.opened fd' hfd'),
    fun fd' hfd' => hgood fd' (h.coming fd' hfd'), h.distinct,
    .cons (usesLive_of_entry hentry rfl) h.uses, .cons (shaken_of_ne (by simp)) h.shaken⟩

/-- A client the loop has come to is closed. -/
theorem release {fd : Int} {client : ClientConnection} (h : Safe s (fd :: due))
    (hclient : s.clients.lookup fd = some client) :
    Safe ⟨s.clients.erase fd, client.release ++ s.log⟩ due := by
  obtain ⟨ssl, hentry⟩ := h.coming fd (List.mem_cons_self ..) client hclient
  have hgood : ∀ fd', Good s fd' →
      Good ⟨s.clients.erase fd, .close fd :: .sslFree ssl :: s.log⟩ fd' := by
    intro fd' hfd' client' hclient'
    by_cases heq : fd' = fd
    · rw [heq, Finmap.lookup_erase] at hclient'
      cases hclient'
    · rw [Finmap.lookup_erase_ne heq] at hclient'
      have hfree : Good ⟨s.clients, .sslFree ssl :: s.log⟩ fd' := hfd'.free hentry heq rfl
      exact hfree.cons rfl client' hclient'
  have hfreed : UsesLive s.log (.sslFree ssl) := by
    intro ssl' hssl'
    cases hssl'
    exact ⟨ssl, rfl, hentry.live⟩
  rw [hentry.release]
  refine ⟨fun fd' hfd' => hgood fd' ?_, fun fd' hfd' => hgood fd' (h.tail.coming fd' hfd'),
    h.tail.distinct, .cons (usesLive_of_none rfl) (.cons hfreed h.uses),
    .cons (shaken_of_ne (by simp)) (.cons (shaken_of_ne (by simp)) h.shaken)⟩
  have hconn : (connection (.close fd :: s.log) fd').isSome = true := hfd'
  rw [connection_close] at hconn
  split at hconn
  · cases hconn
  · exact h.opened fd' hconn

/-- The handler of a client closes its `WebSocket`. -/
theorem hangUp {fd : Int} {client : ClientConnection} {ssl : Nat} (h : Safe s (fd :: due))
    (hentry : Entry s.log fd client ssl) : Safe ⟨s.clients, .wsClose fd ssl :: s.log⟩ due := by
  refine ⟨fun fd' hfd' => ?_, fun fd' hfd' => ?_, h.tail.distinct, ?_, ?_⟩
  · have hconn : (connection (.wsClose fd ssl :: s.log) fd').isSome = true := hfd'
    rw [connection, holder_closes (show Event.fdEffect (.wsClose fd ssl) = .closes fd from rfl)]
      at hconn
    split at hconn
    · cases hconn
    · next hne => exact (h.opened fd' hconn).free hentry hne rfl
  · have hne : fd' ≠ fd := by
      rintro rfl
      exact (List.nodup_cons.mp h.distinct).1 hfd'
    exact (h.tail.coming fd' hfd').free hentry hne rfl
  · refine .cons (fun ssl' hssl' => ?_) h.uses
    cases hssl'
    exact ⟨ssl, rfl, hentry.live⟩
  · exact .cons (shaken_of_ne (by simp)) h.shaken

/-- An event on no session that opens nothing. -/
theorem pass (h : Safe s due) {e : Event} (he : e.sslEffect = .nothing)
    (hopens : ∀ fd, e.fdEffect ≠ .opens fd) (huses : e.uses = none) :
    Safe ⟨s.clients, e :: s.log⟩ due := by
  refine h.cons he hopens (usesLive_of_none huses) (shaken_of_ne fun fd ssl bytes actions heq => ?_)
  rw [heq] at huses
  cases huses

end Safe

/-! ### The actions of a request -/

/-- The `WebSocket` that a handler has been called with and has not closed. -/
def inHand : List Event → Option (Int × Nat)
  | .dispatched fd ssl :: _ => ssl.map fun ssl => (fd, ssl)
  | .handlerClose _ :: older => inHand older
  | _ => none

/-- A handler closes no `WebSocket` but the one that it is called with, and it once. -/
def Own (older : List Event) : Event → Prop
  | .wsClose fd ssl => inHand older = some (fd, ssl)
  | _ => True

instance (older : List Event) : (e : Event) → Decidable (Own older e)
  | .wsClose fd ssl => inferInstanceAs (Decidable (inHand older = some (fd, ssl)))
  | .accept _ | .close _ | .frameClose _ | .handlerClose _ | .closeListening _ | .sslNew _ _
  | .sslFree _ | .sslAccept _ _ | .sslRead _ | .received _ _ _ _ | .sslWrite _
  | .dispatched _ _ => isTrue trivial

/-- A handler gets a `WebSocket` at the end of a request, if at all, and can only close then. -/
inductive Ends : List Action → Prop
  | nil : Ends []
  | dispatch (path : Bytes) (ws : WebSocket) (closed : List Int) :
    Ends (.dispatch path ws :: closed.map .handlerClose)
  | cons {action : Action} {actions : List Action} (hplain : dispatches [action] = [])
    (hrest : Ends actions) : Ends (action :: actions)

theorem suffix_logActions (fd : Int) (ssl : Option Nat) (closers : List (Option Nat))
    (actions : List Action) (log : List Event) :
    log <:+ logActions fd ssl closers actions log := by
  induction actions generalizing closers log with
  | nil => exact List.suffix_refl log
  | cons action actions ih =>
    have hlogged : ∀ e closers, log <:+ logActions fd ssl closers actions (e :: log) :=
      fun e closers => (List.suffix_cons e log).trans (ih closers (e :: log))
    cases action with
    | handle req => exact ih closers log
    | upgrade path query bound => exact ih closers log
    | _ => exact hlogged _ _

theorem own_of_suffix {log log' : List Event} (h : Throughout Own log') (hsuffix : log <:+ log') :
    Throughout Own log := by
  obtain ⟨newer, rfl⟩ := hsuffix
  exact h.of_append

/-- A close of a handler: of a descriptor, or of the `WebSocket` in its hand. -/
theorem closeEvent_own {log : List Event} {sd : Int} {p : Option Nat}
    (hown : Own log (closeEvent log sd p)) :
    closeEvent log sd p = .handlerClose sd ∨
      ∃ ssl, inHand log = some (sd, ssl) ∧ closeEvent log sd p = .wsClose sd ssl := by
  rcases closeEvent_cases log sd p with heq | ⟨ssl, heq, _⟩
  · exact .inl heq
  · rw [heq] at hown
    exact .inr ⟨ssl, hown, heq⟩

namespace Safe
variable {s : Store} {due : List Int} {fd : Int} {ssl? : Option Nat}

theorem handlerClose (h : Safe s due) (sd : Int) :
    Safe ⟨s.clients, .handlerClose sd :: s.log⟩ due :=
  h.pass rfl (by simp [Event.fdEffect]) rfl

/-- With no `WebSocket` in hand, handlers only close descriptors. -/
theorem closesNone (h : Safe s due) (hhand : inHand s.log = none) (closed : List Int)
    (closers : List (Option Nat))
    (hown : Throughout Own (logActions fd ssl? closers (closed.map .handlerClose) s.log)) :
    Safe ⟨s.clients, logActions fd ssl? closers (closed.map .handlerClose) s.log⟩ due := by
  induction closed generalizing s closers with
  | nil => exact h
  | cons sd closed ih =>
    rw [List.map_cons, logActions] at hown ⊢
    have hhead := (throughout_cons.mp (own_of_suffix hown (suffix_logActions ..))).1
    rcases closeEvent_own hhead with heq | ⟨ssl, hsome, _⟩
    · rw [heq] at hown ⊢
      exact ih (s := ⟨s.clients, .handlerClose sd :: s.log⟩) (h.handlerClose sd) hhand closers.tail
        hown
    · rw [hhand] at hsome
      cases hsome

/-- A handler that has the `WebSocket` of a client may close it, and the loop does not come to
the client again in this pass. -/
theorem closesOwn {client : ClientConnection} {ssl : Nat} (h : Safe s (fd :: due))
    (hentry : Entry s.log fd client ssl) (hhand : inHand s.log = some (fd, ssl))
    (closed : List Int) (closers : List (Option Nat))
    (hown : Throughout Own (logActions fd ssl? closers (closed.map .handlerClose) s.log)) :
    Safe ⟨s.clients, logActions fd ssl? closers (closed.map .handlerClose) s.log⟩ due := by
  induction closed generalizing s closers with
  | nil => exact h.tail
  | cons sd closed ih =>
    rw [List.map_cons, logActions] at hown ⊢
    have hhead := (throughout_cons.mp (own_of_suffix hown (suffix_logActions ..))).1
    rcases closeEvent_own hhead with heq | ⟨ssl', hsome, heq⟩
    · rw [heq] at hown ⊢
      exact ih (s := ⟨s.clients, .handlerClose sd :: s.log⟩) (h.handlerClose sd) (hentry.cons rfl)
        hhand closers.tail hown
    · rw [hhand] at hsome
      cases hsome
      rw [heq] at hown ⊢
      exact closesNone (s := ⟨s.clients, .wsClose fd ssl :: s.log⟩) (h.hangUp hentry) rfl closed
        closers.tail hown

/-- **The actions of a request of a client.** -/
theorem acts {client : ClientConnection} {ssl : Nat} (h : Safe s (fd :: due))
    (hentry : Entry s.log fd client ssl) (hhand : inHand s.log = none) {actions : List Action}
    (hends : Ends actions) (closers : List (Option Nat))
    (hown : Throughout Own (logActions fd client.ssl closers actions s.log)) :
    Safe ⟨s.clients, logActions fd client.ssl closers actions s.log⟩ due := by
  induction hends generalizing s closers with
  | nil => exact h.tail
  | dispatch path ws closed =>
    refine closesOwn (s := ⟨s.clients, .dispatched fd client.ssl :: s.log⟩)
      (h.pass rfl (by simp [Event.fdEffect]) rfl) (hentry.cons rfl) ?_ closed closers hown
    rw [inHand, hentry.address]
    rfl
  | @cons action actions hplain hrest ih =>
    cases action with
    | handle req => exact ih h hentry hhand closers hown
    | upgrade path query bound => exact ih h hentry hhand closers hown
    | dispatch path ws => cases hplain
    | close sd =>
      exact ih (s := ⟨s.clients, .frameClose sd :: s.log⟩)
        (h.pass rfl (by simp [Event.fdEffect]) rfl) (hentry.cons rfl) rfl closers hown
    | send message complete =>
      have hwritten : Safe ⟨s.clients, .sslWrite client.ssl :: s.log⟩ (fd :: due) :=
        h.cons rfl (by simp [Event.fdEffect]) (usesLive_of_entry hentry rfl)
          (shaken_of_ne (by simp))
      exact ih hwritten (hentry.cons rfl) rfl closers hown
    | handlerClose sd =>
      rw [logActions] at hown ⊢
      have hhead := (throughout_cons.mp (own_of_suffix hown (suffix_logActions ..))).1
      rcases closeEvent_own hhead with heq | ⟨p, hsome, _⟩
      · rw [heq] at hown ⊢
        exact ih (s := ⟨s.clients, .handlerClose sd :: s.log⟩) (h.handlerClose sd)
          (hentry.cons rfl) hhand closers.tail hown
      · rw [hhand] at hsome
        cases hsome

end Safe

variable {W : Type}

theorem ends_append {before after : List Action} (hbefore : dispatches before = [])
    (hafter : Ends after) : Ends (before ++ after) := by
  induction before with
  | nil => exact hafter
  | cons action before ih =>
    have hsplit : dispatches [action] ++ dispatches before = [] :=
      (dispatches_append [action] before).symm.trans hbefore
    obtain ⟨hplain, hrest⟩ := List.append_eq_nil_iff.mp hsplit
    exact .cons hplain (ih hrest)

theorem ends_of_none {actions : List Action} (h : dispatches actions = []) : Ends actions := by
  have hends := ends_append h .nil
  rwa [List.append_nil] at hends

theorem ends_dispatch (env : Env W) (wsRoutes : List (WsRoute W)) (sd : Int) (buffer : Bytes) :
    Ends (Server.dispatchWebSocket env wsRoutes sd buffer) := by
  unfold Server.dispatchWebSocket
  split
  · exact .nil
  · exact .dispatch _ _ _

theorem performRequest_ends {s : Server W} {env : Env W} {unsetFd : Int}
    {wsRoutes wsRoutes' : List (WsRoute W)} {sd : Int} {buffer : Bytes} {actions : List Action}
    (h : performRequest s env unsetFd wsRoutes sd buffer = .ok (wsRoutes', actions)) :
    Ends actions := by
  unfold performRequest at h
  obtain ⟨req, _, h⟩ := bind_eq_ok h
  obtain ⟨closed, hpre, _⟩ := Server.callHandler_actions s.preRoutingHandler env.world req
    (Response.make env.unset s.defaultHeaders unsetFd)
  have hpred := (plain_websocket (plain_closes closed)).2
  simp only [hpre] at h
  have hanswered : ∀ res answered, s.respond env req res = .ok answered → Ends answered :=
    fun res answered hres =>
      ends_of_none (plain_websocket (Server.respond_routed hres).plain).2
  split at h
  · split at h
    · split at h
      · cases h
        exact ends_append hpred (ends_of_none rfl)
      · cases h
        exact ends_append hpred (ends_dispatch ..)
    · obtain ⟨message, _, h⟩ := bind_eq_ok h
      split at h
      · obtain ⟨answered, hres, h⟩ := bind_eq_ok h
        cases h
        exact ends_append hpred (hanswered _ _ hres)
      · split at h
        · cases h
          exact ends_append hpred (.cons rfl (.cons rfl (ends_dispatch ..)))
        · obtain ⟨answered, hres, h⟩ := bind_eq_ok h
          cases h
          exact ends_append hpred (.cons rfl (hanswered _ _ hres))
  · obtain ⟨answered, hres, h⟩ := bind_eq_ok h
    cases h
    exact ends_append hpred (hanswered _ _ hres)

/-! ### The loop -/

/-- What the loop has come to and is going to come to. -/
def State.OnCourse (s : State W) : Prop := Safe s.store (pending s.sockfd s.control)

theorem safe_read (srv : Server W) {s : State W} (a : Answer W) {fd : Int}
    {client : ClientConnection} {ssl : Nat} (hclient : s.sslClients.lookup fd = some client)
    (hentry : Entry s.log fd client ssl) (hcompleted : client.handshakeCompleted = true)
    {todo deadClients : List Int}
    (h : Safe s.store (fd :: (todo.filter (· ≠ s.sockfd) ++ deadClients))) :
    Throughout Own (readClient srv s a fd client todo deadClients).log →
      (readClient srv s a fd client todo deadClients).OnCourse := by
  have hread : Safe ⟨s.sslClients, .sslRead client.ssl :: s.log⟩
      (fd :: (todo.filter (· ≠ s.sockfd) ++ deadClients)) :=
    h.cons rfl (by simp [Event.fdEffect]) (usesLive_of_entry hentry rfl) (shaken_of_ne (by simp))
  have hentry' : Entry (.sslRead client.ssl :: s.log) fd client ssl := hentry.cons rfl
  unfold readClient
  simp only
  split
  · next bytes _ =>
    have hreceived : ∀ actions, Safe ⟨s.sslClients,
        .received fd client.ssl bytes.val actions :: .sslRead client.ssl :: s.log⟩
        (fd :: (todo.filter (· ≠ s.sockfd) ++ deadClients)) := by
      intro actions
      refine hread.cons rfl (by simp [Event.fdEffect]) (usesLive_of_entry hentry' rfl) ?_
      intro fd' ssl' bytes' actions' heq
      cases heq
      exact ⟨ssl, s.log, hentry.address, by rw [hentry.address], hentry.setUp,
        hentry.done hcompleted⟩
    simp only [perform, subscript, hclient]
    split
    · exact fun _ => (hreceived []).sublist (List.nil_sublist _)
    · next wsRoutes actions hperform =>
      intro hown
      exact (hreceived actions).acts (hentry'.cons rfl) rfl (performRequest_ends hperform)
        a.closers hown
  · exact fun _ => hread.tail
  · exact fun _ => hread.fail

theorem safe_client (srv : Server W) {s : State W} (a : Answer W) {fd : Int}
    {todo deadClients : List Int}
    (h : Safe s.store (fd :: (todo.filter (· ≠ s.sockfd) ++ deadClients))) :
    Throughout Own (handleClientSocket srv s a fd todo deadClients).log →
      (handleClientSocket srv s a fd todo deadClients).OnCourse := by
  unfold handleClientSocket
  split
  · exact fun _ => h.tail
  · next client hclient =>
    obtain ⟨ssl, hentry⟩ := h.coming fd (List.mem_cons_self ..) client hclient
    split
    · next hcompleted => exact safe_read srv a hclient hentry hcompleted h
    · have hwaiting : Safe ⟨s.sslClients, .sslAccept client.ssl false :: s.log⟩
          (fd :: (todo.filter (· ≠ s.sockfd) ++ deadClients)) :=
        h.cons rfl (by simp [Event.fdEffect]) (usesLive_of_entry hentry rfl)
          (shaken_of_ne (by simp))
      split
      · let s' : State W :=
          {s with
            sslClients := s.sslClients.insert fd {client with handshakeCompleted := true}
            log := .sslAccept client.ssl true :: s.log}
        have hclient' : s'.sslClients.lookup fd = some {client with handshakeCompleted := true} :=
          Finmap.lookup_insert _
        have hentry' : Entry s'.log fd {client with handshakeCompleted := true} ssl :=
          Entry.complete hentry
        exact safe_read srv (s := s') a hclient' hentry' rfl (Safe.complete h hentry)
      · exact fun _ => hwaiting.tail
      · exact fun _ => hwaiting.fail

/-- What `poll` reports is open. -/
theorem safe_poll {s : State W} (h : Safe s.store []) (listening : Bool) (clients : List Int) :
    Safe s.store (pending s.sockfd (.pass ((if listening then [s.sockfd] else []) ++
      readyClients s clients) [])) := by
  refine ⟨h.opened, fun fd hfd => ?_, ?_, h.uses, h.shaken⟩
  · rw [pending, List.append_nil] at hfd
    have hmem := List.mem_filter.mp hfd
    have hne : fd ≠ s.sockfd := of_decide_eq_true hmem.2
    have hready : fd ∈ readyClients s clients := by
      refine (List.mem_append.mp hmem.1).resolve_left fun hlistening => ?_
      split at hlistening
      · exact hne (List.mem_singleton.mp hlistening)
      · cases hlistening
    have hopen := (List.mem_filter.mp (List.mem_dedup.mp hready)).2
    rw [Bool.and_eq_true] at hopen
    exact h.opened fd hopen.2
  · rw [pending, List.append_nil, List.filter_append]
    have hlistening : (if listening then [s.sockfd] else []).filter (· ≠ s.sockfd) = [] := by
      split <;> simp
    rw [hlistening, List.nil_append]
    exact (List.nodup_dedup _).filter _

theorem safe_listen {s : State W} {due : List Int} (h : Safe s.store due) (a : Answer W) :
    Safe (handleListenSocket s a).store due := by
  unfold handleListenSocket
  split
  · exact h
  · next fd hfd =>
    have hfree := (Option.filter_eq_some_iff.mp hfd).2
    rw [decide_eq_true_eq] at hfree
    split
    · next ssl hssl =>
      exact h.accept hfree.1 (of_decide_eq_true (Option.filter_eq_some_iff.mp hssl).2)
    · exact h.refuse fd

theorem safe_turn (srv : Server W) (s : State W) (a : Answer W) (h : s.OnCourse) :
    Throughout Own (turn srv s a).log → (turn srv s a).OnCourse := by
  unfold State.OnCourse at h
  unfold turn
  split
  · next hhead =>
    rw [hhead] at h
    split
    · split
      · exact fun _ => safe_poll h _ _
      · intro _
        unfold State.OnCourse
        rw [hhead]
        exact h
    · exact fun _ => h
  · next fd todo deadClients hpass =>
    rw [hpass] at h
    split
    · next heq =>
      intro _
      have hsame : (handleListenSocket s a).sockfd = s.sockfd := by
        unfold handleListenSocket
        split
        · rfl
        · split <;> rfl
      have hlisten := safe_listen h a
      rw [pending, List.filter_cons_of_neg (by simp [heq])] at hlisten
      unfold State.OnCourse
      rw [pending, hsame]
      exact hlisten
    · next hne =>
      rw [pending, List.filter_cons_of_pos (by simpa using hne)] at h
      exact safe_client srv a h
  · next hpass =>
    rw [hpass] at h
    exact fun _ => h
  · next fd deadClients hcleanup =>
    rw [hcleanup] at h
    intro _
    unfold State.OnCourse closeClient
    split
    · exact h.tail
    · next client hclient => exact h.release hclient
  · next hcleanup =>
    rw [hcleanup] at h
    exact fun _ => h
  · next hended =>
    intro _
    unfold State.OnCourse
    rw [hended] at h ⊢
    exact h

theorem safe_run (srv : Server W) {s : State W} (h : s.OnCourse) (answers : List (Answer W))
    (hown : Throughout Own (run (turn srv) s answers).log) : (run (turn srv) s answers).OnCourse := by
  induction answers generalizing s with
  | nil => exact h
  | cons a rest ih =>
    have hrun : runLoop srv (turn srv s a) (rest.map .turn) = run (turn srv) (turn srv s a) rest :=
      run_map Input.turn (turn srv s a) rest
    have hsuffix : (turn srv s a).log <:+ (run (turn srv) (turn srv s a) rest).log := by
      rw [← hrun]
      exact suffix_run srv (turn srv s a) (rest.map .turn)
    exact ih (safe_turn srv s a h (own_of_suffix hown hsuffix)) hown

/-- **The loop comes to no session that is gone**: until `stop` is called, and as long as handlers
close no `WebSocket` but the one they are called with, and that once, `SSL_accept`, `SSL_read`, the
requests and their answers and `SSL_free` get an `SSL` that is there, no session is freed twice,
and what is handled as a request was read just before from a session that has completed its
handshake and was set up for the descriptor the request is handled for. -/
theorem loop_sessions_live (srv : Server W) (wsRoutes : List (WsRoute W))
    (answers : List (Answer W))
    (hown : Throughout Own (run (turn srv) (State.initial srv wsRoutes) answers).log) :
    Throughout UsesLive (run (turn srv) (State.initial srv wsRoutes) answers).log ∧
      (∀ c, closeCalls Event.sslEffect c
        (run (turn srv) (State.initial srv wsRoutes) answers).log ≤ 1) ∧
      Throughout Shaken (run (turn srv) (State.initial srv wsRoutes) answers).log := by
  have hinitial : Safe (State.initial srv wsRoutes).store [] := by
    refine ⟨fun fd hfd => ?_, fun fd hfd => ?_, List.nodup_nil, .nil, .nil⟩
    · cases hfd
    · cases hfd
  have h : (run (turn srv) (State.initial srv wsRoutes) answers).OnCourse :=
    safe_run srv hinitial answers hown
  exact ⟨h.uses, closeCalls_le_one (noStray_of_usesLive h.uses), h.shaken⟩

/-- A handler that closes the `WebSocket` it is called with. -/
def closingRegistration : List (Bytes × WsHandler Unit) :=
  [(text "/ws", fun _ ws => [ws.frame.sockfd])]

/-- The client is accepted, makes its handshakes and is hung up, and the next one gets the
descriptor and the address. -/
def hangUpAnswers : List (Answer Unit) :=
  [{Answer.nothing with poll := .ready true []},
    {Answer.nothing with accept := some 5, sslNew := some 100}, Answer.nothing, Answer.nothing,
    {Answer.nothing with poll := .ready false [5]},
    {Answer.nothing with
      sslAccept := .completed
      sslRead := .data ⟨handshakeWs.val, by decide +kernel⟩
      closers := [some 100]}, Answer.nothing, Answer.nothing,
    {Answer.nothing with poll := .ready true [5]},
    {Answer.nothing with accept := some 5, sslNew := some 100}]

theorem loop_sessions_live_hangUp :
    closeCalls Event.sslEffect 0
        (run (turn bareServer) (State.initial bareServer (wsRoutesOf closingRegistration))
          hangUpAnswers).log = 1 ∧
      Throughout UsesLive
        (run (turn bareServer) (State.initial bareServer (wsRoutesOf closingRegistration))
          hangUpAnswers).log := by
  refine ⟨?_, (loop_sessions_live bareServer (wsRoutesOf closingRegistration) hangUpAnswers ?_).1⟩
  · decide +kernel
  · decide +kernel

end HttpServer.SSLServer
