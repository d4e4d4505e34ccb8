import HttpServer.SslServer

/-! What a step does to the clients and the log, move by move.

A step makes a few moves, each a call or two of the library and the kernel with what the server
notes about them, and after them a request's actions send, call handlers and close
(`moves_step`). What they preserve as long as the log keeps a rule, a run preserves
as long as its log does (`keeps_run_iff`). -/
namespace HttpServer.SSLServer
open Lib Lib.Tenure Lib.Runs

/-- The clients and the log. -/
structure Store where
  clients : Clients
  log : List Event

/-- One move. -/
inductive Move (sockfd : Int) : Store → Store → Prop
  | accept {s : Store} {fd : Int} {ssl : Nat} (hfd : connection s.log fd = none)
    (hnonneg : 0 ≤ fd) (hne : fd ≠ sockfd) (hssl : session s.log ssl = none) :
    Move sockfd s
      ⟨s.clients.insert fd {fd := fd, ssl := some ssl}, .sslNew ssl fd :: .accept fd :: s.log⟩
  | refuse {s : Store} {fd : Int} (hfd : connection s.log fd = none) :
    Move sockfd s ⟨s.clients, .close fd :: .accept fd :: s.log⟩
  | complete {s : Store} {fd : Int} {client : ClientConnection}
    (hclient : s.clients.lookup fd = some client) :
    Move sockfd s
      ⟨s.clients.insert fd {client with handshakeCompleted := true},
        .sslAccept client.ssl true :: s.log⟩
  | wait {s : Store} {fd : Int} {client : ClientConnection}
    (hclient : s.clients.lookup fd = some client) :
    Move sockfd s ⟨s.clients, .sslAccept client.ssl false :: s.log⟩
  | read {s : Store} {fd : Int} {client : ClientConnection}
    (hclient : s.clients.lookup fd = some client) (hcompleted : client.handshakeCompleted = true) :
    Move sockfd s ⟨s.clients, .sslRead client.ssl :: s.log⟩
  | receive {s : Store} {fd : Int} {client : ClientConnection}
    (hclient : s.clients.lookup fd = some client) (hcompleted : client.handshakeCompleted = true)
    (bytes : Bytes) (actions : List Action) :
    Move sockfd s
      ⟨s.clients, .received fd client.ssl bytes actions :: .sslRead client.ssl :: s.log⟩
  | release {s : Store} {fd : Int} {client : ClientConnection}
    (hclient : s.clients.lookup fd = some client) :
    Move sockfd s ⟨s.clients.erase fd, client.release ++ s.log⟩
  | closeListening {s : Store} : Move sockfd s ⟨s.clients, .closeListening sockfd :: s.log⟩

/-- Some moves one after the other. -/
inductive Moves (sockfd : Int) : Store → Store → Prop
  | none {s : Store} : Moves sockfd s s
  | next {s t u : Store} (h : Moves sockfd s t) (hmove : Move sockfd t u) : Moves sockfd s u

namespace Moves
variable {sockfd : Int} {s t u : Store}

theorem one (h : Move sockfd s t) : Moves sockfd s t := .next .none h

theorem trans (h : Moves sockfd s t) (h' : Moves sockfd t u) : Moves sockfd s u := by
  induction h' with
  | none => exact h
  | next _ hmove ih => exact .next ih hmove

/-- What a move preserves, moves preserve. -/
theorem induction {P : Store → Prop} (hmove : ∀ s t, Move sockfd s t → P s → P t)
    (h : Moves sockfd s t) (hs : P s) : P t := by
  induction h with
  | none => exact hs
  | next _ hm ih => exact hmove _ _ hm ih

end Moves

variable {W : Type}

def State.store (s : State W) : Store := ⟨s.sslClients, s.log⟩

/-- What the actions of a request can leave in the log: its answer written to the session of its
client, a handler called with that, and closes. -/
inductive Acting (clients : Clients) : Event → Prop
  | frame (fd : Int) : Acting clients (.frameClose fd)
  | handler (fd : Int) : Acting clients (.handlerClose fd)
  | hangUp (fd : Int) (ssl : Nat) : Acting clients (.wsClose fd ssl)
  | write {fd : Int} {client : ClientConnection} (hclient : clients.lookup fd = some client) :
    Acting clients (.sslWrite client.ssl)
  | dispatch (fd : Int) (ssl : Option Nat) : Acting clients (.dispatched fd ssl)

theorem closeEvent_cases (log : List Event) (fd : Int) (ssl : Option Nat) :
    closeEvent log fd ssl = .handlerClose fd ∨
      ∃ p, closeEvent log fd ssl = .wsClose fd p ∧ (fd, p) ∈ given log := by
  unfold closeEvent
  split
  · next p hp => exact .inr ⟨p, rfl, of_decide_eq_true (Option.filter_eq_some_iff.mp hp).2⟩
  · exact .inl rfl

/-- The actions of a request of a client. -/
theorem logActions_acting {clients : Clients} {fd : Int} {client : ClientConnection}
    (hclient : clients.lookup fd = some client) (closers : List (Option Nat))
    (actions : List Action) (log : List Event) :
    ∃ newer, logActions fd client.ssl closers actions log = newer ++ log ∧
      ∀ e ∈ newer, Acting clients e := by
  induction actions generalizing closers log with
  | nil => exact ⟨[], rfl, fun e he => absurd he List.not_mem_nil⟩
  | cons action actions ih =>
    have hlogged : ∀ e closers, Acting clients e →
        ∃ newer, logActions fd client.ssl closers actions (e :: log) = newer ++ log ∧
          ∀ e ∈ newer, Acting clients e := by
      intro e closers he
      obtain ⟨newer, hlog, hnewer⟩ := ih closers (e :: log)
      refine ⟨newer ++ [e], by rw [hlog, List.append_assoc, List.singleton_append], ?_⟩
      exact List.forall_mem_append.mpr ⟨hnewer, List.forall_mem_singleton.mpr he⟩
    cases action with
    | dispatch path ws => exact hlogged _ closers (.dispatch fd client.ssl)
    | send message complete => exact hlogged _ closers (.write hclient)
    | close sd => exact hlogged _ closers (.frame sd)
    | handlerClose sd =>
      refine hlogged _ closers.tail ?_
      rcases closeEvent_cases log sd closers.head?.join with heq | ⟨p, heq, _⟩
      · rw [heq]
        exact .handler sd
      · rw [heq]
        exact .hangUp sd p
    | handle req => exact ih closers log
    | upgrade path query bound => exact ih closers log

/-- Moves, and then what a request's actions did. -/
def Acted (sockfd : Int) (s t : Store) : Prop :=
  ∃ u newer, Moves sockfd s u ∧ (∀ e ∈ newer, Acting u.clients e) ∧
    t = ⟨u.clients, newer ++ u.log⟩

theorem Acted.of_moves {sockfd : Int} {s t : Store} (h : Moves sockfd s t) : Acted sockfd s t :=
  ⟨t, [], h, fun _ he => absurd he List.not_mem_nil, rfl⟩

theorem Acted.after {sockfd : Int} {s t u : Store} (h : Moves sockfd s t) (h' : Acted sockfd t u) :
    Acted sockfd s u := by
  obtain ⟨v, newer, hmoves, hnewer, rfl⟩ := h'
  exact ⟨v, newer, h.trans hmoves, hnewer, rfl⟩

/-! ### The moves of a step -/

theorem moves_listen (s : State W) (a : Answer W) :
    Moves s.sockfd s.store (handleListenSocket s a).store := by
  unfold handleListenSocket
  split
  · exact .none
  · next fd hfd =>
    have hfree := (Option.filter_eq_some_iff.mp hfd).2
    rw [decide_eq_true_eq] at hfree
    split
    · next ssl hssl =>
      have hnew := of_decide_eq_true (Option.filter_eq_some_iff.mp hssl).2
      exact .one (.accept hfree.2.2 hfree.1 hfree.2.1 hnew)
    · exact .one (.refuse hfree.2.2)

theorem moves_read (srv : Server W) (s : State W) (a : Answer W) {fd : Int}
    {client : ClientConnection} (hclient : s.sslClients.lookup fd = some client)
    (hcompleted : client.handshakeCompleted = true) (todo deadClients : List Int) :
    Acted s.sockfd s.store (readClient srv s a fd client todo deadClients).store := by
  unfold readClient
  simp only
  split
  · next bytes _ =>
    simp only [perform, subscript, hclient]
    split
    · exact .of_moves (.one (.receive hclient hcompleted bytes.val []))
    · next wsRoutes actions _ =>
      obtain ⟨newer, hlog, hnewer⟩ := logActions_acting hclient a.closers actions
        (.received fd client.ssl bytes.val actions :: .sslRead client.ssl :: s.log)
      refine ⟨_, newer, .one (.receive hclient hcompleted bytes.val actions), hnewer, ?_⟩
      rw [State.store, hlog]
      rfl
  · exact .of_moves (.one (.read hclient hcompleted))
  · exact .of_moves (.one (.read hclient hcompleted))

theorem moves_client (srv : Server W) (s : State W) (a : Answer W) (fd : Int)
    (todo deadClients : List Int) :
    Acted s.sockfd s.store (handleClientSocket srv s a fd todo deadClients).store := by
  unfold handleClientSocket
  split
  · exact .of_moves .none
  · next client hclient =>
    split
    · next hcompleted => exact moves_read srv s a hclient hcompleted todo deadClients
    · split
      · refine .after (.one (.complete hclient)) ?_
        let s' : State W :=
          {s with
            sslClients := s.sslClients.insert fd {client with handshakeCompleted := true}
            log := .sslAccept client.ssl true :: s.log}
        have hclient' : s'.sslClients.lookup fd = some {client with handshakeCompleted := true} :=
          Finmap.lookup_insert _
        exact moves_read srv s' a hclient' rfl todo deadClients
      · exact .of_moves (.one (.wait hclient))
      · exact .of_moves (.one (.wait hclient))

theorem moves_close (sockfd : Int) (s : State W) (fd : Int) :
    Moves sockfd s.store (closeClient s fd).store := by
  unfold closeClient
  split
  · exact .none
  · next client hclient => exact .one (.release hclient)

theorem closeClient_sockfd (s : State W) (fd : Int) : (closeClient s fd).sockfd = s.sockfd := by
  unfold closeClient
  split <;> rfl

theorem moves_closeAll (s : State W) (clients : List Int) :
    Moves s.sockfd s.store (clients.foldl closeClient s).store ∧
      (clients.foldl closeClient s).sockfd = s.sockfd := by
  induction clients generalizing s with
  | nil => exact ⟨.none, rfl⟩
  | cons fd clients ih =>
    obtain ⟨hmoves, hsockfd⟩ := ih (closeClient s fd)
    rw [closeClient_sockfd] at hmoves hsockfd
    exact ⟨(moves_close s.sockfd s fd).trans hmoves, hsockfd⟩

theorem moves_stop (s : State W) (clients : List Int) :
    Moves s.sockfd s.store (stop s clients).store := by
  obtain ⟨hmoves, hsockfd⟩ := moves_closeAll {s with running := false} clients
  simp only [stop]
  split
  · refine hmoves.trans (.one ?_)
    rw [hsockfd]
    exact .closeListening
  · exact hmoves

/-- **A step is made of moves, and of what a request did.** -/
theorem moves_step (srv : Server W) (s : State W) (i : Input W) :
    Acted s.sockfd s.store (step srv s i).store := by
  cases i with
  | stop clients => exact .of_moves (moves_stop s clients)
  | turn a =>
    simp only [step, turn]
    split
    · split
      · split <;> exact .of_moves .none
      · exact .of_moves .none
    · split
      · exact .of_moves (moves_listen s a)
      · exact moves_client srv s a _ _ _
    · exact .of_moves .none
    · exact .of_moves (moves_close s.sockfd s _)
    · exact .of_moves .none
    · exact .of_moves .none

theorem Move.suffix {sockfd : Int} {s t : Store} (hm : Move sockfd s t) : s.log <:+ t.log := by
  cases hm with
  | accept => exact ⟨[_, _], rfl⟩
  | refuse => exact ⟨[_, _], rfl⟩
  | receive => exact ⟨[_, _], rfl⟩
  | release => exact List.suffix_append ..
  | _ => exact List.suffix_cons ..

/-- A step adds to the log. -/
theorem suffix_step (srv : Server W) (s : State W) (i : Input W) :
    s.log <:+ (step srv s i).log := by
  obtain ⟨u, newer, hmoves, _, heq⟩ := moves_step srv s i
  have hu : s.log <:+ u.log :=
    hmoves.induction (P := fun t => s.log <:+ t.log) (fun _ _ hm h => h.trans hm.suffix)
      (List.suffix_refl _)
  have hlog : (step srv s i).log = newer ++ u.log := congrArg Store.log heq
  rw [hlog]
  exact hu.trans (List.suffix_append ..)

theorem suffix_run (srv : Server W) (s : State W) (inputs : List (Input W)) :
    s.log <:+ (runLoop srv s inputs).log := by
  induction inputs generalizing s with
  | nil => exact List.suffix_refl _
  | cons i rest ih => exact (suffix_step srv s i).trans (ih _)

/-- **What each step keeps just when the log says so, runs keep just when the log says so.** The
invariant `P` goes on as long as the rule `R` holds, and `G` is what the rule decides. -/
theorem keeps_run_iff {P G : Store → Prop} {R : List Event → Event → Prop} (srv : Server W)
    (hgood : ∀ s, P s → G s) (hrule : ∀ s, P s → Throughout R s.log)
    (hstep : ∀ (s : State W) (i : Input W), P s.store →
      (G (step srv s i).store ↔ Throughout R (step srv s i).log) ∧
        (Throughout R (step srv s i).log → P (step srv s i).store))
    {s : State W} (h : P s.store) (inputs : List (Input W)) :
    ((∀ past rest, inputs = past ++ rest → G (runLoop srv s past).store) ↔
      Throughout R (runLoop srv s inputs).log) ∧
    (Throughout R (runLoop srv s inputs).log → P (runLoop srv s inputs).store) := by
  induction inputs generalizing s with
  | nil =>
    refine ⟨iff_of_true (fun past rest heq => ?_) (hrule _ h), fun _ => h⟩
    rw [(List.append_eq_nil_iff.mp heq.symm).1]
    exact hgood _ h
  | cons i inputs ih =>
    obtain ⟨hiff, hnext⟩ := hstep s i h
    have hfirst : Throughout R (runLoop srv s (i :: inputs)).log →
        Throughout R (step srv s i).log := by
      intro hall
      obtain ⟨newer, hnewer⟩ := suffix_run srv (step srv s i) inputs
      have hall' : Throughout R (runLoop srv (step srv s i) inputs).log := hall
      rw [← hnewer] at hall'
      exact hall'.of_append
    refine ⟨⟨fun hall => ?_, fun hrules past rest heq => ?_⟩, fun hrules => ?_⟩
    · have hgood' : G (step srv s i).store := hall [i] inputs rfl
      refine (ih (hnext (hiff.mp hgood'))).1.mp fun past rest heq => ?_
      exact hall (i :: past) rest (congrArg _ heq)
    · cases past with
      | nil => exact hgood _ h
      | cons j past =>
        obtain ⟨rfl, hrest⟩ := List.cons.inj heq
        exact (ih (hnext (hfirst hrules))).1.mpr hrules past rest hrest
    · exact (ih (hnext (hfirst hrules))).2 hrules

end HttpServer.SSLServer
