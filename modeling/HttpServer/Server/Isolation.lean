import HttpServer.Router.Routes
import HttpServer.Server.Step

/-! Whose descriptors the loop closes.

Between two passes the client list is the set of open descriptors, and inside a
pass it is those and the ones closed in it; each entry still to be handled is
held by the connection it was polled for (`InPass`). One kind of step breaks
this: a Close frame has its descriptor closed and left in the list, so that a
later pass handles it once more, by then perhaps for somebody else. -/
namespace HttpServer
open Lib Lib.Tenure Lib.Runs

variable {W : Type}

/-! ### The property -/

/-- A shutdown or a close by the server is on the descriptor of the connection whose
event or frame is being handled, and that connection has it. -/
def OnOwn (older : List Event) : Event → Prop
  | .shutdown fd owner | .close fd owner => owner.isSome ∧ connection older fd = owner
  | _ => True

instance (older : List Event) : (e : Event) → Decidable (OnOwn older e)
  | .shutdown fd owner => inferInstanceAs (Decidable (owner.isSome ∧ connection older fd = owner))
  | .close fd owner => inferInstanceAs (Decidable (owner.isSome ∧ connection older fd = owner))
  | .accept _ | .handlerClose _ | .received _ _ _ _ => isTrue trivial

/-- No handler closes, and the server closes on its own only. -/
def Tidy (older : List Event) (e : Event) : Prop := OnOwn older e ∧ ∀ fd, e ≠ .handlerClose fd

theorem noStray_of_tidy {log : List Event} (h : Throughout Tidy log) :
    NoStray Event.effect log := by
  induction h with
  | nil => trivial
  | @cons e older he _ ih =>
    refine ⟨fun fd hfd => ?_, ih⟩
    obtain ⟨hown, hquiet⟩ := he
    cases e with
    | close fd' owner =>
      obtain rfl : fd' = fd := by simpa [Event.effect] using hfd
      show (connection older fd').isSome = true
      rw [hown.2]
      exact hown.1
    | handlerClose fd' => exact absurd rfl (hquiet fd')
    | accept => cases hfd
    | shutdown => cases hfd
    | received => cases hfd

/-! ### The invariant -/

/-- The entries still to be handled: different descriptors, none of them the
listening one, each with the connection it was polled for. -/
structure Clients (srv : Server W) (log : List Event) (clients : List Polled) : Prop where
  distinct : (clients.map Polled.fd).Nodup
  held : ∀ p ∈ clients, p.fd ≠ srv.sockfd ∧ p.owner.isSome ∧ connection log p.fd = p.owner

/-- Inside a pass. The listening socket, if it is still to come, comes first. -/
structure InPass (srv : Server W) (s : State W) (todo : List Polled) (closedSockets : List Int) :
    Prop where
  listed : ∀ fd, fd ∈ s.clientList ↔ (connection s.log fd).isSome ∨ fd ∈ closedSockets
  gone : ∀ fd ∈ closedSockets, connection s.log fd = none
  order : Clients srv s.log todo ∨
    ∃ p clients, todo = p :: clients ∧ p.fd = srv.sockfd ∧ closedSockets = [] ∧
      Clients srv s.log clients

def Consistent (srv : Server W) (s : State W) : Prop :=
  match s.control with
  | .head => ∀ fd, fd ∈ s.clientList ↔ (connection s.log fd).isSome
  | .pass todo closedSockets => InPass srv s todo closedSockets
  | .ended _ => True

structure Orderly (srv : Server W) (s : State W) : Prop where
  listening : connection s.log srv.sockfd = none
  tidy : Throughout Tidy s.log
  consistent : Consistent srv s

/-- No Close frame is received. -/
def NoCloseFrame (srv : Server W) (s : State W) (a : Answer W) : Prop :=
  ∀ fd conn bytes, receiving srv s a = some (fd, conn, bytes) →
    s.wsRoutes = [] ∨ getWebSocketFrame bytes ≠ some WsOpcode.close

/-- No hook and no handler that is called closes a descriptor. -/
def NoHandlerCloses (srv : Server W) (s : State W) (a : Answer W) : Prop :=
  ∀ fd conn bytes, receiving srv s a = some (fd, conn, bytes) →
    ∀ wsRoutes actions, srv.performRequest a.env s.wsRoutes fd bytes = .ok (wsRoutes, actions) →
      ∀ fd', Action.handlerClose fd' ∉ actions

/-- The rule of the good runs. -/
structure ClosesNothing (srv : Server W) (s : State W) (a : Answer W) : Prop where
  frame : NoCloseFrame srv s a
  handlers : NoHandlerCloses srv s a

/-- Where all handlers are quiet, the frames are all there is to see to. -/
theorem closesNothing_of_quiet {srv : Server W} (hq : srv.Quiet) {s : State W}
    (hr : QuietRoutes s.wsRoutes) {answers : List (Answer W)}
    (hn : Along (step srv) (NoCloseFrame srv) s answers) :
    Along (step srv) (ClosesNothing srv) s answers := by
  induction answers generalizing s with
  | nil => trivial
  | cons a answers ih =>
    refine ⟨⟨hn.1, fun fd conn bytes _ wsRoutes actions hperf => ?_⟩,
      ih (hr.of_fixed (step_fixed srv s a)) hn.2⟩
    exact Server.performRequest_quiet hq hr hperf

theorem Clients.tail {srv : Server W} {log : List Event} {p : Polled} {clients : List Polled}
    (h : Clients srv log (p :: clients)) : Clients srv log clients :=
  ⟨(List.nodup_cons.mp h.distinct).2, fun q hq => h.held q (List.mem_cons_of_mem _ hq)⟩

/-- The entry to be handled is a client's, unless it is the listening socket's. -/
theorem InPass.client {srv : Server W} {s : State W} {p : Polled} {todo : List Polled}
    {closedSockets : List Int} (h : InPass srv s (p :: todo) closedSockets)
    (hp : p.fd ≠ srv.sockfd) : Clients srv s.log (p :: todo) := by
  rcases h.order with h | ⟨p', clients, heq, hp', _, _⟩
  · exact h
  · cases heq
    exact absurd hp' hp

theorem InPass.listen {srv : Server W} {s : State W} {p : Polled} {todo : List Polled}
    {closedSockets : List Int} (h : InPass srv s (p :: todo) closedSockets)
    (hp : p.fd = srv.sockfd) : closedSockets = [] ∧ Clients srv s.log todo := by
  rcases h.order with h | ⟨p', clients, heq, _, hclosed, hclients⟩
  · exact absurd hp (h.held p (List.mem_cons_self ..)).1
  · cases heq
    exact ⟨hclosed, hclients⟩

theorem InPass.tail {srv : Server W} {s : State W} {p : Polled} {todo : List Polled}
    {closedSockets : List Int} (h : InPass srv s (p :: todo) closedSockets) :
    Clients srv s.log todo := by
  by_cases hp : p.fd = srv.sockfd
  · exact (h.listen hp).2
  · exact (h.client hp).tail

/-! ### Steps -/

theorem pollClient_fd (log : List Event) (revents : Int → UInt16) (fd : Int) :
    (pollClient log revents fd).fd = fd := by
  unfold pollClient
  split <;> rfl

theorem pollClient_owner (log : List Event) (revents : Int → UInt16) (fd : Int) :
    (pollClient log revents fd).owner = connection log fd := by
  unfold pollClient
  split
  · next h => exact h.symm
  · next h => exact h.symm

/-- What `poll` is given is the listening socket and every open connection once. -/
theorem pollAll_inPass {srv : Server W} {s : State W} (h : Orderly srv s) (hc : s.control = .head)
    (revents : Int → UInt16) :
    InPass srv {s with control := .pass (pollAll srv s revents) []} (pollAll srv s revents) [] := by
  have hlist : ∀ fd, fd ∈ s.clientList ↔ (connection s.log fd).isSome := by
    have := h.consistent
    rwa [Consistent, hc] at this
  refine ⟨fun fd => by simp [hlist fd], fun fd hfd => absurd hfd List.not_mem_nil,
    .inr ⟨_, _, rfl, rfl, rfl, ?_, ?_⟩⟩
  · have hfds : (s.clientList.toList.map (pollClient s.log revents)).map Polled.fd =
        s.clientList.toList := by
      simp [Function.comp_def, pollClient_fd]
    rw [hfds]
    exact s.clientList.nodup
  · intro p hp
    obtain ⟨fd, hfd, rfl⟩ := List.mem_map.mp hp
    have hopen := (hlist fd).mp hfd
    rw [pollClient_fd, pollClient_owner]
    refine ⟨fun heq => ?_, hopen, rfl⟩
    rw [heq, h.listening] at hopen
    cases hopen

theorem finished_consistent {srv : Server W} {s : State W} {closedSockets : List Int}
    (h : InPass srv s [] closedSockets) (fd : Int) :
    fd ∈ s.clientList.eraseIf (fun fd => decide (fd ∈ closedSockets)) ↔
      (connection s.log fd).isSome := by
  rw [OrderedSet.mem_eraseIf, h.listed fd, decide_eq_false_iff_not]
  constructor
  · intro hmem
    exact hmem.1.resolve_right hmem.2
  · intro hopen
    refine ⟨.inl hopen, fun hclosed => ?_⟩
    rw [h.gone fd hclosed] at hopen
    cases hopen

/-- Inside a pass, before anything is closed in it. -/
structure Accepting (srv : Server W) (todo : List Polled) (s : State W) : Prop where
  listening : connection s.log srv.sockfd = none
  tidy : Throughout Tidy s.log
  listed : ∀ fd, fd ∈ s.clientList ↔ (connection s.log fd).isSome
  clients : Clients srv s.log todo

/-- Accepting a free descriptor disturbs no entry of the pass. -/
theorem Accepting.acceptOne {srv : Server W} {todo : List Polled} (s : State W) (fd : Int)
    (h : Accepting srv todo s) (_ : True) (hfd : fd ≠ srv.sockfd)
    (hfree : connection s.log fd = none) :
    Accepting srv todo (acceptOne s fd) := by
  refine ⟨?_, .cons ⟨trivial, nofun⟩ h.tidy, fun fd' => ?_, h.clients.distinct, fun p hp => ?_⟩
  · simp [HttpServer.acceptOne, Ne.symm hfd, h.listening]
  · simp only [HttpServer.acceptOne, OrderedSet.mem_insert, connection_accept, h.listed fd']
    by_cases heq : fd' = fd <;> simp [heq]
  · obtain ⟨hne, howner, hheld⟩ := h.clients.held p hp
    have hother : p.fd ≠ fd := by
      intro heq
      rw [← hheld, heq, hfree] at howner
      cases howner
    exact ⟨hne, howner, by simp [HttpServer.acceptOne, hother, hheld]⟩

/-- Closing the entry's descriptor closes it for the connection it was polled for. -/
theorem dropped_inPass {srv : Server W} {s : State W} {p : Polled} {todo : List Polled}
    {closedSockets : List Int} (h : InPass srv s (p :: todo) closedSockets)
    (hp : p.fd ≠ srv.sockfd) :
    InPass srv (dropClient s p todo closedSockets) todo (closedSockets ++ [p.fd]) := by
  have hclients := h.client hp
  obtain ⟨_, howner, hheld⟩ := hclients.held p (List.mem_cons_self ..)
  have hdistinct := List.nodup_cons.mp hclients.distinct
  refine ⟨fun fd => ?_, fun fd hfd => ?_, .inl ⟨hdistinct.2, fun q hq => ?_⟩⟩
  · simp only [dropClient, connection_close, connection_shutdown, h.listed fd, List.mem_append,
      List.mem_singleton]
    by_cases heq : fd = p.fd
    · simp [heq, hheld, howner]
    · simp [heq]
  · simp only [dropClient, connection_close, connection_shutdown]
    rcases List.mem_append.mp hfd with hfd | hfd
    · rw [h.gone fd hfd]
      exact ite_self _
    · rw [if_pos (List.mem_singleton.mp hfd)]
  · obtain ⟨hne, hqowner, hqheld⟩ := hclients.held q (List.mem_cons_of_mem _ hq)
    have hother : q.fd ≠ p.fd := by
      intro heq
      exact hdistinct.1 (heq ▸ List.mem_map.mpr ⟨q, hq, rfl⟩)
    refine ⟨hne, hqowner, ?_⟩
    simp [dropClient, hother, hqheld]

theorem orderly_step {srv : Server W} (s : State W) (a : Answer W) (h : Orderly srv s)
    (hn : ClosesNothing srv s a) : Orderly srv (step srv s a) := by
  have hpass : ∀ todo closedSockets, s.control = .pass todo closedSockets →
      InPass srv s todo closedSockets := by
    intro todo closedSockets hc
    have := h.consistent
    rwa [Consistent, hc] at this
  have hstep := step_cases srv s a
  generalize step srv s a = s' at hstep ⊢
  cases hstep with
  | still => exact h
  | halted fault => exact ⟨h.listening, h.tidy, trivial⟩
  | polled revents hc => exact ⟨h.listening, h.tidy, pollAll_inPass h hc revents⟩
  | finished closedSockets hc =>
    exact ⟨h.listening, h.tidy, finished_consistent (hpass _ _ hc)⟩
  | skipped p todo closedSockets hc =>
    have hin := hpass _ _ hc
    exact ⟨h.listening, h.tidy, hin.listed, hin.gone, .inl hin.tail⟩
  | listened p todo closedSockets hc hp =>
    have hin := hpass _ _ hc
    obtain ⟨rfl, hclients⟩ := hin.listen hp
    have hlist : ∀ fd, fd ∈ s.clientList ↔ (connection s.log fd).isSome := by
      simpa using hin.listed
    have hall : Accepting srv todo ((accepting srv s a).foldl acceptOne s) :=
      accepting_induction Accepting.acceptOne a ⟨h.listening, h.tidy, hlist, hclients⟩
        fun _ _ => trivial
    exact ⟨hall.listening, hall.tidy, fun fd => by simp [hall.listed fd],
      fun fd hfd => absurd hfd List.not_mem_nil, .inl hall.clients⟩
  | dropped p todo closedSockets hc hp =>
    have hin := hpass _ _ hc
    have hheld := (hin.client hp).held p (List.mem_cons_self ..)
    refine ⟨?_, .cons ⟨hheld.2, nofun⟩ (.cons ⟨hheld.2, nofun⟩ h.tidy),
      dropped_inPass hin hp⟩
    simp [dropClient, Ne.symm hp, h.listening]
  | faulted p todo closedSockets hc conn bytes hconn hr fault hperf =>
    exact ⟨h.listening, .cons ⟨trivial, nofun⟩ h.tidy, trivial⟩
  | performed p todo closedSockets hc hp conn bytes hconn hr wsRoutes actions hperf =>
    have hin := hpass _ _ hc
    have hkeeps := logActions_keeps (fun act hact fd =>
      ⟨fun heq => Server.performRequest_close (hn.frame _ _ _ hr) hperf fd (heq ▸ hact),
        fun heq => hn.handlers _ _ _ hr _ _ hperf fd (heq ▸ hact)⟩) conn
      (.received p.fd conn bytes actions :: s.log)
    have htail := hin.tail
    rw [hkeeps]
    exact ⟨h.listening, .cons ⟨trivial, nofun⟩ h.tidy, hin.listed, hin.gone,
      .inl ⟨htail.distinct, htail.held⟩⟩

/-! ### Runs -/

theorem orderly_initial (srv : Server W) (wsRoutes : List (WsRoute W)) :
    Orderly srv (State.initial wsRoutes) :=
  ⟨rfl, .nil, fun fd => by simp [State.initial, holder]⟩

theorem orderly_run {srv : Server W} {wsRoutes : List (WsRoute W)} {answers : List (Answer W)}
    (hn : Along (step srv) (ClosesNothing srv) (State.initial wsRoutes) answers) :
    Orderly srv (runLoop srv (State.initial wsRoutes) answers) :=
  invariant_run orderly_step (orderly_initial srv wsRoutes) hn

/-- A server whose routes all close nothing, and without hooks. -/
theorem quiet_of_calls {srv : Server W} {calls : List (Router.Call (RequestHandler W))}
    (hrouter : srv.router = Router.ofCalls calls)
    (hcalls : ∀ c ∈ calls, RequestHandler.Quiet c.handler)
    (hpre : srv.preRoutingHandler = none) (hpost : srv.postRoutingHandler = none) :
    srv.Quiet := by
  refine ⟨fun req handler hm => ?_, by simp [hpre], by simp [hpost]⟩
  rw [hrouter, Router.matchRequest_handler] at hm
  obtain ⟨c, hc, rfl⟩ := Option.map_eq_some_iff.mp hm
  obtain ⟨τ, _, hfind⟩ := Option.bind_eq_some_iff.mp hc
  exact hcalls c (List.mem_of_find?_eq_some hfind)

theorem bareServer_quiet : bareServer.Quiet :=
  @quiet_of_calls _ bareServer [] rfl (fun _ hc => absurd hc List.not_mem_nil) rfl rfl

/-- **Without Close frames, and without handlers that close, the loop closes its own connections
only**, and each of them once. -/
theorem loop_closes_its_own (srv : Server W) (wsRoutes : List (WsRoute W))
    (answers : List (Answer W))
    (hn : Along (step srv) (ClosesNothing srv) (State.initial wsRoutes) answers) :
    Throughout OnOwn (runLoop srv (State.initial wsRoutes) answers).log ∧
    ∀ conn,
      closeCalls Event.effect conn (runLoop srv (State.initial wsRoutes) answers).log ≤ 1 := by
  have h := (orderly_run hn).tidy
  exact ⟨h.mono fun _ _ he => he.1, closeCalls_le_one (noStray_of_tidy h)⟩

/-- One WebSocket route, whose handler does nothing. -/
def wsRoutesOne : List (WsRoute Unit) := setWsRoute (text "/ws") (fun _ _ => []) []

theorem wsRoutesOne_quiet : QuietRoutes wsRoutesOne := by
  intro r hr world ws
  rw [List.mem_singleton.mp hr]

def plainGet : Chunk := ⟨text "GET / HTTP/1.1\r\n\r\n", by decide⟩

/-- A client that sends a request and hangs up. -/
def heardThenGone : List (Answer Unit) :=
  [.ready 3 pollIn, .accept [5], .nothing, .ready 5 pollIn, .nothing,
    .data plainGet, .nothing, .ready 5 pollHup, .nothing, .nothing]

theorem loop_closes_its_own_hangup : closeCalls Event.effect 0
    (runLoop bareServer (State.initial wsRoutesOne) heardThenGone).log ≤ 1 := by
  refine (loop_closes_its_own bareServer wsRoutesOne heardThenGone
    (closesNothing_of_quiet bareServer_quiet wsRoutesOne_quiet
      ⟨of_wouldBlock rfl, of_wouldBlock rfl, of_wouldBlock rfl, of_wouldBlock rfl,
        of_wouldBlock rfl, fun fd conn bytes hr => ?_, of_wouldBlock rfl, of_wouldBlock rfl,
        of_wouldBlock rfl, of_wouldBlock rfl, trivial⟩)).2 0
  cases hr.symm.trans (show _ = some (5, 0, plainGet.val) by decide +kernel)
  exact .inr (by decide +kernel)

/-- A Close frame leaves its descriptor in the list; when the number is handed out
again, the stale entry closes the new connection. -/
theorem close_frame_hits_the_next :
    ¬ ∀ (srv : Server Unit) (wsRoutes : List (WsRoute Unit)) (answers : List (Answer Unit)),
      srv.Quiet → QuietRoutes wsRoutes →
      Throughout OnOwn (runLoop srv (State.initial wsRoutes) answers).log ∧
      ∀ conn,
        closeCalls Event.effect conn (runLoop srv (State.initial wsRoutes) answers).log ≤ 1 := by
  intro h
  have hown := (h bareServer wsRoutesOne
    [.ready 3 pollIn, .accept [5], .nothing,
      .ready 5 pollIn, .nothing, .data ⟨[0x88, 0x00], by decide⟩, .nothing,
      .ready 3 pollIn, .accept [5], .nothing]
    bareServer_quiet wsRoutesOne_quiet).1
  revert hown
  decide

/-- Without WebSocket routes there is nothing for a Close frame to be. -/
theorem noCloseFrame_plain (srv : Server W) (answers : List (Answer W)) :
    Along (step srv) (NoCloseFrame srv) (State.initial []) answers := by
  have hstep : ∀ (s : State W) (a : Answer W), s.wsRoutes = [] → (step srv s a).wsRoutes = [] := by
    intro s a hs
    have hfix := step_fixed srv s a
    rw [hs, List.map_nil, List.map_eq_nil_iff] at hfix
    exact hfix
  refine Along.of_invariant hstep (fun s a hs => ?_) rfl answers
  intro fd conn bytes hr
  exact .inl hs

/-- **The client list of a plain server** is, whenever the loop is at its head, the
set of accepted and not yet closed descriptors, and no connection is closed twice. -/
theorem clientList_exact (srv : Server W) (hq : srv.Quiet) (answers : List (Answer W)) :
    ((runLoop srv (State.initial []) answers).control = .head →
      ∀ fd, fd ∈ (runLoop srv (State.initial []) answers).clientList ↔
        (connection (runLoop srv (State.initial []) answers).log fd).isSome) ∧
    ∀ conn, closeCalls Event.effect conn (runLoop srv (State.initial []) answers).log ≤ 1 := by
  have h := orderly_run (closesNothing_of_quiet (s := State.initial []) hq
    (fun r hr => absurd hr List.not_mem_nil) (noCloseFrame_plain srv answers))
  refine ⟨fun hc => ?_, closeCalls_le_one (noStray_of_tidy h.tidy)⟩
  have hlist := h.consistent
  rwa [Consistent, hc] at hlist

/-- Two connections, of which the first hangs up; its number is handed out again. -/
def numberReused : List (Answer Unit) :=
  [.ready 3 pollIn, .accept [5, 6], .nothing, .ready 5 pollHup, .nothing, .nothing, .nothing,
    .nothing, .ready 3 pollIn, .accept [5], .nothing, .nothing, .nothing]

theorem clientList_exact_reuse :
    5 ∈ (runLoop bareServer (State.initial []) numberReused).clientList ↔
      (connection (runLoop bareServer (State.initial []) numberReused).log 5).isSome :=
  (clientList_exact bareServer bareServer_quiet numberReused).1 rfl 5

end HttpServer
