import HttpServer.Server.Loop
import HttpServer.Server.Perform

/-! What one step of the loop can do (`step_cases`), and what it takes in: the
descriptors it accepts (`accepting`) and the bytes it hands to `performRequest`
(`receiving`). Every invariant of a run is read off the cases. -/
namespace HttpServer
open Lib Lib.Tenure Lib.Runs

variable {W : Type}

/-- The descriptors accepted in this step. -/
def accepting (srv : Server W) (s : State W) (a : Answer W) : List Int :=
  match s.control with
  | .pass (p :: _) _ =>
    if p.fd = srv.sockfd ∧ p.revents &&& pollIn ≠ 0 then handedOut srv s.log a.accepts else []
  | _ => []

/-- The descriptor, the connection and the bytes handled as a request in this step. -/
def receiving (srv : Server W) (s : State W) (a : Answer W) : Option (Int × Nat × Bytes) :=
  match s.control with
  | .pass (p :: _) _ =>
    if p.fd = srv.sockfd ∨ p.revents &&& (pollErr ||| pollHup ||| pollNval) ≠ 0 ∨
        p.revents &&& pollIn = 0 then none
    else
      match connection s.log p.fd, a.recv with
      | some conn, .data bytes =>
        if 0 < bytes.val.length then some (p.fd, conn, bytes.val) else none
      | _, _ => none
  | _ => none

inductive Stepped (srv : Server W) (s : State W) (a : Answer W) : State W → Prop
  | still : Stepped srv s a s
  | halted (fault : Option Fault) : Stepped srv s a {s with control := .ended fault}
  | polled (revents : Int → UInt16) (hc : s.control = .head) :
    Stepped srv s a {s with control := .pass (pollAll srv s revents) []}
  | finished (closedSockets : List Int) (hc : s.control = .pass [] closedSockets) :
    Stepped srv s a {s with
      clientList := s.clientList.eraseIf fun fd => decide (fd ∈ closedSockets)
      control := .head}
  | skipped (p : Polled) (todo : List Polled) (closedSockets : List Int)
    (hc : s.control = .pass (p :: todo) closedSockets) :
    Stepped srv s a {s with control := .pass todo closedSockets}
  | listened (p : Polled) (todo : List Polled) (closedSockets : List Int)
    (hc : s.control = .pass (p :: todo) closedSockets) (hp : p.fd = srv.sockfd) :
    Stepped srv s a
      {(accepting srv s a).foldl acceptOne s with control := .pass todo closedSockets}
  | dropped (p : Polled) (todo : List Polled) (closedSockets : List Int)
    (hc : s.control = .pass (p :: todo) closedSockets) (hp : p.fd ≠ srv.sockfd) :
    Stepped srv s a (dropClient s p todo closedSockets)
  | faulted (p : Polled) (todo : List Polled) (closedSockets : List Int)
    (hc : s.control = .pass (p :: todo) closedSockets) (conn : Nat) (bytes : Bytes)
    (hconn : connection s.log p.fd = some conn)
    (hr : receiving srv s a = some (p.fd, conn, bytes)) (fault : Fault)
    (hperf : srv.performRequest a.env s.wsRoutes p.fd bytes = .error fault) :
    Stepped srv s a {s with
      control := .ended (some fault)
      log := .received p.fd conn bytes [] :: s.log}
  | performed (p : Polled) (todo : List Polled) (closedSockets : List Int)
    (hc : s.control = .pass (p :: todo) closedSockets) (hp : p.fd ≠ srv.sockfd)
    (conn : Nat) (bytes : Bytes) (hconn : connection s.log p.fd = some conn)
    (hr : receiving srv s a = some (p.fd, conn, bytes)) (wsRoutes : List (WsRoute W))
    (actions : List Action)
    (hperf : srv.performRequest a.env s.wsRoutes p.fd bytes = .ok (wsRoutes, actions)) :
    Stepped srv s a {s with
      wsRoutes := wsRoutes
      control := .pass todo closedSockets
      log := logActions conn actions (.received p.fd conn bytes actions :: s.log)}

theorem handleClientSocket_cases (srv : Server W) (s : State W) (a : Answer W) (p : Polled)
    (todo : List Polled) (closedSockets : List Int)
    (hc : s.control = .pass (p :: todo) closedSockets) (hp : p.fd ≠ srv.sockfd) :
    Stepped srv s a (handleClientSocket srv s a p todo closedSockets) := by
  unfold handleClientSocket
  split
  · exact .dropped p todo closedSockets hc hp
  · next herr =>
    split
    · next hin =>
      have hread : ¬ (p.fd = srv.sockfd ∨ p.revents &&& (pollErr ||| pollHup ||| pollNval) ≠ 0 ∨
          p.revents &&& pollIn = 0) := by
        simp only [not_or]
        exact ⟨hp, herr, hin⟩
      split
      · next conn bytes hconn hrecv =>
        split
        · next hlen =>
          have hr : receiving srv s a = some (p.fd, conn, bytes.val) := by
            rw [receiving, hc]
            simp only [hread, if_false, hconn, hrecv, hlen, if_true]
          unfold perform
          split
          · next fault hperf =>
            exact .faulted p todo closedSockets hc conn bytes.val hconn hr fault hperf
          · next wsRoutes actions hperf =>
            exact .performed p todo closedSockets hc hp conn bytes.val hconn hr wsRoutes actions
              hperf
        · exact .dropped p todo closedSockets hc hp
      · exact .skipped p todo closedSockets hc
      · exact .dropped p todo closedSockets hc hp
    · exact .skipped p todo closedSockets hc

theorem handleEntry_cases (srv : Server W) (s : State W) (a : Answer W) (p : Polled)
    (todo : List Polled) (closedSockets : List Int)
    (hc : s.control = .pass (p :: todo) closedSockets) :
    Stepped srv s a (handleEntry srv s a p todo closedSockets) := by
  unfold handleEntry
  split
  · exact .skipped p todo closedSockets hc
  · split
    · next hp =>
      have hacc : handleListenSocket srv s a p = (accepting srv s a).foldl acceptOne s := by
        rw [handleListenSocket, accepting, hc]
        simp only [hp, true_and]
        split <;> rfl
      rw [hacc]
      exact .listened p todo closedSockets hc hp
    · next hp => exact handleClientSocket_cases srv s a p todo closedSockets hc hp

/-- **What a step can do.** -/
theorem step_cases (srv : Server W) (s : State W) (a : Answer W) :
    Stepped srv s a (step srv s a) := by
  unfold step
  split
  · next hc =>
    split
    · exact .polled _ hc
    · exact .still
    · exact .halted none
  · next p todo closedSockets hc => exact handleEntry_cases srv s a p todo closedSockets hc
  · next closedSockets hc => exact .finished closedSockets hc
  · exact .still

/-! ### What the cases have in common -/

/-- What every single accept of a free descriptor preserves, the accept loop preserves. -/
theorem accept_induction {srv : Server W} {Q : State W → Prop} {R : Int → Prop}
    (hone : ∀ s fd, Q s → R fd → fd ≠ srv.sockfd → connection s.log fd = none →
      Q (acceptOne s fd))
    (fds : List Int) {s : State W} (h : Q s) (hr : ∀ fd ∈ handedOut srv s.log fds, R fd) :
    Q ((handedOut srv s.log fds).foldl acceptOne s) := by
  induction fds generalizing s with
  | nil => exact h
  | cons fd rest ih =>
    unfold handedOut at hr ⊢
    split
    · next hfree =>
      rw [if_pos hfree] at hr
      exact ih (hone s fd h (hr fd (List.mem_cons_self ..)) hfree.2.1 hfree.2.2)
        fun fd' hfd' => hr fd' (List.mem_cons_of_mem _ hfd')
    · exact h

/-- The same for a step, where `R` is known of what it accepts. -/
theorem accepting_induction {srv : Server W} {Q : State W → Prop} {R : Int → Prop}
    (hone : ∀ s fd, Q s → R fd → fd ≠ srv.sockfd → connection s.log fd = none →
      Q (acceptOne s fd))
    {s : State W} (a : Answer W) (h : Q s) (hr : ∀ fd ∈ accepting srv s a, R fd) :
    Q ((accepting srv s a).foldl acceptOne s) := by
  unfold accepting at hr ⊢
  split
  · next p _ _ hc =>
    rw [hc] at hr
    split
    · next hp => exact accept_induction hone a.accepts h (by simpa [hp] using hr)
    · exact h
  · exact h

/-- No step changes the paths or the handlers of the WebSocket routes. -/
theorem step_fixed (srv : Server W) (s : State W) (a : Answer W) :
    (step srv s a).wsRoutes.map (fun r => (r.path, r.handler)) =
      s.wsRoutes.map fun r => (r.path, r.handler) := by
  have h := step_cases srv s a
  generalize step srv s a = s' at h ⊢
  cases h with
  | performed p todo closedSockets hc hp conn bytes hconn hr wsRoutes actions hperf =>
    exact Server.performRequest_fixed hperf
  | listened p todo closedSockets hc hp =>
    exact @accepting_induction _ srv
      (fun s' => s'.wsRoutes.map (fun r => (r.path, r.handler)) =
        s.wsRoutes.map fun r => (r.path, r.handler)) (fun _ => True)
      (fun _ _ h _ _ _ => h) s a rfl fun _ _ => trivial
  | _ => rfl

/-- A buffer that is handled came out of one `recv` of an open connection. -/
theorem of_receiving {srv : Server W} {s : State W} {a : Answer W} {fd : Int} {conn : Nat}
    {bytes : Bytes} (h : receiving srv s a = some (fd, conn, bytes)) :
    connection s.log fd = some conn ∧ bytes.length ≤ bufferSize := by
  unfold receiving at h
  split at h
  · split at h
    · cases h
    · split at h
      · next chunk hconn _ =>
        split at h
        · cases h
          exact ⟨hconn, chunk.property⟩
        · cases h
      · cases h
  · cases h

/-- Where `recv` would block nothing is handled, and a rule about what is handled holds. -/
theorem of_wouldBlock {srv : Server W} {s : State W} {a : Answer W} (h : a.recv = .wouldBlock)
    {P : Int → Nat → Bytes → Prop} :
    ∀ fd conn bytes, receiving srv s a = some (fd, conn, bytes) → P fd conn bytes := by
  intro fd conn bytes hr
  unfold receiving at hr
  split at hr
  · split at hr
    · cases hr
    · split at hr
      · next hrecv =>
        rw [h] at hrecv
        cases hrecv
      · cases hr
  · cases hr

/-! ### Who has which descriptor -/

@[simp] theorem connection_accept (log : List Event) (fd fd' : Int) :
    connection (.accept fd :: log) fd' =
      if fd' = fd then some (openings Event.effect log) else connection log fd' := rfl

@[simp] theorem connection_close (log : List Event) (fd fd' : Int) (owner : Option Nat) :
    connection (.close fd owner :: log) fd' = if fd' = fd then none else connection log fd' := rfl

@[simp] theorem connection_shutdown (log : List Event) (fd fd' : Int) (owner : Option Nat) :
    connection (.shutdown fd owner :: log) fd' = connection log fd' := rfl

@[simp] theorem connection_received (log : List Event) (fd fd' : Int) (conn : Nat) (bytes : Bytes)
    (actions : List Action) :
    connection (.received fd conn bytes actions :: log) fd' = connection log fd' := rfl

theorem connection_dropClient (s : State W) (p : Polled) (todo : List Polled)
    (closedSockets : List Int) (fd : Int) :
    connection (dropClient s p todo closedSockets).log fd =
      if fd = p.fd then none else connection s.log fd := rfl

/-- What the actions did to descriptors is no request. -/
theorem logActions_events (conn : Nat) (actions : List Action) (e : Event)
    (he : e ∈ (actions.filterMap (Action.event conn)).reverse) :
    ∃ fd, e = .close fd (some conn) ∨ e = .handlerClose fd := by
  obtain ⟨act, _, hact⟩ := List.mem_filterMap.mp (List.mem_reverse.mp he)
  cases act with
  | close fd =>
    cases hact
    exact ⟨fd, .inl rfl⟩
  | handlerClose fd =>
    cases hact
    exact ⟨fd, .inr rfl⟩
  | _ => cases hact

/-- What takes no notice of close calls takes none of a request's actions. -/
theorem logActions_induction {β : Type} {f : List Event → β}
    (hclose : ∀ fd owner log, f (.close fd owner :: log) = f log)
    (hhandler : ∀ fd log, f (.handlerClose fd :: log) = f log) (conn : Nat)
    (actions : List Action) (log : List Event) : f (logActions conn actions log) = f log := by
  have hskip : ∀ newer : List Event,
      (∀ e ∈ newer, ∃ fd, e = .close fd (some conn) ∨ e = .handlerClose fd) →
      f (newer ++ log) = f log := by
    intro newer hn
    induction newer with
    | nil => rfl
    | cons e newer ih =>
      have hrest := ih fun e' he' => hn e' (List.mem_cons_of_mem _ he')
      obtain ⟨fd, rfl | rfl⟩ := hn e (List.mem_cons_self ..)
      · exact (hclose fd _ _).trans hrest
      · exact (hhandler fd _).trans hrest
  exact hskip _ (logActions_events conn actions)

theorem logActions_opens (conn : Nat) (actions : List Action) (e : Event)
    (he : e ∈ (actions.filterMap (Action.event conn)).reverse) (m : Int) :
    e.effect ≠ .opens m := by
  obtain ⟨fd, rfl | rfl⟩ := logActions_events conn actions e he
  · exact nofun
  · exact nofun

/-- Who has a descriptor after a request had it before. -/
theorem connection_logActions {conn c : Nat} {actions : List Action} {log : List Event} {fd : Int}
    (h : connection (logActions conn actions log) fd = some c) : connection log fd = some c :=
  holder_of_append (logActions_opens conn actions) h

/-- Actions that close nothing leave no trace on the descriptors. -/
theorem logActions_keeps {actions : List Action}
    (h : ∀ act ∈ actions, ∀ fd, act ≠ .close fd ∧ act ≠ .handlerClose fd) (conn : Nat)
    (log : List Event) : logActions conn actions log = log := by
  have hnone : actions.filterMap (Action.event conn) = [] := by
    rw [List.filterMap_eq_nil_iff]
    intro act hact
    cases act with
    | close fd => exact absurd rfl (h _ hact fd).1
    | handlerClose fd => exact absurd rfl (h _ hact fd).2
    | _ => rfl
  rw [logActions, hnone]
  rfl

/-! ### What holds of every entry -/

/-- An entry of something handled as a request. -/
def Event.Handled : Event → Prop
  | .received .. => True
  | _ => False

/-- A property of the entries that says nothing of those that handle nothing is kept by a
step, if it holds of what is handled in it. -/
theorem throughout_step {srv : Server W} {P : List Event → Event → Prop} (s : State W)
    (a : Answer W) (hsilent : ∀ older e, ¬ e.Handled → P older e)
    (hfault : ∀ fd conn bytes fault, receiving srv s a = some (fd, conn, bytes) →
      srv.performRequest a.env s.wsRoutes fd bytes = .error fault →
      P s.log (.received fd conn bytes []))
    (hperform : ∀ fd conn bytes wsRoutes actions, receiving srv s a = some (fd, conn, bytes) →
      srv.performRequest a.env s.wsRoutes fd bytes = .ok (wsRoutes, actions) →
      P s.log (.received fd conn bytes actions))
    (h : Throughout P s.log) : Throughout P (step srv s a).log := by
  have hstep := step_cases srv s a
  generalize step srv s a = s' at hstep ⊢
  cases hstep with
  | listened p todo closedSockets hc hp =>
    exact accepting_induction (Q := fun s' => Throughout P s'.log) (R := fun _ => True)
      (fun s' fd hs' _ _ _ => hs'.cons (hsilent _ _ id)) a h fun _ _ => trivial
  | dropped p todo closedSockets hc hp =>
    exact .cons (hsilent _ _ id) (.cons (hsilent _ _ id) h)
  | faulted p todo closedSockets hc conn bytes hconn hr fault hperf =>
    exact .cons (hfault _ _ _ fault hr hperf) h
  | performed p todo closedSockets hc hp conn bytes hconn hr wsRoutes actions hperf =>
    refine Throughout.append (.cons (hperform _ _ _ wsRoutes actions hr hperf) h)
      fun e he before => ?_
    obtain ⟨fd, rfl | rfl⟩ := logActions_events conn actions e he
    · exact hsilent _ _ id
    · exact hsilent _ _ id
  | _ => exact h

end HttpServer
