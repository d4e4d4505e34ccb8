import HttpServer.Server.Isolation

/-! One pass of the loop, from the head to the head.

The polled descriptors are gone through once, whatever is answered on the way. Where nothing is
closed behind the loop's back, each client that has sent something is read once and its bytes are
handled, in the order of the descriptors (`pass_serves_all`): nobody waits for another client to
fall silent. -/
namespace HttpServer
open Lib Lib.Tenure Lib.Runs

variable {W : Type}

/-- The requests handled, oldest first: whose they are, and the bytes. -/
def receipts : List Event → List (Nat × Bytes)
  | [] => []
  | .received _ conn bytes _ :: older => receipts older ++ [(conn, bytes)]
  | _ :: older => receipts older

theorem receipts_logActions (conn : Nat) (actions : List Action) (log : List Event) :
    receipts (logActions conn actions log) = receipts log :=
  logActions_induction (fun _ _ _ => rfl) (fun _ _ => rfl) conn actions log

/-- What is due to a client in its turn: what `recv` gets, where there is something to read. -/
def due (p : Polled) (a : Answer W) : Option (Nat × Bytes) :=
  if p.revents &&& (pollErr ||| pollHup ||| pollNval) ≠ 0 ∨ p.revents &&& pollIn = 0 then none
  else
    match p.owner, a.recv with
    | some conn, .data bytes => if 0 < bytes.val.length then some (conn, bytes.val) else none
    | _, _ => none

/-- The pass goes on with the other entries, and this has been handled; or the loop has come to its
end. -/
def Goes (s : State W) (todo : List Polled) (handled : List (Nat × Bytes)) (s' : State W) : Prop :=
  (∃ fault, s'.control = .ended (some fault)) ∨
    (∃ closedSockets, s'.control = .pass todo closedSockets) ∧
      receipts s'.log = receipts s.log ++ handled

/-! ### One entry -/

theorem perform_goes (srv : Server W) (s : State W) (a : Answer W) (fd : Int) (conn : Nat)
    (bytes : Bytes) (todo : List Polled) (closedSockets : List Int) :
    Goes s todo [(conn, bytes)] (perform srv s a fd conn bytes todo closedSockets) := by
  unfold perform
  split
  · next fault _ => exact .inl ⟨fault, rfl⟩
  · next wsRoutes actions _ =>
    exact .inr ⟨⟨closedSockets, rfl⟩, receipts_logActions conn actions _⟩

theorem dropClient_goes (s : State W) (p : Polled) (todo : List Polled)
    (closedSockets : List Int) : Goes s todo [] (dropClient s p todo closedSockets) :=
  .inr ⟨⟨_, rfl⟩, (List.append_nil _).symm⟩

theorem skip_goes (s : State W) (todo : List Polled) (closedSockets : List Int) :
    Goes s todo [] {s with control := .pass todo closedSockets} :=
  .inr ⟨⟨_, rfl⟩, (List.append_nil _).symm⟩

theorem handleClientSocket_goes (srv : Server W) (s : State W) (a : Answer W) (p : Polled)
    (todo : List Polled) (closedSockets : List Int) (hheld : connection s.log p.fd = p.owner) :
    Goes s todo (due p a).toList (handleClientSocket srv s a p todo closedSockets) := by
  unfold handleClientSocket due
  by_cases herr : p.revents &&& (pollErr ||| pollHup ||| pollNval) ≠ 0
  · rw [if_pos herr, if_pos (.inl herr)]
    exact dropClient_goes s p todo closedSockets
  · by_cases hin : p.revents &&& pollIn = 0
    · rw [if_neg herr, if_neg (not_not.mpr hin), if_pos (.inr hin)]
      exact skip_goes s todo closedSockets
    · rw [if_neg herr, if_pos hin, if_neg (not_or.mpr ⟨herr, hin⟩), hheld]
      cases p.owner with
      | none =>
        cases a.recv <;> exact dropClient_goes s p todo closedSockets
      | some conn =>
        cases a.recv with
        | data bytes =>
          simp only
          split
          · exact perform_goes srv s a p.fd conn bytes.val todo closedSockets
          · exact dropClient_goes s p todo closedSockets
        | wouldBlock => exact skip_goes s todo closedSockets
        | failed => exact dropClient_goes s p todo closedSockets

theorem handleEntry_goes (srv : Server W) (s : State W) (a : Answer W) (p : Polled)
    (todo : List Polled) (closedSockets : List Int) (hp : p.fd ≠ srv.sockfd)
    (hheld : connection s.log p.fd = p.owner) :
    Goes s todo (due p a).toList (handleEntry srv s a p todo closedSockets) := by
  unfold handleEntry
  rw [if_neg hp]
  split
  · next hnothing =>
    have hdue : due p a = none := by
      rw [due, if_pos (.inr (by rw [hnothing, UInt16.zero_and]))]
    rw [hdue]
    exact skip_goes s todo closedSockets
  · exact handleClientSocket_goes srv s a p todo closedSockets hheld

/-- The listening socket has its turn first, and nothing is received on it. -/
theorem handleEntry_listening (srv : Server W) (s : State W) (a : Answer W) (p : Polled)
    (todo : List Polled) (closedSockets : List Int) (hp : p.fd = srv.sockfd) :
    Goes s todo [] (handleEntry srv s a p todo closedSockets) := by
  unfold handleEntry
  rw [if_pos hp]
  split
  · exact skip_goes s todo closedSockets
  · refine .inr ⟨⟨closedSockets, rfl⟩, ?_⟩
    rw [List.append_nil]
    show receipts (handleListenSocket srv s a p).log = receipts s.log
    unfold handleListenSocket
    split
    · exact accept_induction (Q := fun s' => receipts s'.log = receipts s.log)
        (R := fun _ => True) (fun _ _ h _ _ _ => h) a.accepts rfl fun _ _ => trivial
    · rfl

/-! ### All of them -/

theorem run_ended {srv : Server W} {s : State W} {fault : Option Fault}
    (h : s.control = .ended fault) (answers : List (Answer W)) :
    (runLoop srv s answers).control = .ended fault := by
  induction answers generalizing s with
  | nil => exact h
  | cons a rest ih =>
    have hstay : step srv s a = s := by
      unfold step
      rw [h]
    exact ih (hstay.symm ▸ h)

/-- What is left to do in a pass are clients, if the listening socket is not among it. -/
theorem InPass.clients {srv : Server W} {s : State W} {todo : List Polled}
    {closedSockets : List Int} (h : InPass srv s todo closedSockets)
    (hne : ∀ p ∈ todo, p.fd ≠ srv.sockfd) : Clients srv s.log todo := by
  rcases h.order with h | ⟨p, clients, rfl, hp, _⟩
  · exact h
  · exact absurd hp (hne p (List.mem_cons_self ..))

theorem Orderly.inPass {srv : Server W} {s : State W} (h : Orderly srv s) {todo : List Polled}
    {closedSockets : List Int} (hc : s.control = .pass todo closedSockets) :
    InPass srv s todo closedSockets := by
  have hconsistent := h.consistent
  rwa [Consistent, hc] at hconsistent

/-- From the first client of a pass to its end. -/
theorem clients_go {srv : Server W} {s : State W} {todo : List Polled}
    {closedSockets : List Int} {turns : List (Answer W)} (h : Orderly srv s)
    (hc : s.control = .pass todo closedSockets) (hne : ∀ p ∈ todo, p.fd ≠ srv.sockfd)
    (hlength : turns.length = todo.length) (hn : Along (step srv) (ClosesNothing srv) s turns) :
    Goes s [] ((List.zipWith due todo turns).filterMap id) (runLoop srv s turns) := by
  induction todo generalizing s closedSockets turns with
  | nil =>
    rw [List.eq_nil_of_length_eq_zero hlength]
    exact .inr ⟨⟨closedSockets, hc⟩, (List.append_nil _).symm⟩
  | cons p todo ih =>
    cases turns with
    | nil => cases hlength
    | cons a turns =>
      have hheld := ((h.inPass hc).clients hne).held p (List.mem_cons_self ..)
      have hstep : step srv s a = handleEntry srv s a p todo closedSockets := by
        unfold step
        rw [hc]
      have hgoes := handleEntry_goes srv s a p todo closedSockets hheld.1 hheld.2.2
      rw [← hstep] at hgoes
      show Goes s [] _ (runLoop srv (step srv s a) turns)
      rcases hgoes with ⟨fault, hended⟩ | ⟨⟨closedSockets', hnext⟩, hreceipts⟩
      · exact .inl ⟨fault, run_ended hended turns⟩
      · have hrest := ih (orderly_step s a h hn.1) hnext
          (fun q hq => hne q (List.mem_cons_of_mem _ hq)) (Nat.succ.inj hlength) hn.2
        rcases hrest with hended | ⟨hdone, hall⟩
        · exact .inl hended
        · refine .inr ⟨hdone, ?_⟩
          rw [hall, hreceipts, List.append_assoc, List.zipWith_cons_cons]
          cases hdue : due p a with
          | none => simp
          | some receipt => simp

/-- From `poll` to the first client. -/
theorem listening_goes {srv : Server W} {s : State W} (hhead : s.control = .head)
    {polled : Answer W} (listen : Answer W) {revents : Int → UInt16}
    (hpoll : polled.poll = .ready revents) :
    Goes s (s.clientList.toList.map (pollClient s.log revents)) []
      (step srv (step srv s polled) listen) := by
  have hfirst : step srv s polled = {s with control := .pass (pollAll srv s revents) []} := by
    unfold step
    rw [hhead]
    simp only [hpoll]
  rw [hfirst]
  exact handleEntry_listening srv _ listen
    {fd := srv.sockfd, revents := revents srv.sockfd, owner := none} _ [] rfl

/-- A pass from the head of a loop that is in order. -/
theorem pass_goes {srv : Server W} {s : State W} (h : Orderly srv s)
    (hhead : s.control = .head) {polled : Answer W} (listen finish : Answer W)
    {turns : List (Answer W)} {revents : Int → UInt16} (hpoll : polled.poll = .ready revents)
    (hlength : turns.length = s.clientList.toList.length)
    (hn : Along (step srv) (ClosesNothing srv) s (polled :: listen :: (turns ++ [finish]))) :
    (∃ fault, (runLoop srv s (polled :: listen :: (turns ++ [finish]))).control =
        .ended (some fault)) ∨
      (runLoop srv s (polled :: listen :: (turns ++ [finish]))).control = .head ∧
      receipts (runLoop srv s (polled :: listen :: (turns ++ [finish]))).log = receipts s.log ++
        (List.zipWith due (s.clientList.toList.map (pollClient s.log revents)) turns).filterMap
          id := by
  obtain ⟨hpolled, hlisten, hturns⟩ := hn
  have hlistened : Goes s _ [] (step srv (step srv s polled) listen) :=
    listening_goes hhead listen hpoll
  have horderly := orderly_step _ listen (orderly_step s polled h hpolled) hlisten
  have hrun : runLoop srv s (polled :: listen :: (turns ++ [finish])) =
      step srv (runLoop srv (step srv (step srv s polled) listen) turns) finish :=
    run_append (step srv) (step srv (step srv s polled) listen) turns [finish]
  rw [hrun]
  generalize step srv (step srv s polled) listen = t at hlistened hturns horderly
  rcases hlistened with ⟨fault, hended⟩ | ⟨⟨closedSockets, hc⟩, hreceipts⟩
  · exact .inl ⟨fault, run_ended (run_ended hended turns) [finish]⟩
  · have hne : ∀ p ∈ s.clientList.toList.map (pollClient s.log revents), p.fd ≠ srv.sockfd :=
      fun p hp => ((pollAll_inPass h hhead revents).tail.held p hp).1
    have hgoes := clients_go horderly hc hne (hlength.trans (List.length_map _).symm)
      hturns.of_append
    rcases hgoes with ⟨fault, hended⟩ | ⟨⟨closedSockets', hdone⟩, hall⟩
    · exact .inl ⟨fault, run_ended hended [finish]⟩
    · right
      unfold step
      rw [hdone]
      refine ⟨rfl, ?_⟩
      rw [hall, hreceipts, List.append_nil]

/-- **Every pass comes round, and everybody who has sent something is heard in it**, once and in the
order of the descriptors, unless a fault in what one of them has sent ends the loop. -/
theorem pass_serves_all (srv : Server W) (hq : srv.Quiet) (wsRoutes : List (WsRoute W))
    (hr : QuietRoutes wsRoutes) (past : List (Answer W)) (polled listen finish : Answer W)
    (turns : List (Answer W)) {s : State W} (hs : runLoop srv (State.initial wsRoutes) past = s)
    (hhead : s.control = .head) {revents : Int → UInt16} (hpoll : polled.poll = .ready revents)
    (hlength : turns.length = s.clientList.toList.length)
    (hn : Along (step srv) (NoCloseFrame srv) (State.initial wsRoutes)
      (past ++ polled :: listen :: (turns ++ [finish]))) :
    (∃ fault, (runLoop srv s (polled :: listen :: (turns ++ [finish]))).control =
        .ended (some fault)) ∨
      (runLoop srv s (polled :: listen :: (turns ++ [finish]))).control = .head ∧
      receipts (runLoop srv s (polled :: listen :: (turns ++ [finish]))).log = receipts s.log ++
        (List.zipWith due (s.clientList.toList.map (pollClient s.log revents)) turns).filterMap
          id := by
  subst hs
  obtain ⟨hpast, hpass⟩ := along_append.mp (closesNothing_of_quiet hq hr hn)
  exact pass_goes (orderly_run hpast) hhead listen finish hpoll hlength hpass

def Control.isHead : Control → Bool
  | .head => true
  | _ => false

/-- Two clients are accepted, and both have sent something when `poll` is called again. -/
def twoAccepted : List (Answer Unit) := [.ready 3 pollIn, .accept [5, 6], .nothing]

def bothReady : Answer Unit :=
  {Answer.nothing with poll := .ready fun fd => if fd = 3 then 0 else pollIn}

theorem pass_serves_all_two :
    receipts (runLoop bareServer (runLoop bareServer (State.initial []) twoAccepted)
      [bothReady, .nothing, .data plainGet, .data plainGet, .nothing]).log =
      [(0, plainGet.val), (1, plainGet.val)] := by
  have hpass := pass_serves_all bareServer bareServer_quiet []
    (fun r hr => absurd hr List.not_mem_nil) twoAccepted bothReady .nothing .nothing
    [.data plainGet, .data plainGet] rfl rfl rfl (by decide) (noCloseFrame_plain ..)
  rcases hpass with ⟨fault, hended⟩ | ⟨_, hreceipts⟩
  · have hhead : (runLoop bareServer (runLoop bareServer (State.initial []) twoAccepted)
        [bothReady, .nothing, .data plainGet, .data plainGet, .nothing]).control.isHead = true := by
      decide +kernel
    rw [show (runLoop bareServer (runLoop bareServer (State.initial []) twoAccepted)
      [bothReady, .nothing, .data plainGet, .data plainGet, .nothing]).control = _ from hended]
      at hhead
    cases hhead
  · exact hreceipts.trans (by decide +kernel)

end HttpServer
