import HttpServer.Lib.Runs
import HttpServer.Lib.Tenure
import HttpServer.Server

/-! `Server::handleRequests`, one step for each turn of a loop.

At the head the descriptors are listed and polled; then one step handles one
entry of that list, and a last one removes the closed sockets. What the kernel
answers is the step's input, and it answers as a kernel does: `accept` hands out
no number that is in use, `poll` reports a closed number as invalid and `recv`
fails on it. Who has which descriptor is read off the history. -/
namespace HttpServer
open Lib Lib.Tenure

def bufferSize : Nat := 1024

/-- What one `recv` can return. -/
abbrev Chunk : Type := {b : Bytes // b.length ≤ bufferSize}

def pollIn : UInt16 := 0x001
def pollErr : UInt16 := 0x008
def pollHup : UInt16 := 0x010
def pollNval : UInt16 := 0x020

/-! ### Histories -/

/-- What happens to descriptors and connections, in terms of connections numbered
in the order they are accepted. The owner of a call is the connection whose event
or frame is being handled. -/
inductive Event where
  | accept (fd : Int)
  | shutdown (fd : Int) (owner : Option Nat)
  | close (fd : Int) (owner : Option Nat)
  | handlerClose (fd : Int)
  /-- The connection's bytes are handled, and what `performRequest` did with them. -/
  | received (fd : Int) (conn : Nat) (bytes : Bytes) (actions : List Action)

def Event.effect : Event → Effect Int
  | accept fd => .opens fd
  | close fd _ => .closes fd
  | handlerClose fd => .closes fd
  | shutdown _ _ => .nothing
  | received _ _ _ _ => .nothing

/-- The connection that has a descriptor. -/
abbrev connection (log : List Event) (fd : Int) : Option Nat := holder Event.effect log fd

/-- What an action of a connection's request does to descriptors. -/
def Action.event (conn : Nat) : Action → Option Event
  | close fd => some (.close fd (some conn))
  | handlerClose fd => some (.handlerClose fd)
  | _ => none

/-! ### States and answers -/

/-- One `pollfd` after `poll`, and the connection that had the descriptor then. -/
structure Polled where
  fd : Int
  revents : UInt16
  owner : Option Nat

inductive Control where
  | head
  /-- Inside a pass: the entries to come, and `closedSockets`. -/
  | pass (todo : List Polled) (closedSockets : List Int)
  /-- The loop was left, by `break` or by what ended `performRequest`. -/
  | ended (fault : Option Fault)

structure State (W : Type) where
  wsRoutes : List (WsRoute W)
  clientList : OrderedSet Int
  control : Control
  /-- Newest first. -/
  log : List Event

inductive Poll where
  | ready (revents : Int → UInt16)
  | interrupted
  | failed

inductive Recv where
  | data (bytes : Chunk)
  | wouldBlock
  | failed

/-- What the kernel and the rest of the world answer in one step. -/
structure Answer (W : Type) where
  poll : Poll
  /-- The descriptors there are for `accept`. -/
  accepts : List Int
  recv : Recv
  env : Env W

variable {W : Type}

/-- A server about to enter the loop. -/
def State.initial (wsRoutes : List (WsRoute W)) : State W :=
  {wsRoutes := wsRoutes, clientList := OrderedSet.empty, control := .head, log := []}

/-! ### One step -/

/-- The entry of a client after `poll`; a closed descriptor is reported invalid. -/
def pollClient (log : List Event) (revents : Int → UInt16) (fd : Int) : Polled :=
  match connection log fd with
  | none => {fd := fd, revents := pollNval, owner := none}
  | some conn => {fd := fd, revents := revents fd, owner := some conn}

/-- The listening socket's entry, then the clients' in the order of the set. -/
def pollAll (srv : Server W) (s : State W) (revents : Int → UInt16) : List Polled :=
  {fd := srv.sockfd, revents := revents srv.sockfd, owner := none} ::
    s.clientList.toList.map (pollClient s.log revents)

/-- The descriptors the kernel hands out one after the other: none that is in use. -/
def handedOut (srv : Server W) : List Event → List Int → List Int
  | _, [] => []
  | log, fd :: rest =>
    if 0 ≤ fd ∧ fd ≠ srv.sockfd ∧ connection log fd = none then
      fd :: handedOut srv (.accept fd :: log) rest
    else []

/-- One turn of the accept loop. -/
def acceptOne (s : State W) (clientFd : Int) : State W :=
  {s with clientList := s.clientList.insert clientFd, log := .accept clientFd :: s.log}

/-- The accept loop, which ends where `accept` returns no descriptor. -/
def handleListenSocket (srv : Server W) (s : State W) (a : Answer W) (p : Polled) : State W :=
  if p.revents &&& pollIn ≠ 0 then (handedOut srv s.log a.accepts).foldl acceptOne s else s

/-- `shutdown`, `close` and `closedSockets.push_back`. -/
def dropClient (s : State W) (p : Polled) (todo : List Polled) (closedSockets : List Int) :
    State W :=
  {s with
    control := .pass todo (closedSockets ++ [p.fd])
    log := .close p.fd p.owner :: .shutdown p.fd p.owner :: s.log}

/-- The log after a request's actions. -/
def logActions (conn : Nat) (actions : List Action) (log : List Event) : List Event :=
  (actions.filterMap (Action.event conn)).reverse ++ log

/-- `performRequest` called on a connection's bytes. -/
def perform (srv : Server W) (s : State W) (a : Answer W) (fd : Int) (conn : Nat) (bytes : Bytes)
    (todo : List Polled) (closedSockets : List Int) : State W :=
  match srv.performRequest a.env s.wsRoutes fd bytes with
  | .error fault =>
    {s with control := .ended (some fault), log := .received fd conn bytes [] :: s.log}
  | .ok (wsRoutes, actions) =>
    {s with
      wsRoutes := wsRoutes
      control := .pass todo closedSockets
      log := logActions conn actions (.received fd conn bytes actions :: s.log)}

def handleClientSocket (srv : Server W) (s : State W) (a : Answer W) (p : Polled)
    (todo : List Polled) (closedSockets : List Int) : State W :=
  if p.revents &&& (pollErr ||| pollHup ||| pollNval) ≠ 0 then dropClient s p todo closedSockets
  else if p.revents &&& pollIn ≠ 0 then
    -- `recv` fails on a descriptor nobody has
    match connection s.log p.fd, a.recv with
    | some conn, .data bytes =>
      if 0 < bytes.val.length then perform srv s a p.fd conn bytes.val todo closedSockets
      else dropClient s p todo closedSockets
    | some _, .wouldBlock => {s with control := .pass todo closedSockets}
    | _, _ => dropClient s p todo closedSockets
  else {s with control := .pass todo closedSockets}

/-- One turn of the loop over the polled descriptors. -/
def handleEntry (srv : Server W) (s : State W) (a : Answer W) (p : Polled) (todo : List Polled)
    (closedSockets : List Int) : State W :=
  if p.revents = 0 then {s with control := .pass todo closedSockets}
  else if p.fd = srv.sockfd then
    {handleListenSocket srv s a p with control := .pass todo closedSockets}
  else handleClientSocket srv s a p todo closedSockets

def step (srv : Server W) (s : State W) (a : Answer W) : State W :=
  match s.control with
  | .head =>
    match a.poll with
    | .ready revents => {s with control := .pass (pollAll srv s revents) []}
    | .interrupted => s
    | .failed => {s with control := .ended none}
  | .pass (p :: todo) closedSockets => handleEntry srv s a p todo closedSockets
  | .pass [] closedSockets =>
    {s with
      clientList := s.clientList.eraseIf fun fd => decide (fd ∈ closedSockets)
      control := .head}
  | .ended _ => s

/-- The state after a list of answers. -/
abbrev runLoop (srv : Server W) (s : State W) (answers : List (Answer W)) : State W :=
  Runs.run (step srv) s answers

/-! ### Answers with one thing in them -/

/-- No files, nothing unset worth mentioning, and every message gets out. -/
def Env.plain : Env Unit :=
  {files := ⟨fun _ => none, fun _ => none⟩, unset := .unknown, sent := fun _ => true, world := ()}

def Answer.nothing : Answer Unit :=
  {poll := .interrupted, accepts := [], recv := .wouldBlock, env := Env.plain}

/-- `poll` reports one descriptor, with these events. -/
def Answer.ready (fd : Int) (revents : UInt16) : Answer Unit :=
  {Answer.nothing with poll := .ready fun fd' => if fd' = fd then revents else 0}

def Answer.accept (fds : List Int) : Answer Unit := {Answer.nothing with accepts := fds}

def Answer.data (bytes : Chunk) : Answer Unit := {Answer.nothing with recv := .data bytes}

/-- A server without routes, hooks or files, listening on descriptor 3. -/
def bareServer : Server Unit := {sockfd := 3, router := Router.ofCalls []}

end HttpServer
