import HttpServer.Server.Loop
import HttpServer.Server.Perform

/-! `http::SSLServer`: the loop over TLS connections, one step for each turn.

The clients are a map from descriptors to what `SSL_new` made for them. An `SSL` is its
address, and as the kernel hands out no descriptor that is in use, so the library hands out no
address that is. What the kernel and the library answer is the step's input, together with the
order in which the map is gone through; `stop` may come between any two steps. -/
namespace HttpServer.SSLServer
open Lib Lib.Tenure

def readBufferSize : Nat := 4096

/-- What one `SSLRead` can return: `SSL_read` gets the buffer less the byte for the null. -/
abbrev Chunk : Type := {b : Bytes // b ≠ [] ∧ b.length < readBufferSize}

structure ClientConnection where
  fd : Int := -1
  /-- Nothing is the null pointer. -/
  ssl : Option Nat := none
  handshakeCompleted : Bool := false
  deriving DecidableEq

abbrev Clients : Type := Map Int ClientConnection

/-! ### Histories -/

inductive Event where
  | accept (fd : Int)
  /-- By `closeClient`, or where `SSL_new` fails. -/
  | close (fd : Int)
  /-- By `closeSocket`, on a Close frame. -/
  | frameClose (fd : Int)
  /-- By a handler that calls `close` itself. -/
  | handlerClose (fd : Int)
  /-- By `WebSocket::close`, which a handler calls on a `WebSocket` that it or another has been
  given, or on a copy. -/
  | wsClose (fd : Int) (ssl : Nat)
  | closeListening (fd : Int)
  /-- `SSL_new` and `SSL_set_fd`. -/
  | sslNew (ssl : Nat) (fd : Int)
  /-- By `closeClient`. -/
  | sslFree (ssl : Nat)
  | sslAccept (ssl : Option Nat) (completed : Bool)
  | sslRead (ssl : Option Nat)
  /-- The bytes are handled, and what `performRequest` did with them on this `SSL`. -/
  | received (fd : Int) (ssl : Option Nat) (bytes : Bytes) (actions : List Action)
  /-- By `sendResponse`, once or more often. -/
  | sslWrite (ssl : Option Nat)
  /-- A handler is given a `WebSocket`. -/
  | dispatched (fd : Int) (ssl : Option Nat)

/-- What happens to descriptors. -/
def Event.fdEffect : Event → Effect Int
  | accept fd => .opens fd
  | close fd => .closes fd
  | frameClose fd => .closes fd
  | handlerClose fd => .closes fd
  | wsClose fd _ => .closes fd
  | _ => .nothing

/-- What happens to the `SSL` objects. -/
def Event.sslEffect : Event → Effect Nat
  | sslNew ssl _ => .opens ssl
  | sslFree ssl => .closes ssl
  | wsClose _ ssl => .closes ssl
  | _ => .nothing

/-- The connection that has a descriptor. -/
abbrev connection (log : List Event) (fd : Int) : Option Nat := holder Event.fdEffect log fd

/-- The session that has an address. -/
abbrev session (log : List Event) (ssl : Nat) : Option Nat := holder Event.sslEffect log ssl

/-! ### One request -/

variable {W : Type}

/-- `SSLServer::performRequest`. Its response has an `SSL` and leaves `sockfd_` unset. -/
def performRequest (s : Server W) (env : Env W) (unsetFd : Int) (wsRoutes : List (WsRoute W))
    (sd : Int) (buffer : Bytes) : Except Fault (List (WsRoute W) × List Action) := do
  let req ← Request.ofRaw buffer
  let res := Response.make env.unset s.defaultHeaders unsetFd
  let (res, pre) := Server.callHandler s.preRoutingHandler env.world req res
  if wsRoutes ≠ [] then
    match getWebSocketFrame buffer with
    | some opcode =>
      if opcode = WsOpcode.close then .ok (wsRoutes, pre ++ [.close sd])
      else .ok (wsRoutes, pre ++ Server.dispatchWebSocket env wsRoutes sd buffer)
    | none =>
      match ← processWebsocketHandshake req with
      | none =>
        let answered ← s.respond env req res
        .ok (wsRoutes, pre ++ answered)
      | some message =>
        if env.sent message then
          let (wsRoutes, found) := updateWsRoute req.normalizePath req.query sd wsRoutes
          .ok (wsRoutes, pre ++ (.send message true ::
            .upgrade req.normalizePath req.query found ::
              Server.dispatchWebSocket env wsRoutes sd buffer))
        else
          let answered ← s.respond env req res
          .ok (wsRoutes, pre ++ (.send message false :: answered))
  else
    let answered ← s.respond env req res
    .ok (wsRoutes, pre ++ answered)

/-- The `WebSocket`s that handlers have been given so far. A handler may keep copies of its own. -/
def given : List Event → List (Int × Nat)
  | [] => []
  | .dispatched fd (some ssl) :: older => (fd, ssl) :: given older
  | _ :: older => given older

/-- A close of a handler: that of a `WebSocket` with this session, if there is one, or its own. -/
def closeEvent (log : List Event) (fd : Int) (ssl : Option Nat) : Event :=
  match ssl.filter fun ssl => decide ((fd, ssl) ∈ given log) with
  | some ssl => .wsClose fd ssl
  | none => .handlerClose fd

/-- The log after the actions of a request of a client. `closers` are the sessions of the
`WebSocket`s by which handlers close, one for each close. -/
def logActions (fd : Int) (ssl : Option Nat) :
    List (Option Nat) → List Action → List Event → List Event
  | _, [], log => log
  | closers, .dispatch _ _ :: actions, log =>
    logActions fd ssl closers actions (.dispatched fd ssl :: log)
  | closers, .send _ _ :: actions, log =>
    logActions fd ssl closers actions (.sslWrite ssl :: log)
  | closers, .close sd :: actions, log =>
    logActions fd ssl closers actions (.frameClose sd :: log)
  | closers, .handlerClose sd :: actions, log =>
    logActions fd ssl closers.tail actions (closeEvent log sd closers.head?.join :: log)
  | closers, .handle _ :: actions, log => logActions fd ssl closers actions log
  | closers, .upgrade _ _ _ :: actions, log => logActions fd ssl closers actions log

/-! ### States and answers -/

inductive Control where
  | head
  /-- Inside a pass: the ready descriptors to come, and `dead_clients`. -/
  | pass (todo : List Int) (deadClients : List Int)
  | cleanup (deadClients : List Int)
  | ended (fault : Option Fault)

structure State (W : Type) where
  wsRoutes : List (WsRoute W)
  sslClients : Clients
  sockfd : Int
  running : Bool
  control : Control
  /-- Newest first. -/
  log : List Event

inductive Poll where
  /-- Whether the listening socket has `POLLIN`, and the clients that have it, in the order of
  the map. -/
  | ready (listening : Bool) (clients : List Int)
  | failed

inductive Handshake where
  | completed
  /-- `SSL_ERROR_WANT_READ` or `SSL_ERROR_WANT_WRITE`. -/
  | want
  | failed

inductive Read where
  | data (bytes : Chunk)
  | want
  | failed

/-- What the kernel, the library and the rest of the world answer in one step. -/
structure Answer (W : Type) where
  poll : Poll
  accept : Option Int
  sslNew : Option Nat
  sslAccept : Handshake
  sslRead : Read
  /-- For each close that a handler makes, the session of the `WebSocket` that it closes; nothing
  where it calls `close` itself. -/
  closers : List (Option Nat)
  unsetFd : Int
  env : Env W

inductive Input (W : Type) where
  | turn (a : Answer W)
  /-- `stop()`, which goes through the map in some order. -/
  | stop (clients : List Int)

/-- A server about to enter the loop. -/
def State.initial (srv : Server W) (wsRoutes : List (WsRoute W)) : State W :=
  {wsRoutes := wsRoutes, sslClients := ∅, sockfd := srv.sockfd, running := true,
   control := .head, log := []}

/-! ### One step -/

/-- `poll` has an entry for every client and reports no event but `POLLNVAL` on a descriptor
that is closed. -/
def readyClients (s : State W) (clients : List Int) : List Int :=
  (clients.filter fun fd =>
    (s.sslClients.lookup fd).isSome && (connection s.log fd).isSome).dedup

/-- `accept` hands out no descriptor that is in use. -/
def accepted (s : State W) (a : Answer W) : Option Int :=
  a.accept.filter fun fd => decide (0 ≤ fd ∧ fd ≠ s.sockfd ∧ connection s.log fd = none)

/-- `SSL_new` hands out no address that is in use. -/
def created (s : State W) (a : Answer W) : Option Nat :=
  a.sslNew.filter fun ssl => decide (session s.log ssl = none)

def handleListenSocket (s : State W) (a : Answer W) : State W :=
  match accepted s a with
  | none => s
  | some clientfd =>
    match created s a with
    | some ssl =>
      {s with
        sslClients := s.sslClients.insert clientfd {fd := clientfd, ssl := some ssl}
        log := .sslNew ssl clientfd :: .accept clientfd :: s.log}
    | none => {s with log := .close clientfd :: .accept clientfd :: s.log}

/-- `ssl_clients_[sd]`, which makes an entry where there is none. -/
def subscript (clients : Clients) (sd : Int) : Clients × ClientConnection :=
  match clients.lookup sd with
  | some client => (clients, client)
  | none => (clients.insert sd {}, {})

/-- `performRequest` called on a client's bytes. -/
def perform (srv : Server W) (s : State W) (a : Answer W) (fd : Int) (bytes : Bytes)
    (todo deadClients : List Int) : State W :=
  let (clients, client) := subscript s.sslClients fd
  match performRequest srv a.env a.unsetFd s.wsRoutes fd bytes with
  | .error fault =>
    {s with
      sslClients := clients
      control := .ended (some fault)
      log := .received fd client.ssl bytes [] :: s.log}
  | .ok (wsRoutes, actions) =>
    {s with
      wsRoutes := wsRoutes
      sslClients := clients
      control := .pass todo deadClients
      log := logActions fd client.ssl a.closers actions
        (.received fd client.ssl bytes actions :: s.log)}

/-- The data phase. -/
def readClient (srv : Server W) (s : State W) (a : Answer W) (fd : Int)
    (client : ClientConnection) (todo deadClients : List Int) : State W :=
  let s := {s with log := .sslRead client.ssl :: s.log}
  match a.sslRead with
  | .data bytes => perform srv s a fd bytes.val todo deadClients
  | .want => {s with control := .pass todo deadClients}
  | .failed => {s with control := .pass todo (deadClients ++ [fd])}

/-- The handshake phase, and the data phase behind it. -/
def handleClientSocket (srv : Server W) (s : State W) (a : Answer W) (fd : Int)
    (todo deadClients : List Int) : State W :=
  match s.sslClients.lookup fd with
  | none => {s with control := .pass todo deadClients}
  | some client =>
    if client.handshakeCompleted then readClient srv s a fd client todo deadClients
    else
      match a.sslAccept with
      | .completed =>
        let client := {client with handshakeCompleted := true}
        let s :=
          {s with
            sslClients := s.sslClients.insert fd client
            log := .sslAccept client.ssl true :: s.log}
        readClient srv s a fd client todo deadClients
      | .want =>
        {s with
          control := .pass todo deadClients
          log := .sslAccept client.ssl false :: s.log}
      | .failed =>
        {s with
          control := .pass todo (deadClients ++ [fd])
          log := .sslAccept client.ssl false :: s.log}

/-- What `closeClient` does with an entry, newest first. -/
def ClientConnection.release (client : ClientConnection) : List Event :=
  (if client.fd ≠ -1 then [.close client.fd] else []) ++ (client.ssl.map .sslFree).toList

def closeClient (s : State W) (fd : Int) : State W :=
  match s.sslClients.lookup fd with
  | none => s
  | some client =>
    {s with sslClients := s.sslClients.erase fd, log := client.release ++ s.log}

/-- `stop()`, with the clients in the order of the map. -/
def stop (s : State W) (clients : List Int) : State W :=
  let s := clients.foldl closeClient {s with running := false}
  if s.sockfd ≠ -1 then {s with sockfd := -1, log := .closeListening s.sockfd :: s.log} else s

def turn (srv : Server W) (s : State W) (a : Answer W) : State W :=
  match s.control with
  | .head =>
    if s.running then
      match a.poll with
      | .ready listening clients =>
        {s with control := .pass ((if listening then [s.sockfd] else []) ++
          readyClients s clients) []}
      | .failed => s
    else {s with control := .ended none}
  | .pass (fd :: todo) deadClients =>
    if fd = s.sockfd then {handleListenSocket s a with control := .pass todo deadClients}
    else handleClientSocket srv s a fd todo deadClients
  | .pass [] deadClients => {s with control := .cleanup deadClients}
  | .cleanup (fd :: deadClients) => {closeClient s fd with control := .cleanup deadClients}
  | .cleanup [] => {s with control := .head}
  | .ended _ => s

def step (srv : Server W) (s : State W) : Input W → State W
  | .turn a => turn srv s a
  | .stop clients => stop s clients

/-- The state after a list of inputs. -/
abbrev runLoop (srv : Server W) (s : State W) (inputs : List (Input W)) : State W :=
  Runs.run (step srv) s inputs

/-! ### Answers with one thing in them -/

def Answer.nothing : Answer Unit :=
  {poll := .failed, accept := none, sslNew := none, sslAccept := .want, sslRead := .want,
   closers := [], unsetFd := 0, env := Env.plain}

end HttpServer.SSLServer
