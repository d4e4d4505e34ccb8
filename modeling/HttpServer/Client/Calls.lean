import HttpServer.Client.Recv
import HttpServer.Lib.Tenure

/-! `HttpClient::sendRequest` and `HttpsClient::sendRequest`, call by call.

What the two ask of the kernel and of the TLS library goes into a log, newest entry first. A
descriptor or an `SSL` that is handed out is one that is not in use. Both begin alike, up to the
connection, but for the `closeSocket` of their own that they call when it does not come about. -/
namespace HttpServer
open Lib Lib.Tenure Utils

namespace Client

inductive Event where
  | socket (fd : Int)
  | close (fd : Int)
  | send (fd : Int) (bytes : Bytes)
  | recv (fd : Int)
  /-- `SSL_new` and `SSL_set_fd`. -/
  | sslNew (ssl : Nat)
  | sslConnect (ssl : Nat)
  | sslWrite (ssl : Nat) (bytes : Bytes)
  | sslRead (ssl : Nat)
  | sslShutdown (ssl : Nat)
  | sslFree (ssl : Nat)
  | ctxNew
  | ctxFree

/-- What happens to descriptors. -/
def Event.fdEffect : Event → Effect Int
  | socket fd => .opens fd
  | close fd => .closes fd
  | _ => .nothing

/-- What happens to the `SSL` objects. -/
def Event.sslEffect : Event → Effect Nat
  | sslNew ssl => .opens ssl
  | sslFree ssl => .closes ssl
  | _ => .nothing

/-- What the kernel answers up to the connection. -/
structure Connecting where
  socket : Option Int
  /-- `gethostbyname` finds the host. -/
  resolved : Bool := true
  /-- Both calls of `setsockopt` succeed. -/
  timeouts : Bool := true
  connected : Bool := true

/-- `createSocket()`. -/
def createSocket (log : List Event) (a : Connecting) : Option Int :=
  a.socket.filter fun fd => decide (0 ≤ fd ∧ holder Event.fdEffect log fd = none)

/-- `sendRequest` up to the connection, with the class's `closeSocket`. -/
def connectTo {σ : Type} (base : BaseClient) (log : σ → List Event) (note : σ → Event → σ)
    (closeSocket : σ → Int → σ) (s : σ) (a : Connecting) : σ × Except Bytes Int :=
  match createSocket (log s) a with
  | none => (s, .error (text "Failed to create socket"))
  | some sock =>
    let s := note s (.socket sock)
    if !a.resolved then (closeSocket s sock, .error (text "Host not found: " ++ base.host))
    else if !a.timeouts then
      (closeSocket s sock, .error (text "Failed to set socket timeout"))
    else if !a.connected then
      (closeSocket s sock,
        .error (text "Connection failed to " ++ base.host ++ text ":" ++ toDecimal base.port))
    else (s, .ok sock)

end Client

/-! ### The plain client -/

namespace HttpClient
open Client

structure Answer where
  connecting : Connecting
  sent : Bool := true
  results : List RecvResult := []

def note (log : List Event) (e : Event) : List Event := e :: log

/-- `BaseClient::closeSocket`. -/
def closeSocket (log : List Event) (sock : Int) : List Event :=
  if 0 ≤ sock then note log (.close sock) else log

/-- The loop of `readResponse`, which closes the socket where it returns. -/
def readLoop (log : List Event) (sock : Int) (response : Bytes) :
    List RecvResult → List Event × Except Bytes Bytes
  | [] => (closeSocket (note log (.recv sock)) sock, .ok response)
  | .failed errno :: rest =>
    let log := note log (.recv sock)
    if errno = EINTR then readLoop log sock response rest
    else (closeSocket log sock, .error (text "recv failed: " ++ toDecimal errno))
  | .bytes piece :: rest =>
    let log := note log (.recv sock)
    let response := response ++ piece.val
    -- heuristic end-of-stream
    if piece.val.length < READ_BUFFER_SIZE then (closeSocket log sock, .ok response)
    else readLoop log sock response rest

def sendRequest (base : BaseClient) (log : List Event) (a : Answer) (method path : Bytes) :
    List Event × Except Bytes Bytes :=
  match connectTo base id note closeSocket log a.connecting with
  | (log, .error message) => (log, .error message)
  | (log, .ok sock) =>
    let log := note log (.send sock (sendRequestText base.host base.keepAlive method path))
    if !a.sent then (closeSocket log sock, .error (text "Failed to send request"))
    else readLoop log sock [] a.results

structure Call where
  method : Bytes
  path : Bytes
  answer : Answer

/-- The log after a call of `get`, `post`, `put` or `del`. -/
def step (base : BaseClient) (log : List Event) (call : Call) : List Event :=
  (sendRequest base log call.answer call.method call.path).1

end HttpClient

/-! ### The TLS client -/

def SSL_ERROR_WANT_READ : Int := 2
def SSL_ERROR_WANT_WRITE : Int := 3
def SSL_ERROR_ZERO_RETURN : Int := 6

structure HttpsClient where
  base : BaseClient
  caCertFile : Bytes := []
  /-- Whether there is a context. -/
  sslCtx : Bool := false
  /-- `ssl_`: the address that stands in it, which may be one that was freed. -/
  ssl : Option Nat := none
  log : List Client.Event := []

namespace HttpsClient
open Client

inductive SslResult where
  | bytes (piece : Piece)
  /-- What `SSL_get_error` says of a count that is not positive. -/
  | failed (err : Int)
  deriving DecidableEq

/-- What the kernel and the library answer in one request. -/
structure Answer where
  connecting : Connecting
  /-- `SSL_CTX_new` returns a context. -/
  ctxNew : Bool := true
  /-- `SSL_CTX_load_verify_locations` succeeds. -/
  certLoaded : Bool := true
  sslNew : Option Nat
  /-- `SSL_connect` succeeds, or what `SSL_get_error` says. -/
  sslConnect : Option Int := none
  written : Bool := true
  results : List SslResult := []

def note (s : HttpsClient) (e : Event) : HttpsClient := {s with log := e :: s.log}

/-- `HttpsClient::closeSocket`. -/
def closeSocket (s : HttpsClient) (sock : Int) : HttpsClient :=
  let s :=
    match s.ssl with
    | some ssl => {s.note (.sslFree ssl) with ssl := none}
    | none => s
  if 0 ≤ sock then s.note (.close sock) else s

def initializeSSL (s : HttpsClient) (a : Answer) : HttpsClient × Bool :=
  if !a.ctxNew then (s, false)
  else
    let s := {s.note .ctxNew with sslCtx := true}
    if s.caCertFile ≠ [] ∧ a.certLoaded = false then
      ({s.note .ctxFree with sslCtx := false}, false)
    else (s, true)

/-- The context of an earlier request, or a new one. -/
def context (s : HttpsClient) (a : Answer) : HttpsClient × Bool :=
  if s.sslCtx then (s, true) else s.initializeSSL a

/-- `SSL_new` hands out no address that is in use. -/
def created (s : HttpsClient) (a : Answer) : Option Nat :=
  a.sslNew.filter fun ssl => decide (holder Event.sslEffect s.log ssl = none)

def readFailed (err : Int) : Bytes := text "SSL read failed with error: " ++ toDecimal err

/-- The loop of `readResponse`. Behind the last result `SSL_read` reports the end of the
stream, which is an error as any other. -/
def readLoop (s : HttpsClient) (ssl : Nat) (sock : Int) (response : Bytes) :
    List SslResult → HttpsClient × Except Bytes Bytes
  | [] => (s.note (.sslRead ssl), .error (readFailed SSL_ERROR_ZERO_RETURN))
  | .failed err :: rest =>
    let s := s.note (.sslRead ssl)
    if err = SSL_ERROR_WANT_READ ∨ err = SSL_ERROR_WANT_WRITE then
      readLoop s ssl sock response rest
    else (s, .error (readFailed err))
  | .bytes piece :: rest =>
    let s := s.note (.sslRead ssl)
    let response := response ++ piece.val
    -- heuristic end-of-stream
    if piece.val.length < READ_BUFFER_SIZE then (s.closeSocket sock, .ok response)
    else readLoop s ssl sock response rest

/-- `sendRequest` with a session that is set up on its socket. -/
def converse (s : HttpsClient) (a : Answer) (sock : Int) (ssl : Nat) (method path : Bytes) :
    HttpsClient × Except Bytes Bytes :=
  let s := s.note (.sslConnect ssl)
  match a.sslConnect with
  | some err =>
    ((s.note (.sslFree ssl)).closeSocket sock,
      .error (text "SSL handshake failed: " ++ toDecimal err))
  | none =>
    let s := s.note
      (.sslWrite ssl (sendRequestText s.base.host s.base.keepAlive method path))
    if !a.written then
      ((s.note (.sslFree ssl)).note (.close sock),
        .error (text "Failed to send HTTPS request"))
    else s.readLoop ssl sock [] a.results

def sendRequest (s : HttpsClient) (a : Answer) (method path : Bytes) :
    HttpsClient × Except Bytes Bytes :=
  match connectTo s.base log note closeSocket s a.connecting with
  | (s, .error message) => (s, .error message)
  | (s, .ok sock) =>
    match s.context a with
    | (s, false) => (s.closeSocket sock, .error (text "Failed to initialize SSL context"))
    | (s, true) =>
      match s.created a with
      | none =>
        ({s with ssl := none}.closeSocket sock,
          .error (text "Failed to create SSL connection"))
      | some ssl => {s.note (.sslNew ssl) with ssl := some ssl}.converse a sock ssl method path

/-- `setCert(cert_file)`. With a context the file is loaded into it, which does nothing else
where it fails. -/
def setCert (s : HttpsClient) (certFile : Bytes) : HttpsClient := {s with caCertFile := certFile}

inductive Input where
  | request (method path : Bytes) (a : Answer)
  | setCert (certFile : Bytes)

def step (s : HttpsClient) : Input → HttpsClient
  | .request method path a => (s.sendRequest a method path).1
  | .setCert certFile => s.setCert certFile

/-- `~HttpsClient()`: `cleanupSSL()`. -/
def destruct (s : HttpsClient) : HttpsClient :=
  let s :=
    match s.ssl with
    | some ssl => {(s.note (.sslShutdown ssl)).note (.sslFree ssl) with ssl := none}
    | none => s
  if s.sslCtx then {s.note .ctxFree with sslCtx := false} else s

end HttpsClient
end HttpServer
