import HttpServer.Lib.OrderedSet
import HttpServer.Response
import HttpServer.Router
import HttpServer.Utils.Base64
import HttpServer.Utils.Sha1
import HttpServer.WebSocket

/-! `http::Server`: what one received buffer makes the server do.

`performRequest` is translated branch by branch. What it does to the outside is
listed in the order it happens (`Action`), and what it changes in the server is
the table of WebSocket routes. Handlers are functions of what they are given and
of whatever else they can look at, and name the descriptors they close. -/
namespace HttpServer
open Lib Utils

/-- A handler's response and the descriptors it closed. -/
abbrev RequestHandler (W : Type) := W → Request → Response → Response × List Int

abbrev WsHandler (W : Type) := W → WebSocket → List Int

structure WsRoute (W : Type) where
  sockfd : Int
  path : Bytes
  handler : WsHandler W
  query : Map Bytes Bytes

structure Server (W : Type) where
  /-- The listening socket. -/
  sockfd : Int
  router : Router (RequestHandler W)
  staticDirectory : Bytes := text "./assets"
  preRoutingHandler : Option (RequestHandler W) := none
  postRoutingHandler : Option (RequestHandler W) := none
  defaultHeaders : List (Bytes × Bytes) := []

/-- What one call meets outside the server. -/
structure Env (W : Type) where
  files : FileSystem
  /-- What an unset content type happens to hold. -/
  unset : ContentType
  /-- Whether `sendResponse` gets all of a message out. -/
  sent : Bytes → Bool
  /-- What else a handler can look at: the state it captured, the clock. -/
  world : W

inductive Action where
  /-- A route's handler is called with this request. -/
  | handle (req : Request)
  /-- A 101 is sent to the end; `bound` says whether a route has the path. -/
  | upgrade (path : Bytes) (query : Map Bytes Bytes) (bound : Bool)
  /-- The WebSocket handler of the route `path` is called. -/
  | dispatch (path : Bytes) (ws : WebSocket)
  /-- `sendResponse`, and what it returned. -/
  | send (message : Bytes) (complete : Bool)
  /-- `closeSocket` by the server itself. -/
  | close (fd : Int)
  /-- `close` by a handler. -/
  | handlerClose (fd : Int)

variable {W : Type}

/-! ### WebSocket routes -/

/-- `WsRoute::operator<`. -/
def WsRoute.Less (r other : WsRoute W) : Prop :=
  if r.path ≠ other.path then r.path < other.path else r.sockfd < other.sockfd

instance (r other : WsRoute W) : Decidable (r.Less other) := by
  unfold WsRoute.Less
  infer_instance

/-- `setRoute(path, handler)` for a WebSocket handler. -/
def setWsRoute (path : Bytes) (handler : WsHandler W) (wsRoutes : List (WsRoute W)) :
    List (WsRoute W) :=
  insertBy WsRoute.Less {sockfd := -1, path := path, handler := handler, query := ∅} wsRoutes

/-- The first route of the path takes the descriptor and the query. -/
def updateWsRoute (path : Bytes) (query : Map Bytes Bytes) (sockfd : Int) :
    List (WsRoute W) → List (WsRoute W) × Bool
  | [] => ([], false)
  | r :: rest =>
    if r.path = path then ({r with sockfd := sockfd, query := query} :: rest, true)
    else
      let (rest, found) := updateWsRoute path query sockfd rest
      (r :: rest, found)

def getWsRouteBySocketId (sockfd : Int) (wsRoutes : List (WsRoute W)) : Option (WsRoute W) :=
  wsRoutes.find? fun r => decide (r.sockfd = sockfd)

/-! ### Static files -/

namespace Server

/-- The request and the path of its file: a directory stands for its index page. -/
def resolvePath (s : Server W) (fs : FileSystem) (req : Request) : Except Fault (Request × Bytes) :=
  let requestPath := req.path
  let path := s.staticDirectory ++ requestPath
  if ((fs.stat (cStr path)).any fun st => st.isDir) then
    -- `request_path.back()` has nothing to return on an empty target
    match requestPath.getLast? with
    | none => .error .undefined
    | some last =>
      let requestPath := if last ≠ ch '/' then requestPath ++ text "/" else requestPath
      let requestPath := requestPath ++ text "index.html"
      .ok ((req.setPath requestPath).setMimeType (text "text/html"),
        s.staticDirectory ++ requestPath)
  else .ok (req, path)

/-- The headers and the content of a file that could be read. -/
def fileResponse (mimeType : Bytes) (st : FileStat) (content : Bytes) (res : Response) :
    Response :=
  let res := res.setHeader (text "Content-Type") mimeType
  let res := res.setHeader (text "Cache-Control") (text "public, max-age=3600")
  let res := res.setHeader (text "Content-Length") (toDecimal content.length)
  let lastModified := fileMtimeToHttpDate st.mtime
  let res := if lastModified ≠ [] then res.setHeader (text "Last-Modified") lastModified else res
  let etag := computeEtag (narrowToInt st.mtime) st.size
  let res := if etag ≠ [] then res.setHeader (text "ETag") etag else res
  res.append content

def handleStaticResource (s : Server W) (fs : FileSystem) (req : Request) (res : Response) :
    Except Fault (Request × Response) := do
  let (req, path) ← resolvePath s fs req
  match fs.stat (cStr path) with
  | none => .ok (req, res.setContent .plainText .notFound (text "Not Found"))
  | some st =>
    match fs.contents (cStr path) with
    | none => .ok (req, res)
    | some content =>
      match req.mimeType? with
      | none => .error .badOptionalAccess
      | some mimeType => .ok (req, fileResponse mimeType st content res)

/-! ### Routes -/

/-- A handler called, if there is one. -/
def callHandler (handler : Option (RequestHandler W)) (world : W) (req : Request)
    (res : Response) : Response × List Action :=
  match handler with
  | none => (res, [])
  | some handler =>
    let (res, closed) := handler world req res
    (res, closed.map .handlerClose)

/-- `handleRoute`: the message to send, and what was done on the way. -/
def handleRoute (s : Server W) (env : Env W) (req : Request) (res : Response) :
    Except Fault (List Action × Option Bytes) := do
  let res := res.setStaticDirectory s.staticDirectory
  let (req, handler) := s.router.matchRequest req
  let (req, res, routed) ←
    match handler with
    | some handler =>
      let (res, closed) := callHandler (some handler) env.world req res
      .ok (req, res, .handle req :: closed)
    | none =>
      if req.method = text "GET" ∨ req.method = text "HEAD" then do
        let (req, res) ← handleStaticResource s env.files req res
        .ok (req, res, [])
      else .ok (req, res, [])
  let (res, post) := callHandler s.postRoutingHandler env.world req res
  .ok (routed ++ post, (res.build env.files false).2)

end Server

/-! ### The handshake -/

def magic : Bytes := text "258EAFA5-E914-47DA-95CA-C5AB0DC85B11"

def handshakeResponse (clientKey : Bytes) : Bytes :=
  text "HTTP/1.1 101 Switching Protocols\r\nUpgrade: websocket\r\nConnection: Upgrade\r\n" ++
    text "Sec-WebSocket-Accept: " ++ base64Encode (sha1 (clientKey ++ magic)) ++ text "\r\n\r\n"

/-- `processWebsocketHandshake` up to its `sendResponse`: the 101 to send, or
nothing where it returns false before. -/
def processWebsocketHandshake (req : Request) : Except Fault (Option Bytes) :=
  match req.headers.lookup (text "Upgrade") with
  | none => .ok none
  | some upgradeValue =>
    match req.headers.lookup (text "Connection") with
    -- the test reads `connection_it->second` exactly when there is none
    | none => .error .undefined
    | some _ =>
      if upgradeValue.length ≠ 9 ∨
          (upgradeValue[0]? ≠ some (ch 'w') ∧ upgradeValue[0]? ≠ some (ch 'W')) ∨
          upgradeValue.take 9 ≠ text "websocket" then .ok none
      else
        match req.headers.lookup (text "Sec-WebSocket-Key") with
        | none => .ok none
        | some clientKey =>
          if clientKey = [] then .ok none
          else if clientKey.length ≠ 24 ∨ clientKey[22]? ≠ some (ch '=') ∨
              clientKey[23]? ≠ some (ch '=') then .ok none
          else .ok (some (handshakeResponse clientKey))

/-! ### One buffer -/

namespace Server

/-- The handler of the first route that has the descriptor, if there is one. -/
def dispatchWebSocket (env : Env W) (wsRoutes : List (WsRoute W)) (sd : Int) (buffer : Bytes) :
    List Action :=
  match getWsRouteBySocketId sd wsRoutes with
  | none => []
  | some route =>
    let ws := WebSocket.make sd buffer route.query
    .dispatch route.path ws :: (route.handler env.world ws).map .handlerClose

/-- The end of `performRequest`: the route, and the answer sent. -/
def respond (s : Server W) (env : Env W) (req : Request) (res : Response) :
    Except Fault (List Action) := do
  let (routed, body) ← handleRoute s env req res
  match body with
  | none => .ok routed
  | some message => .ok (routed ++ [.send message (env.sent message)])

/-- `performRequest`: the WebSocket routes afterwards, and what was done. -/
def performRequest (s : Server W) (env : Env W) (wsRoutes : List (WsRoute W)) (sd : Int)
    (buffer : Bytes) : Except Fault (List (WsRoute W) × List Action) := do
  let req ← Request.ofRaw buffer
  let res := Response.make env.unset s.defaultHeaders sd
  let (res, pre) := callHandler s.preRoutingHandler env.world req res
  if wsRoutes ≠ [] then
    match getWebSocketFrame buffer with
    | some opcode =>
      if opcode = WsOpcode.close then .ok (wsRoutes, pre ++ [.close sd])
      else .ok (wsRoutes, pre ++ dispatchWebSocket env wsRoutes sd buffer)
    | none =>
      match ← processWebsocketHandshake req with
      | none =>
        let answered ← respond s env req res
        .ok (wsRoutes, pre ++ answered)
      | some message =>
        if env.sent message then
          let (wsRoutes, found) := updateWsRoute req.normalizePath req.query sd wsRoutes
          .ok (wsRoutes, pre ++ (.send message true ::
            .upgrade req.normalizePath req.query found ::
              dispatchWebSocket env wsRoutes sd buffer))
        else
          let answered ← respond s env req res
          .ok (wsRoutes, pre ++ (.send message false :: answered))
  else
    let answered ← respond s env req res
    .ok (wsRoutes, pre ++ answered)

end Server
end HttpServer
