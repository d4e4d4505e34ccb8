import HttpServer.Request.Wire
import HttpServer.Response
import HttpServer.Utils.Text

/-! `http::BaseClient` and `http::HttpClient`: requests written, responses parsed.

What the network does is a parameter: whether the connection comes about, and what is
read back for the bytes that were written. -/
namespace HttpServer
open Lib.Search Utils

/-- How a call of the client ends other than with its value. -/
inductive ClientError where
  /-- The error of the `std::expected`. -/
  | unexpected (message : Bytes)
  /-- An exception. -/
  | thrown (exception : Thrown)
  /-- A recursion that has come back to where it was. -/
  | endless
  deriving DecidableEq, Repr

namespace Client

/-- A string operation inside a call. -/
def strings {α : Type} (r : Except Fault α) : Except ClientError α :=
  r.mapError fun fault => .thrown (.fault fault)

/-! ### The status -/

def statusOfCode (code : Int) : Status :=
  if code = 200 then .ok
  else if code = 201 then .created
  else if code = 202 then .accepted
  else if code = 204 then .noContent
  else if code = 300 then .multipleChoices
  else if code = 301 then .movedPermanently
  else if code = 302 then .movedTemporarily
  else if code = 304 then .notModified
  else if code = 400 then .badRequest
  else if code = 401 then .unauthorized
  else if code = 403 then .forbidden
  else if code = 404 then .notFound
  else if code = 500 then .internalServerError
  else if code = 501 then .notImplemented
  else if code = 502 then .badGateway
  else if code = 503 then .serviceUnavailable
  else .ok

/-- The number behind the first `HTTP/1.1 ` or else the first `HTTP/1.0 ` of the
whole message. -/
def parseStatus (rawResponse : Bytes) : Except ClientError Status :=
  let statusStart :=
    match findFrom (text "HTTP/1.1 ") rawResponse 0 with
    | some statusStart => some statusStart
    | none => findFrom (text "HTTP/1.0 ") rawResponse 0
  match statusStart with
  | none => .ok .ok
  | some statusStart =>
    match findByte (ch ' ') rawResponse (statusStart + 9) with
    | none => .ok .ok
    | some statusEnd => do
      let statusStr ←
        strings (substr rawResponse (statusStart + 9) (statusEnd - (statusStart + 9)))
      let statusCode ← (stoi statusStr).mapError .thrown
      .ok (statusOfCode statusCode)

/-! ### Chunked bodies -/

/-- `parse(pos)`, with what `result` holds by then. Sums wrap around, so that a size can
lead back to an earlier position; as many rounds as there are positions tell. -/
def parseChunks (chunkedBody : Bytes) : Nat → Nat → Bytes → Except ClientError Bytes
  | 0, _, _ => .error .endless
  | fuel + 1, pos, result =>
    if chunkedBody.length ≤ pos then .ok result
    else
      match findFrom crlf chunkedBody pos with
      | none => .error (.unexpected (text "Invalid chunked encoding: missing size line"))
      | some lineEnd => do
        let sizeStr ← strings (substr chunkedBody pos (lineEnd - pos))
        match parseHexSize sizeStr with
        | none => .error (.unexpected (text "Invalid chunk size"))
        | some chunkSize =>
          let dataStart := lineEnd + 2
          if chunkSize = 0 then .ok result
          else if chunkedBody.length < sizeAdd dataStart chunkSize.toNat then
            .error (.unexpected (text "Truncated chunk body"))
          else do
            let data ← strings (substr chunkedBody dataStart chunkSize.toNat)
            parseChunks chunkedBody fuel (sizeAdd (sizeAdd dataStart chunkSize.toNat) 2)
              (result ++ data)

def parseChunkedBody (chunkedBody : Bytes) : Except ClientError Bytes :=
  parseChunks chunkedBody (chunkedBody.length + 1) 0 []

/-! ### The response -/

/-- One line of the header section: the name before its first colon and the value
behind it, both trimmed. -/
def addHeaderLine (response : Response) (line : Bytes) : Except ClientError Response :=
  match findByte (ch ':') line 0 with
  | none => .ok response
  | some colonPos => do
    let key ← strings (substr line 0 colonPos)
    let value ← strings (substrFrom line (colonPos + 1))
    .ok (response.setHeader (trim key) (trim value))

/-- `parseResponse`. A response starts with nothing but its `Connection` header set;
what stands in its content type and its descriptor are parameters. -/
def parseResponse (unset : ContentType) (unsetFd : Int) (rawResponse : Bytes) :
    Except ClientError Response :=
  match findFrom (crlf ++ crlf) rawResponse 0 with
  | none => .error (.unexpected (text "Invalid HTTP response: missing header terminator"))
  | some headerEnd => do
    let status ← parseStatus rawResponse
    let headerSection ← strings (substr rawResponse 0 headerEnd)
    let lines := (headerSection.splitOn (ch '\n')).takeWhile (· ≠ [])
    let response ← lines.foldlM addHeaderLine (Response.make unset [] unsetFd)
    let body ← strings (substrFrom rawResponse (headerEnd + 4))
    let body ←
      if response.headers.lookup (text "Transfer-Encoding") = some (text "chunked") then
        parseChunkedBody body
      else .ok body
    .ok ({response with status := status}.append body)

end Client

/-! ### Requests -/

structure Network where
  /-- What goes wrong before anything is written, if something does. -/
  refused : Option Bytes
  /-- What is read back, or the error, for what is written. -/
  answer : Bytes → Except Bytes Bytes

structure BaseClient where
  host : Bytes
  port : Int
  keepAlive : Bool := true

/-- What a call writes to its socket, and what it returns. -/
structure Exchange (α : Type) where
  written : Bytes
  result : Except ClientError α

namespace BaseClient
open Client

/-- `HttpClient::sendRequest(method, path)`. -/
def sendRequest (c : BaseClient) (net : Network) (method path : Bytes) : Exchange Bytes :=
  match net.refused with
  | some message => {written := [], result := .error (.unexpected message)}
  | none =>
    let requestStr := sendRequestText c.host c.keepAlive method path
    {written := requestStr, result := (net.answer requestStr).mapError .unexpected}

/-- A request sent, and its response parsed. -/
def exchange (c : BaseClient) (net : Network) (unset : ContentType) (unsetFd : Int)
    (method path : Bytes) : Exchange Response :=
  let response := c.sendRequest net method path
  {written := response.written, result := response.result.bind (parseResponse unset unsetFd)}

def get (c : BaseClient) (net : Network) (unset : ContentType) (unsetFd : Int) (path : Bytes) :
    Exchange Response :=
  c.exchange net unset unsetFd (text "GET") path

/-- The text that `post` and `put` put together before they send. -/
def bodyText (c : BaseClient) (method path body : Bytes) : Bytes :=
  method ++ text " " ++ path ++ text " HTTP/1.1\r\n" ++
    text "Host: " ++ c.host ++ text "\r\n" ++
    text "Content-Type: application/json\r\n" ++
    text "Content-Length: " ++ toDecimal body.length ++ text "\r\n" ++
    text "Connection: " ++ (if c.keepAlive then text "keep-alive" else text "close") ++
    text "\r\n" ++ text "\r\n" ++ body

/-- The text is put together and not sent: `sendRequest` makes one of its own. -/
def post (c : BaseClient) (net : Network) (unset : ContentType) (unsetFd : Int)
    (path body : Bytes) : Exchange Response :=
  let _request := c.bodyText (text "POST") path body
  c.exchange net unset unsetFd (text "POST") path

def put (c : BaseClient) (net : Network) (unset : ContentType) (unsetFd : Int)
    (path body : Bytes) : Exchange Response :=
  let _request := c.bodyText (text "PUT") path body
  c.exchange net unset unsetFd (text "PUT") path

def del (c : BaseClient) (net : Network) (unset : ContentType) (unsetFd : Int) (path : Bytes) :
    Exchange Response :=
  c.exchange net unset unsetFd (text "DELETE") path

end BaseClient
end HttpServer
