import HttpServer.Utils.File

/-! `http::Response`: what a handler fills in and `build` writes out. -/
namespace HttpServer
open Utils

inductive ContentType where
  | html | css | javascript | jpeg | png | xml | json | plainText | gif | svg | pdf
  | mp3 | mp4 | webm | woff2 | ttf | eot
  /-- Server-Sent Events. -/
  | sse
  | unknown
  deriving DecidableEq, Repr

/-- `ContentTypeToString`. -/
def ContentType.toBytes : ContentType → Bytes
  | json => text "application/json"
  | html => text "text/html"
  | plainText => text "text/plain; charset=utf-8"
  | css => text "text/css"
  | javascript => text "text/javascript"
  | jpeg => text "image/jpeg"
  | png => text "image/png"
  | gif => text "image/gif"
  | svg => text "image/svg+xml"
  | pdf => text "application/pdf"
  | mp3 => text "audio/mpeg"
  | mp4 => text "video/mp4"
  | webm => text "video/webm"
  | woff2 => text "font/woff2"
  | ttf => text "font/ttf"
  | eot => text "application/vnd.ms-fontobject"
  | xml => text "application/xml"
  | sse => text "text/event-stream"
  | unknown => text "application/octet-stream"

/-- The statuses with a line of their own; any other is `other`. -/
inductive Status where
  | ok | created | accepted | noContent
  | multipleChoices | movedPermanently | movedTemporarily | notModified
  | badRequest | unauthorized | forbidden | notFound
  | internalServerError | notImplemented | badGateway | serviceUnavailable
  | other (code : Nat)
  deriving DecidableEq, Repr

/-- `statusToString`. -/
def Status.toBytes : Status → Bytes
  | ok => text "HTTP/1.0 200 OK\r\n"
  | created => text "HTTP/1.0 201 Created\r\n"
  | accepted => text "HTTP/1.0 202 Accepted\r\n"
  | noContent => text "HTTP/1.0 204 No Content\r\n"
  | multipleChoices => text "HTTP/1.0 300 Multiple Choices\r\n"
  | movedPermanently => text "HTTP/1.0 301 Moved Permanently\r\n"
  | movedTemporarily => text "HTTP/1.0 302 Moved Temporarily\r\n"
  | notModified => text "HTTP/1.0 304 Not Modified\r\n"
  | badRequest => text "HTTP/1.0 400 Bad Request\r\n"
  | unauthorized => text "HTTP/1.0 401 Unauthorized\r\n"
  | forbidden => text "HTTP/1.0 403 Forbidden\r\n"
  | notFound => text "HTTP/1.0 404 Not Found\r\n"
  | internalServerError => text "HTTP/1.0 500 Internal Server Error\r\n"
  | notImplemented => text "HTTP/1.0 501 Not Implemented\r\n"
  | badGateway => text "HTTP/1.0 502 Bad Gateway\r\n"
  | serviceUnavailable => text "HTTP/1.0 503 Service Unavailable\r\n"
  | other _ => text "HTTP/1.0 500 Internal Server Error\r\n"

structure Response where
  status : Status := .ok
  contentType : ContentType
  content : Bytes := []
  staticDirectory : Bytes := []
  /-- `std::map`, in the order of its keys. -/
  headers : List (Bytes × Bytes) := []
  sockfd : Int

namespace Response

/-- `headers[key] = val` in a map kept in order. -/
def setEntry (key val : Bytes) : List (Bytes × Bytes) → List (Bytes × Bytes)
  | [] => [(key, val)]
  | (k, v) :: rest =>
    if key = k then (key, val) :: rest
    else if key < k then (key, val) :: (k, v) :: rest
    else (k, v) :: setEntry key val rest

def setHeader (res : Response) (key val : Bytes) : Response :=
  {res with headers := setEntry key val res.headers}

/-- `Response(default_headers, sockfd)`. The constructor leaves `content_type_`
unset, so what stands in it is a parameter. -/
def make (unset : ContentType) (defaultHeaders : List (Bytes × Bytes)) (sockfd : Int) :
    Response :=
  let res : Response := {contentType := unset, sockfd := sockfd}
  let res := defaultHeaders.foldl (fun res header => res.setHeader header.1 header.2) res
  res.setHeader (text "Connection") (text "keep-alive")

def setContent (res : Response) (type : ContentType) (status : Status) (content : Bytes) :
    Response :=
  {res with status := status, contentType := type, content := content}

/-- `res << content`. -/
def append (res : Response) (content : Bytes) : Response :=
  {res with content := res.content ++ content}

def setStaticDirectory (res : Response) (staticDirectory : Bytes) : Response :=
  {res with staticDirectory := staticDirectory}

/-- HTML content that names a file is replaced by the file. -/
def loadContent (fs : FileSystem) (res : Response) : Response :=
  if res.contentType = .html ∧ text ".html" <:+ res.content then
    {res with content := readFile fs (res.staticDirectory ++ [ch '/'] ++ res.content)}
  else res

/-- The headers `build` adds where they are missing. -/
def addHeaders (chunked : Bool) (res : Response) : Response :=
  let res :=
    if (res.headers.lookup (text "Content-Type")).isNone then
      let res := res.setHeader (text "Content-Type") res.contentType.toBytes
      if res.contentType = .sse then res.setHeader (text "Cache-Control") (text "no-cache")
      else res
    else res
  if !chunked && (res.headers.lookup (text "Content-Length")).isNone then
    res.setHeader (text "Content-Length") (toDecimal res.content.length)
  else res

/-- `build`: the response afterwards, and the message unless the content is empty. -/
def build (fs : FileSystem) (chunked : Bool) (res : Response) : Response × Option Bytes :=
  if res.content = [] then (res, none)
  else
    let statusLine := res.status.toBytes
    let res := (res.loadContent fs).addHeaders chunked
    let fields := res.headers.flatMap fun header =>
      header.1 ++ text ": " ++ header.2 ++ crlf
    (res, some (statusLine ++ fields ++ crlf ++ res.content))

end Response
end HttpServer
