import HttpServer.Lib.Map
import HttpServer.Utils.Url

/-! `http::Request`: what a raw request is parsed into.

The constructor runs three scans over the same bytes: the request line up to the
first CRLF, the header lines behind it, and a search for the first CRLFCRLF,
behind which the body is. Every `substr` can throw and every loop carries fuel;
`Request/Parse.lean` shows that neither happens. -/
namespace HttpServer
open Lib Lib.Search

structure Request where
  method : Bytes := []
  path : Bytes := []
  normalizePath : Bytes := []
  queryString : Bytes := []
  version : Bytes := []
  mimeType : Bytes := []
  body : Bytes := []
  headers : Map Bytes Bytes := ∅
  params : Map Bytes Bytes := ∅
  query : Map Bytes Bytes := ∅

namespace Request

def setParam (req : Request) (key value : Bytes) : Request :=
  {req with params := req.params.insert key value}

/-- `setQuery(item.first, item.second)` for every item of the request's own query. -/
def setQueries (req : Request) : Request := {req with query := Map.restore req.query}

def setPath (req : Request) (path : Bytes) : Request := {req with path := path}

def setMimeType (req : Request) (mimeType : Bytes) : Request := {req with mimeType := mimeType}

/-- `mimeType()`: nothing where the type is empty. -/
def mimeType? (req : Request) : Option Bytes :=
  if req.mimeType = [] then none else some req.mimeType

/-! ### MIME types -/

def mimeTypes : List (Bytes × Bytes) :=
  [(text "html", text "text/html"), (text "htm", text "text/html"),
   (text "css", text "text/css"), (text "js", text "text/javascript"),
   (text "jpg", text "image/jpeg"), (text "jpeg", text "image/jpeg"),
   (text "png", text "image/png"), (text "gif", text "image/gif"),
   (text "svg", text "image/svg+xml"), (text "xml", text "application/xml"),
   (text "json", text "application/json"), (text "txt", text "text/plain"),
   (text "pdf", text "application/pdf"), (text "mp3", text "audio/mpeg"),
   (text "mp4", text "video/mp4"), (text "webm", text "video/webm"),
   (text "woff", text "font/woff"), (text "woff2", text "font/woff2"),
   (text "ttf", text "font/ttf"), (text "eot", text "application/vnd.ms-fontobject")]

/-- `tolower` in the C locale. -/
def toLower (c : UInt8) : UInt8 := if ch 'A' ≤ c ∧ c ≤ ch 'Z' then c + 32 else c

/-- What stands behind the last dot, everything where there is none. -/
def afterLastDot (s : Bytes) : Bytes := (s.reverse.takeWhile (· ≠ ch '.')).reverse

def getMimeType (path : Bytes) : Bytes :=
  let cleanPath := path.takeWhile (· ≠ ch '?')
  let fileExtension := (afterLastDot cleanPath).map toLower
  if fileExtension = [] then [] else (mimeTypes.lookup fileExtension).getD []

/-! ### The query string -/

/-- One round of the loop for each piece between ampersands. -/
def parseQueryLoop (queryString : Bytes) :
    Nat → Nat → Map Bytes Bytes → Except Fault (Map Bytes Bytes)
  | 0, start, query => if start < queryString.length then .error .outOfFuel else .ok query
  | fuel + 1, start, query =>
    if start < queryString.length then do
      let ampersandPos := (findByte (ch '&') queryString start).getD queryString.length
      let equalsPos := (findByte (ch '=') queryString start).getD queryString.length
      let (key, value) ←
        if equalsPos < ampersandPos then do
          let key ← substr queryString start (equalsPos - start)
          let value ← substr queryString (equalsPos + 1) (ampersandPos - equalsPos - 1)
          pure (key, value)
        else do
          let key ← substr queryString start (ampersandPos - start)
          pure (key, [])
      parseQueryLoop queryString fuel (ampersandPos + 1)
        (query.insert (Utils.urlDecode key) (Utils.urlDecode value))
    else .ok query

def parseQueryString (queryString : Bytes) (query : Map Bytes Bytes) :
    Except Fault (Map Bytes Bytes) :=
  if queryString = [] then .ok query else parseQueryLoop queryString queryString.length 0 query

/-! ### The request line -/

/-- Without two spaces in it, the line leaves the request as it was. -/
def parseRequestLine (req : Request) (line : Bytes) : Except Fault Request :=
  match findByte (ch ' ') line 0 with
  | none => .ok req
  | some m1 =>
    match findByte (ch ' ') line (m1 + 1) with
    | none => .ok req
    | some m2 => do
      let method ← substr line 0 m1
      let path ← substr line (m1 + 1) (m2 - m1 - 1)
      let version ← substrFrom line (m2 + 1)
      let req := {req with
        method := method, path := path, version := version, mimeType := getMimeType path
        params := ∅, query := ∅}
      match findByte (ch '?') path 0 with
      | some queryPos =>
        let normalizePath ← substr path 0 queryPos
        let queryString ← substrFrom path (queryPos + 1)
        let query ← parseQueryString queryString req.query
        .ok {req with normalizePath := normalizePath, queryString := queryString, query := query}
      | none => .ok {req with normalizePath := path}

/-! ### Headers -/

/-- A header line from `pos` to `end`: the name before its first colon, the value
behind it less one space. A line without a colon says nothing. -/
def headerLine (raw : Bytes) (pos lineEnd : Nat) (headers : Map Bytes Bytes) :
    Except Fault (Map Bytes Bytes) :=
  match findByte (ch ':') raw pos with
  | none => .ok headers
  | some colon =>
    if colon < lineEnd then do
      let name ← substr raw pos (colon - pos)
      let valueStart :=
        if colon + 1 < lineEnd ∧ raw[colon + 1]? = some (ch ' ') then colon + 2 else colon + 1
      let value ← substr raw valueStart (lineEnd - valueStart)
      .ok (headers.insert name value)
    else .ok headers

/-- Reads header lines from `pos` until an empty line; the position is the
source's reference parameter. -/
def parseHeadersLoop (raw : Bytes) :
    Nat → Nat → Map Bytes Bytes → Except Fault (Map Bytes Bytes × Nat)
  | 0, pos, headers => if pos < raw.length then .error .outOfFuel else .ok (headers, pos)
  | fuel + 1, pos, headers =>
    if pos < raw.length then
      match findFrom crlf raw pos with
      | none => .ok (headers, pos)
      | some lineEnd =>
        if lineEnd = pos then .ok (headers, lineEnd + 2)
        else do
          let headers ← headerLine raw pos lineEnd headers
          parseHeadersLoop raw fuel (lineEnd + 2) headers
    else .ok (headers, pos)

def parseHeaders (raw : Bytes) (pos : Nat) (headers : Map Bytes Bytes) :
    Except Fault (Map Bytes Bytes × Nat) :=
  parseHeadersLoop raw raw.length pos headers

/-! ### The constructor -/

/-- `Request(raw_request)`. -/
def ofRaw (raw : Bytes) : Except Fault Request :=
  match findFrom crlf raw 0 with
  | none => .ok {}
  | some lineEnd => do
    let line ← substr raw 0 lineEnd
    let req ← parseRequestLine {} line
    let (headers, _) ← parseHeaders raw (lineEnd + 2) req.headers
    let req := {req with headers := headers}
    match findFrom (crlf ++ crlf) raw 0 with
    | some headerEnd =>
      let body ← substrFrom raw (headerEnd + 4)
      .ok {req with body := body}
    | none => .ok req

end Request
end HttpServer
