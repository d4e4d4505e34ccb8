import HttpServer.Request
import HttpServer.Utils.Base64

/-! Requests as they are written on the wire.

`WireRequest` is a request line, header lines and a body; the conditions on each
part are carried by its type, so that every value has exactly one reading. The
requests of the two clients are values of it. -/
namespace HttpServer

/-- No space and no line break: a method or a target. -/
abbrev Token : Type := {b : Bytes // ∀ c ∈ b, c ≠ ch ' ' ∧ c ≠ ch '\r' ∧ c ≠ ch '\n'}

/-- No line break: a version. -/
abbrev Line : Type := {b : Bytes // ∀ c ∈ b, c ≠ ch '\r' ∧ c ≠ ch '\n'}

/-- A header's name: no colon and no line break. -/
abbrev FieldName : Type := {b : Bytes // ∀ c ∈ b, c ≠ ch ':' ∧ c ≠ ch '\r' ∧ c ≠ ch '\n'}

/-- A header's value: no line break, and no space in front. -/
abbrev FieldValue : Type :=
  {b : Bytes // (∀ c ∈ b, c ≠ ch '\r' ∧ c ≠ ch '\n') ∧ b.head? ≠ some (ch ' ')}

/-! ### Words of the clients -/

theorem http_line : ∀ c ∈ text "HTTP/1.1", c ≠ ch '\r' ∧ c ≠ ch '\n' := every_char (by decide)

theorem host_name : ∀ c ∈ text "Host", c ≠ ch ':' ∧ c ≠ ch '\r' ∧ c ≠ ch '\n' :=
  every_char (by decide)

theorem connection_name : ∀ c ∈ text "Connection", c ≠ ch ':' ∧ c ≠ ch '\r' ∧ c ≠ ch '\n' :=
  every_char (by decide)

/-! ### Requests -/

structure WireRequest where
  method : Token
  target : Token
  version : Line
  headers : List (FieldName × FieldValue)
  body : Bytes

namespace WireRequest

/-- One header line without its end. -/
def field (h : FieldName × FieldValue) : Bytes := h.1.val ++ (text ": " ++ h.2.val)

def fields (headers : List (FieldName × FieldValue)) : Bytes :=
  headers.flatMap fun h => field h ++ crlf

def requestLine (w : WireRequest) : Bytes :=
  w.method.val ++ (ch ' ' :: (w.target.val ++ (ch ' ' :: w.version.val)))

/-- What is sent. -/
def bytes (w : WireRequest) : Bytes :=
  w.requestLine ++ (crlf ++ (fields w.headers ++ (crlf ++ w.body)))

/-- The header list as plain byte strings. -/
def entries (headers : List (FieldName × FieldValue)) : List (Bytes × Bytes) :=
  headers.map fun h => (h.1.val, h.2.val)

/-- The value of the `Content-Length` header is the body's length, and it may be
left out only in front of an empty body. -/
def Framed (w : WireRequest) : Prop :=
  match (Lib.Map.ofList (entries w.headers)).lookup (text "Content-Length") with
  | some n => n = text (toString w.body.length)
  | none => w.body = []

end WireRequest

/-! ### Values that start with a space

One space in front of a value is the parser's to skip, so a value may start with more. -/

/-- A header line: a value of any kind that does not break the line. -/
abbrev HeaderLine : Type := FieldName × Line

def HeaderLine.bytes (h : HeaderLine) : Bytes := h.1.val ++ (text ": " ++ h.2.val)

structure LaxRequest where
  method : Token
  target : Token
  version : Line
  headers : List HeaderLine
  body : Bytes

namespace LaxRequest

def fields (headers : List HeaderLine) : Bytes := headers.flatMap fun h => h.bytes ++ crlf

def requestLine (w : LaxRequest) : Bytes :=
  w.method.val ++ (ch ' ' :: (w.target.val ++ (ch ' ' :: w.version.val)))

def bytes (w : LaxRequest) : Bytes :=
  w.requestLine ++ (crlf ++ (fields w.headers ++ (crlf ++ w.body)))

def entries (headers : List HeaderLine) : List (Bytes × Bytes) :=
  headers.map fun h => (h.1.val, h.2.val)

theorem field_no_cr (h : HeaderLine) : ch '\r' ∉ h.bytes := by
  intro hc
  rcases List.mem_append.mp hc with hc | hc
  · exact (h.1.property _ hc).2.1 rfl
  · rcases List.mem_append.mp hc with hc | hc
    · revert hc
      decide
    · exact (h.2.property _ hc).1 rfl

theorem requestLine_no_cr (w : LaxRequest) : ch '\r' ∉ w.requestLine := by
  intro hc
  rcases List.mem_append.mp hc with hc | hc
  · exact (w.method.property _ hc).2.1 rfl
  · rcases List.mem_cons.mp hc with hc | hc
    · exact absurd hc (by decide)
    · rcases List.mem_append.mp hc with hc | hc
      · exact (w.target.property _ hc).2.1 rfl
      · rcases List.mem_cons.mp hc with hc | hc
        · exact absurd hc (by decide)
        · exact (w.version.property _ hc).1 rfl

/-- No header line starts with a carriage return. -/
theorem fields_head (h : HeaderLine) (rest : Bytes) :
    ∃ c v, h.bytes ++ rest = c :: v ∧ c ≠ ch '\r' := by
  cases hf : h.bytes with
  | nil =>
    have := congrArg List.length hf
    simp [HeaderLine.bytes, text] at this
  | cons c v =>
    refine ⟨c, v ++ rest, by simp, fun hc => ?_⟩
    apply field_no_cr h
    rw [hf, hc]
    exact List.mem_cons_self ..

end LaxRequest

/-- The same request, with what is known of its values left out. -/
def WireRequest.lax (w : WireRequest) : LaxRequest :=
  {method := w.method, target := w.target, version := w.version, body := w.body
   headers := w.headers.map fun h => (h.1, ⟨h.2.val, h.2.property.1⟩)}

theorem WireRequest.lax_bytes (w : WireRequest) : w.lax.bytes = w.bytes := by
  have hfields : LaxRequest.fields w.lax.headers = fields w.headers := List.flatMap_map ..
  show w.requestLine ++ (crlf ++ (LaxRequest.fields w.lax.headers ++ (crlf ++ w.body))) = w.bytes
  rw [hfields]
  rfl

theorem WireRequest.lax_entries (w : WireRequest) :
    LaxRequest.entries w.lax.headers = entries w.headers := List.map_map ..

/-! ### What the clients write -/

/-- `HttpClient::sendRequest`: the text put together before it is sent. -/
def sendRequestText (host : Bytes) (keepAlive : Bool) (method path : Bytes) : Bytes :=
  method ++ text " " ++ path ++ text " HTTP/1.1\r\n" ++
    text "Host: " ++ host ++ text "\r\n" ++
    text "Connection: " ++ (if keepAlive then text "keep-alive" else text "close") ++ text "\r\n" ++
    text "\r\n"

/-- `WebSocketClient::handshake`: the upgrade request, its key the sixteen random
bytes in base64. -/
def handshakeText (host : Bytes) (port : Int) (path random : Bytes) : Bytes :=
  text "GET " ++ path ++ text " HTTP/1.1\r\n" ++
    text "Host: " ++ host ++ text ":" ++ text (toString port) ++ text "\r\n" ++
    text "Upgrade: websocket\r\n" ++
    text "Connection: Upgrade\r\n" ++
    text "Sec-WebSocket-Key: " ++ Utils.base64Encode random ++ text "\r\n" ++
    text "Sec-WebSocket-Version: 13\r\n" ++
    text "\r\n"

end HttpServer
