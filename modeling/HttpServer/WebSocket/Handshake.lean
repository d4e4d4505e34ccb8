import HttpServer.Request.Parse
import HttpServer.Server
import HttpServer.WebSocketClient

/-! The opening handshake.

What `WebSocketClient::handshake` writes is read by the server as a request with every
header `processWebsocketHandshake` asks for: sixteen bytes in base64 are twenty-four
with two of padding. The answer holds the words the client looks for. -/
namespace HttpServer
open Lib Lib.Search Utils

/-- The upgrade request as it is put together. -/
def upgradeRequest (host : Line) (port : Int) (path : Token) (random : Bytes) : LaxRequest :=
  {method := ⟨text "GET", every_char (by decide)⟩, target := path
   version := ⟨text "HTTP/1.1", http_line⟩
   headers := [
     (⟨text "Host", host_name⟩, ⟨host.val ++ (text ":" ++ text (toString port)),
       Request.hostPort_no_break host.property port⟩),
     (⟨text "Upgrade", every_char (by decide)⟩, ⟨text "websocket", every_char (by decide)⟩),
     (⟨text "Connection", connection_name⟩, ⟨text "Upgrade", every_char (by decide)⟩),
     (⟨text "Sec-WebSocket-Key", every_char (by decide)⟩,
       ⟨base64Encode random, (Request.base64_no_break random).1⟩),
     (⟨text "Sec-WebSocket-Version", every_char (by decide)⟩, ⟨text "13", every_char (by decide)⟩)]
   body := []}

theorem upgradeRequest_bytes (host : Line) (port : Int) (path : Token) (random : Bytes) :
    (upgradeRequest host port path random).bytes =
      handshakeText host.val port path.val random := by
  simp [upgradeRequest, LaxRequest.bytes, LaxRequest.requestLine, LaxRequest.fields,
    HeaderLine.bytes, crlf, handshakeText, text]

/-- The key of a handshake: twenty-four bytes, the last two of padding. -/
theorem key_padded {random : Bytes} (h : random.length = 16) :
    (base64Encode random).length = 24 ∧ (base64Encode random)[22]? = some (ch '=') ∧
      (base64Encode random)[23]? = some (ch '=') := by
  obtain ⟨body, hbody, hlen⟩ := Lib.Base64.encode_padded random
  rw [h] at hbody hlen
  have hlen' : body.length = 22 := hlen
  rw [base64Encode_eq, hbody]
  refine ⟨?_, ?_, ?_⟩
  · rw [List.length_append, hlen']
    rfl
  · rw [List.getElem?_append_right (by omega), hlen']
    rfl
  · rw [List.getElem?_append_right (by omega), hlen']
    rfl

/-- Words within what one `recv` gets are found. -/
theorem upgraded_of_words {u v : Bytes} (h : u.length + 23 ≤ 4095) :
    WebSocketClient.upgraded
      (WebSocketClient.recvBuffer (u ++ (text "101 Switching Protocols" ++ v))) = true := by
  generalize hs : WebSocketClient.recvBuffer (u ++ (text "101 Switching Protocols" ++ v)) = s
  have hwords : (text "101 Switching Protocols").length = 23 := rfl
  have hlen : u.length + 23 ≤ s.length := by
    rw [← hs, WebSocketClient.recvBuffer, List.length_take, List.length_append,
      List.length_append, hwords]
    omega
  have hpre : text "101 Switching Protocols" <+: s.drop u.length := by
    rw [← hs, WebSocketClient.recvBuffer, List.drop_take, List.drop_left]
    apply List.prefix_take_iff.mpr
    exact ⟨List.prefix_append .., by omega⟩
  obtain ⟨i, hfind, _⟩ := findFrom_le (Nat.zero_le u.length) (by omega) hpre
  rw [WebSocketClient.upgraded, if_neg (by omega), hfind]
  rfl

/-- The status line of the answer, and what follows it. -/
theorem handshakeResponse_status (clientKey : Bytes) : ∃ rest, handshakeResponse clientKey =
    text "HTTP/1.1 " ++ (text "101 Switching Protocols" ++ (text "\r\n" ++ rest)) := by
  refine ⟨text "Upgrade: websocket\r\nConnection: Upgrade\r\n" ++
    text "Sec-WebSocket-Accept: " ++ base64Encode (sha1 (clientKey ++ magic)) ++
    text "\r\n\r\n", ?_⟩
  simp [handshakeResponse, text]

/-! ### Which handshakes are accepted -/

/-- A key of twenty-four bytes with its padding. -/
def RightKey (clientKey : Bytes) : Prop :=
  clientKey.length = 24 ∧ clientKey[22]? = some (ch '=') ∧ clientKey[23]? = some (ch '=')

/-- The three headers of an opening handshake, `clientKey` among them. -/
structure Accepts (headers : Map Bytes Bytes) (clientKey : Bytes) : Prop where
  upgrade : headers.lookup (text "Upgrade") = some (text "websocket")
  connection : headers.lookup (text "Connection") = some (text "Upgrade")
  key : headers.lookup (text "Sec-WebSocket-Key") = some clientKey
  right : RightKey clientKey

/-- A handshake is answered with a 101, and everything else is refused without an answer. -/
structure Decided (req : Request) : Prop where
  accepted : ∀ clientKey, Accepts req.headers clientKey →
    processWebsocketHandshake req = .ok (some (handshakeResponse clientKey))
  refused : (∀ clientKey, ¬ Accepts req.headers clientKey) →
    processWebsocketHandshake req = .ok none

/-- What the server answers to such a key, whatever `Connection` says. -/
theorem handshake_answered {req : Request} {connection clientKey : Bytes}
    (hupgrade : req.headers.lookup (text "Upgrade") = some (text "websocket"))
    (hconnection : req.headers.lookup (text "Connection") = some connection)
    (hkey : req.headers.lookup (text "Sec-WebSocket-Key") = some clientKey)
    (hright : RightKey clientKey) :
    processWebsocketHandshake req = .ok (some (handshakeResponse clientKey)) := by
  have hne : clientKey ≠ [] := by
    intro hnil
    rw [hnil] at hright
    cases hright.1
  unfold processWebsocketHandshake
  simp only [hupgrade, hconnection, hkey]
  rw [if_neg (by decide), if_neg hne, if_neg]
  intro hbad
  rcases hbad with hbad | hbad | hbad
  · exact hbad hright.1
  · exact hbad hright.2.1
  · exact hbad hright.2.2

/-- Nine bytes that start like `websocket` and are `websocket` are just that. -/
theorem upgrade_wrong {upgradeValue : Bytes} (h : upgradeValue ≠ text "websocket") :
    upgradeValue.length ≠ 9 ∨
      (upgradeValue[0]? ≠ some (ch 'w') ∧ upgradeValue[0]? ≠ some (ch 'W')) ∨
      upgradeValue.take 9 ≠ text "websocket" := by
  by_cases hlen : upgradeValue.length = 9
  · right
    right
    rwa [List.take_of_length_le (by omega)]
  · exact .inl hlen

/-- With another `Upgrade` or without such a key nothing is answered, if there is a
`Connection` header. -/
theorem handshake_refused {req : Request} {connection : Bytes}
    (hconnection : req.headers.lookup (text "Connection") = some connection)
    (h : ¬ (req.headers.lookup (text "Upgrade") = some (text "websocket") ∧
      ∃ clientKey, req.headers.lookup (text "Sec-WebSocket-Key") = some clientKey ∧
        RightKey clientKey)) : processWebsocketHandshake req = .ok none := by
  unfold processWebsocketHandshake
  cases hupgrade : req.headers.lookup (text "Upgrade") with
  | none => rfl
  | some upgradeValue =>
    simp only [hconnection]
    by_cases hvalue : upgradeValue = text "websocket"
    · rw [if_neg (by rw [hvalue]; decide)]
      cases hkey : req.headers.lookup (text "Sec-WebSocket-Key") with
      | none => rfl
      | some clientKey =>
        simp only
        split
        · rfl
        · rw [if_pos]
          by_contra hright
          rw [not_or, not_or, not_not, not_not, not_not] at hright
          exact h ⟨by rw [hupgrade, hvalue], clientKey, hkey, hright⟩
    · rw [if_pos (upgrade_wrong hvalue)]

/-- Without a `Connection` header its value is looked at. -/
theorem handshake_undefined {req : Request} {upgradeValue : Bytes}
    (hupgrade : req.headers.lookup (text "Upgrade") = some upgradeValue)
    (hconnection : req.headers.lookup (text "Connection") = none) :
    processWebsocketHandshake req = .error .undefined := by
  unfold processWebsocketHandshake
  simp only [hupgrade, hconnection]

/-- **A handshake is decided by its headers, if there is a `Connection` header that says
`Upgrade` or the other two settle it**, and not otherwise. -/
theorem handshake_decided_iff (req : Request) :
    Decided req ↔ req.headers.lookup (text "Upgrade") = none ∨
      ∃ connection, req.headers.lookup (text "Connection") = some connection ∧
        (connection = text "Upgrade" ∨
          ¬ (req.headers.lookup (text "Upgrade") = some (text "websocket") ∧
            ∃ clientKey, req.headers.lookup (text "Sec-WebSocket-Key") = some clientKey ∧
              RightKey clientKey)) := by
  have hunfit : ∀ clientKey, Accepts req.headers clientKey →
      req.headers.lookup (text "Upgrade") = some (text "websocket") ∧
        ∃ clientKey, req.headers.lookup (text "Sec-WebSocket-Key") = some clientKey ∧
          RightKey clientKey :=
    fun clientKey h => ⟨h.upgrade, clientKey, h.key, h.right⟩
  constructor
  · intro h
    cases hupgrade : req.headers.lookup (text "Upgrade") with
    | none => exact .inl rfl
    | some upgradeValue =>
      right
      cases hconnection : req.headers.lookup (text "Connection") with
      | none =>
        have hnone : ∀ clientKey, ¬ Accepts req.headers clientKey := by
          intro clientKey hbad
          rw [hbad.connection] at hconnection
          cases hconnection
        have hrefused := h.refused hnone
        rw [handshake_undefined hupgrade hconnection] at hrefused
        cases hrefused
      | some connection =>
        refine ⟨connection, rfl, ?_⟩
        by_contra hboth
        rw [not_or, not_not] at hboth
        obtain ⟨hother, hwebsocket, clientKey, hkey, hright⟩ := hboth
        have hnone : ∀ clientKey, ¬ Accepts req.headers clientKey := by
          intro clientKey hbad
          rw [hbad.connection] at hconnection
          exact hother (Option.some.inj hconnection).symm
        have hanswered := handshake_answered (hupgrade.trans hwebsocket) hconnection hkey hright
        rw [h.refused hnone] at hanswered
        cases hanswered
  · intro h
    refine ⟨fun clientKey haccepts => ?_, fun hnone => ?_⟩
    · exact handshake_answered haccepts.upgrade haccepts.connection haccepts.key haccepts.right
    · rcases h with hupgrade | ⟨connection, hconnection, rfl | hwrong⟩
      · unfold processWebsocketHandshake
        rw [hupgrade]
      · refine handshake_refused hconnection fun ⟨hwebsocket, clientKey, hkey, hright⟩ => ?_
        exact hnone clientKey ⟨hwebsocket, hconnection, hkey, hright⟩
      · exact handshake_refused hconnection hwrong

/-- A request with these headers. -/
def withHeaders (headers : List (Bytes × Bytes)) : Request := {headers := Map.ofList headers}

/-- A handshake without `Connection`, and one on a connection that is to be closed. -/
theorem handshake_undecided :
    (processWebsocketHandshake (withHeaders [(text "Upgrade", text "websocket"),
        (text "Sec-WebSocket-Key", text "AAAAAAAAAAAAAAAAAAAAAA==")]) = .error .undefined ∧
      ¬ Decided (withHeaders [(text "Upgrade", text "websocket"),
        (text "Sec-WebSocket-Key", text "AAAAAAAAAAAAAAAAAAAAAA==")])) ∧
    ¬ Decided (withHeaders [(text "Upgrade", text "websocket"),
        (text "Connection", text "close"),
        (text "Sec-WebSocket-Key", text "AAAAAAAAAAAAAAAAAAAAAA==")]) := by
  have hundefined : processWebsocketHandshake (withHeaders [(text "Upgrade", text "websocket"),
      (text "Sec-WebSocket-Key", text "AAAAAAAAAAAAAAAAAAAAAA==")]) = .error .undefined := by
    decide +kernel
  refine ⟨⟨hundefined, fun h => ?_⟩, fun h => ?_⟩
  · have hrefused := h.refused fun clientKey haccepts =>
      absurd haccepts.connection (by decide +kernel)
    rw [hundefined] at hrefused
    cases hrefused
  · have hanswered : processWebsocketHandshake (withHeaders [(text "Upgrade", text "websocket"),
        (text "Connection", text "close"),
        (text "Sec-WebSocket-Key", text "AAAAAAAAAAAAAAAAAAAAAA==")]) ≠ .ok none := by
      decide +kernel
    exact hanswered (h.refused fun clientKey haccepts =>
      absurd haccepts.connection (by decide +kernel))

/-! ### The client's handshake -/

/-- A request that starts with `GE` is no frame: its first byte ends none. -/
theorem getWebSocketFrame_get (rest : Bytes) :
    getWebSocketFrame (ch 'G' :: ch 'E' :: rest) = none := rfl

theorem handshakeText_get (host : Line) (port : Int) (path : Token) (random : Bytes) :
    ∃ rest, handshakeText host.val port path.val random = ch 'G' :: ch 'E' :: rest := by
  have hget : text "GET" = [ch 'G', ch 'E', ch 'T'] := text_ofList _
  rw [← upgradeRequest_bytes]
  show ∃ rest, (text "GET" ++ _) ++ _ = _
  rw [hget]
  exact ⟨_, rfl⟩

/-- **Client and server agree on the handshake**: what the client writes is no frame, is
read with the target up to its question mark, and is answered with a 101 that the client
takes for one. -/
theorem handshake_agrees (random : {r : Bytes // r.length = 16}) (host : Line) (port : Int)
    (path : Token) :
    getWebSocketFrame (handshakeText host.val port path.val random.val) = none ∧
    ∃ req, Request.ofRaw (handshakeText host.val port path.val random.val) = .ok req ∧
      req.normalizePath = path.val.takeWhile (· ≠ ch '?') ∧
      ∃ message, processWebsocketHandshake req = .ok (some message) ∧
        text "HTTP/1.1 101 Switching Protocols\r\n" <+: message ∧
        WebSocketClient.upgraded (WebSocketClient.recvBuffer message) = true := by
  obtain ⟨req, hreq, _, _, _, _, hheaders, hnorm, _⟩ :=
    Request.ofRaw_lax (upgradeRequest host port path random.val)
  rw [upgradeRequest_bytes] at hreq
  have hlookup : ∀ name, req.headers.lookup name = Map.lastValue
      (LaxRequest.entries (upgradeRequest host port path random.val).headers) name := by
    intro name
    rw [hheaders, Map.lookup_ofList]
  obtain ⟨hlen, hpad, hpad'⟩ := key_padded random.property
  obtain ⟨rest, hstatus⟩ := handshakeResponse_status (base64Encode random.val)
  have hframe : getWebSocketFrame (handshakeText host.val port path.val random.val) = none := by
    obtain ⟨rest, hget⟩ := handshakeText_get host port path random.val
    rw [hget]
    exact getWebSocketFrame_get rest
  have hupgrade := hlookup (text "Upgrade")
  have hconnection := hlookup (text "Connection")
  have hkey := hlookup (text "Sec-WebSocket-Key")
  have hpath : req.normalizePath = path.val.takeWhile (· ≠ ch '?') := hnorm
  have hready := handshake_answered hupgrade hconnection hkey ⟨hlen, hpad, hpad'⟩
  refine ⟨hframe, req, hreq, hpath, handshakeResponse (base64Encode random.val), ?_, ?_, ?_⟩
  · exact hready
  · refine ⟨rest, ?_⟩
    rw [hstatus]
    simp [text]
  · rw [hstatus]
    exact upgraded_of_words (by decide)

end HttpServer
