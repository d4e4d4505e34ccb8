import HttpServer.WebSocket

/-! `WebSocketClient`: the frames it puts on the wire, and how it reads the answer to
its handshake.

`sendMessage` and `sendPing` write the same frame around their payload, with a first
byte of their own. What the handshake sends is `handshakeText`, among the requests. -/
namespace HttpServer.WebSocketClient
open Lib.Search (findFrom)

/-- What one `recv` of the handshake gets of bytes that are there. -/
def recvBuffer (sent : Bytes) : Bytes := sent.take 4095

/-- What `handshake` returns on the bytes received. -/
def upgraded (received : Bytes) : Bool :=
  if received.length = 0 then false
  else (findFrom (text "101 Switching Protocols") received 0).isSome

/-- `(len >> (8 * i)) & 0xFF`. -/
def lengthByte (len i : Nat) : UInt8 := UInt8.ofNat ((len >>> (8 * i)) &&& 0xFF)

/-- The payload length in one, three or nine bytes. -/
def lengthField (len : Nat) : Bytes :=
  if len ≤ 125 then [UInt8.ofNat len]
  else if len ≤ 65535 then [126, lengthByte len 1, lengthByte len 0]
  else 127 :: ((List.range 8).reverse.map fun i => lengthByte len i)

def frame (firstByte : UInt8) (payload : Bytes) : Bytes :=
  firstByte :: lengthField payload.length ++ payload

/-- `sendMessage(message, is_binary)` of a connected client. -/
def sendMessage (message : Bytes) (isBinary : Bool) : Bytes :=
  frame (0x80 ||| (if isBinary then 0x02 else 0x01)) message

/-- `sendPing(payload)` of a connected client. -/
def sendPing (payload : Bytes) : Bytes := frame 0x89 payload

end HttpServer.WebSocketClient
