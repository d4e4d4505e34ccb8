import HttpServer.Lib.Map
import HttpServer.Bytes

/-! `http::WebSocket`: what a WebSocket handler is given, and how a frame is told
from a request. -/
namespace HttpServer
open Lib

/-- An enumeration over `uint8_t`: a value without a name is a value too. -/
structure WsOpcode where
  value : UInt8
  deriving DecidableEq, Repr

namespace WsOpcode

def continuation : WsOpcode := ⟨0x0⟩
def textFrame : WsOpcode := ⟨0x1⟩
def binary : WsOpcode := ⟨0x2⟩
def close : WsOpcode := ⟨0x8⟩
def ping : WsOpcode := ⟨0x9⟩
def pong : WsOpcode := ⟨0xA⟩

end WsOpcode

structure Frame where
  fin : Bool := false
  opcode : WsOpcode := WsOpcode.continuation
  mask : Bool := false
  payloadLength : Nat := 0
  maskingKey : List UInt8 := []
  payloadData : Bytes := []
  textPayload : Bytes := []
  sockfd : Int

structure WebSocket where
  frame : Frame
  byteData : Bytes
  query : Map Bytes Bytes

/-- `WebSocket(sockfd, raw_request, query)`. -/
def WebSocket.make (sockfd : Int) (rawRequest : Bytes) (query : Map Bytes Bytes) : WebSocket :=
  {frame := {sockfd := sockfd}, byteData := rawRequest, query := query}

/-- The opcode of what starts like a final frame: two bytes at least, the FIN bit
set, an opcode up to 0xA. -/
def getWebSocketFrame (data : Bytes) : Option WsOpcode :=
  match data with
  | firstByte :: _ :: _ =>
    let opcode := firstByte &&& 0x0F
    let fin := (firstByte &&& 0x80) != 0
    if 0xA < opcode then none
    else if fin && opcode ≤ 0xA then some ⟨opcode⟩
    else none
  | _ => none

/-! ### Reading a frame -/

namespace WebSocket

/-- `data[i]`, where the size has been looked at before. -/
def byteAt (data : Bytes) (i : Nat) : Nat := (data.getD i 0).toNat

/-- The extended length, two bytes or eight: the offset behind it, or nothing where
it is cut off. -/
def readLength (frame : Frame) (data : Bytes) (offset : Nat) : Frame × Option Nat :=
  if frame.payloadLength = 126 then
    if data.length < offset + 2 then (frame, none)
    else
      ({frame with payloadLength := byteAt data offset <<< 8 ||| byteAt data (offset + 1)},
        some (offset + 2))
  else if frame.payloadLength = 127 then
    if data.length < offset + 8 then (frame, none)
    else
      let length := (List.range 8).foldl
        (fun n i => n ||| byteAt data (offset + i) <<< (56 - 8 * i)) 0
      ({frame with payloadLength := length}, some (offset + 8))
  else (frame, some offset)

/-- The masking key of a frame that has one. -/
def readKey (frame : Frame) (data : Bytes) (offset : Nat) : Frame × Option Nat :=
  if frame.mask then
    if data.length < offset + 4 then (frame, none)
    else ({frame with maskingKey := (data.drop offset).take 4}, some (offset + 4))
  else (frame, some offset)

/-- The payload, unmasked, as text too in a text frame. The sum wraps around, and a
vector cannot be made longer than its largest size. -/
def readPayload (frame : Frame) (data : Bytes) (offset : Nat) : Except Thrown (Frame × Bool) :=
  if data.length < sizeAdd offset frame.payloadLength then .ok (frame, false)
  else if 9223372036854775808 ≤ frame.payloadLength then .error .lengthError
  else
    let payload := ((data.drop offset).take frame.payloadLength).mapIdx fun i b =>
      if frame.mask then b ^^^ frame.maskingKey.getD (i % 4) 0 else b
    let frame := {frame with payloadData := payload}
    let frame :=
      if frame.opcode = WsOpcode.textFrame then {frame with textPayload := frame.payloadData}
      else frame
    .ok (frame, true)

/-- `readFrame`: the frame afterwards, and what is returned. -/
def readFrame (frame : Frame) (data : Bytes) : Except Thrown (Frame × Bool) :=
  match data with
  | firstByte :: secondByte :: _ =>
    let frame := {frame with fin := (firstByte &&& 0x80) != 0, opcode := ⟨firstByte &&& 0x0F⟩}
    if frame.opcode = WsOpcode.close then .ok (frame, false)
    else
      let frame := {frame with
        mask := (secondByte &&& 0x80) != 0, payloadLength := (secondByte &&& 0x7F).toNat}
      match readLength frame data 2 with
      | (frame, none) => .ok (frame, false)
      | (frame, some offset) =>
        match readKey frame data offset with
        | (frame, none) => .ok (frame, false)
        | (frame, some offset) => readPayload frame data offset
  | _ => .ok (frame, false)

end WebSocket

/-! ### Writing a frame -/

namespace WebSocket

/-- `writeFrame(message, fin, opcode, mask)`, with the key that `rand` gave. A long message
gets the byte that announces two or eight bytes of length, and neither. -/
def writeFrame (maskKey : Bytes) (message : Bytes) (fin : Bool) (opcode : WsOpcode)
    (mask : Bool) : Bytes :=
  let firstByte := (if fin then 0x80 else 0x00) ||| opcode.value
  let length : UInt8 :=
    if message.length < 126 then UInt8.ofNat message.length
    else if message.length ≤ 0xFFFF then 126
    else 127
  if mask then
    firstByte :: (0x80 ||| length) ::
      (maskKey ++ message.mapIdx fun i b => b ^^^ maskKey.getD (i % 4) 0)
  else firstByte :: length :: message

end WebSocket

/-! ### Messages -/

/-- What `read` returns. -/
inductive Result where
  | fail | text | binary | ping | pong
  deriving DecidableEq, Repr

/-- The frames `send` makes. -/
inductive FrameType where
  | text | binary
  deriving DecidableEq, Repr

def FrameType.value : FrameType → UInt8
  | text => 0x01
  | binary => 0x02

namespace WebSocket

/-- The socket after `read(msg)`, the message, what was returned, and what was closed. -/
structure Reading where
  ws : WebSocket
  msg : Bytes
  result : Result
  closed : List Int

/-- `read(msg)`. -/
def read (ws : WebSocket) (msg : Bytes) : Except Thrown Reading := do
  let (frame, complete) ← readFrame ws.frame ws.byteData
  let ws := {ws with frame := frame}
  if !complete then .ok {ws := ws, msg := msg, result := .fail, closed := []}
  else if frame.opcode = WsOpcode.close then
    .ok {ws := ws, msg := msg, result := .fail, closed := [frame.sockfd]}
  else
    let result : Result :=
      if frame.opcode = WsOpcode.textFrame then .text
      else if frame.opcode = WsOpcode.binary then .binary
      else if frame.opcode = WsOpcode.ping then .ping
      else if frame.opcode = WsOpcode.pong then .pong
      else .fail
    .ok {ws := ws, msg := frame.textPayload, result := result, closed := []}

/-- `send(msg, type)`: the buffer handed to the transport. A long message gets the
127 that announces eight bytes of length, without the eight bytes. -/
def send (msg : Bytes) (type : FrameType) : Bytes :=
  (0x80 ||| type.value) ::
    (if msg.length < 126 then [UInt8.ofNat msg.length]
    else if msg.length ≤ 0xFFFF then
      [126, UInt8.ofNat ((msg.length >>> 8) &&& 0xFF), UInt8.ofNat (msg.length &&& 0xFF)]
    else [127]) ++ msg

end WebSocket
end HttpServer
