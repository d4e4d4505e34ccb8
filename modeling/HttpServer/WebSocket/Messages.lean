import HttpServer.WebSocket.Codec

/-! Messages sent and read.

The client writes its frames as the format has them and `readFrame` gets every payload
back. `read` hands on the text of a frame alone, so that only text arrives as a message,
and the server's `send` leaves out the length of what is longer than 65535 bytes. -/
namespace HttpServer
open Lib

/-! ### Length fields -/

theorem ofNat_low_byte (n : Nat) : UInt8.ofNat (n &&& 0xFF) = UInt8.ofNat (n % 256) :=
  congrArg UInt8.ofNat (Nat.and_two_pow_sub_one_eq_mod n 8)

/-- Shifted and masked byte by byte, a length is written out in its field. -/
theorem lengthBytes_eq (k n : Nat) :
    (List.range k).reverse.map (WebSocketClient.lengthByte n) = WireFrame.bytesOf k n := by
  induction k generalizing n with
  | zero => rfl
  | succ k ih =>
    have hnext : WebSocketClient.lengthByte n ∘ Nat.succ =
        WebSocketClient.lengthByte (n / 256) := by
      funext i
      show UInt8.ofNat ((n >>> (8 * (i + 1))) &&& 0xFF) =
        UInt8.ofNat (((n / 256) >>> (8 * i)) &&& 0xFF)
      rw [show 8 * (i + 1) = 8 + 8 * i by omega, Nat.shiftRight_add,
        Nat.shiftRight_eq_div_pow n 8]
    have hlast : WebSocketClient.lengthByte n 0 = UInt8.ofNat (n % 256) := ofNat_low_byte n
    rw [List.range_succ_eq_map, List.reverse_cons, List.map_append, ← List.map_reverse,
      List.map_map, hnext, ih, List.map_singleton, hlast, WireFrame.bytesOf, WireFrame.bytesOf,
      Digits.places, List.map_append, List.map_singleton]

/-- The client's length field is the one of the format. -/
theorem lengthField_eq (n : Nat) :
    WebSocketClient.lengthField n = WireFrame.shortLength n :: WireFrame.longLength n := by
  unfold WebSocketClient.lengthField WireFrame.shortLength WireFrame.longLength
  by_cases hshort : n ≤ 125
  · rw [if_pos hshort, if_pos (show n < 126 by omega), if_pos (show n < 126 by omega)]
  · rw [if_neg hshort, if_neg (show ¬ n < 126 by omega), if_neg (show ¬ n < 126 by omega)]
    by_cases hword : n ≤ 65535
    · rw [if_pos hword, if_pos (show n < 65536 by omega), if_pos (show n < 65536 by omega),
        ← lengthBytes_eq]
      rfl
    · rw [if_neg hword, if_neg (show ¬ n < 65536 by omega), if_neg (show ¬ n < 65536 by omega),
        lengthBytes_eq]

/-- A final frame without a key. -/
def plainFrame (opcode : {o : UInt8 // o < 16 ∧ o ≠ 8}) (payload : Buffer) : WireFrame :=
  {fin := true, opcode := opcode, key := none, payload := payload}

theorem plainFrame_bytes (opcode : {o : UInt8 // o < 16 ∧ o ≠ 8}) (payload : Buffer) :
    (plainFrame opcode payload).bytes = (0x80 ||| opcode.val) ::
      WebSocketClient.lengthField payload.val.length ++ payload.val := by
  have hsecond : (plainFrame opcode payload).secondByte =
      WireFrame.shortLength payload.val.length := UInt8.zero_or
  rw [WireFrame.bytes, hsecond, lengthField_eq]
  rfl

/-! ### What the client sends -/

/-- The three ways a client sends a message. -/
inductive Sending where
  | text | binary | ping
  deriving DecidableEq, Repr

namespace Sending

/-- What is put on the wire. -/
def bytes (message : Bytes) : Sending → Bytes
  | text => WebSocketClient.sendMessage message false
  | binary => WebSocketClient.sendMessage message true
  | ping => WebSocketClient.sendPing message

/-- What `read` is to return for it. -/
def result : Sending → Result
  | text => .text
  | binary => .binary
  | ping => .ping

def opcode : Sending → {o : UInt8 // o < 16 ∧ o ≠ 8}
  | text => ⟨0x1, by decide⟩
  | binary => ⟨0x2, by decide⟩
  | ping => ⟨0x9, by decide⟩

theorem bytes_eq (k : Sending) (message : Buffer) :
    k.bytes message.val = (plainFrame k.opcode message).bytes := by
  rw [plainFrame_bytes]
  cases k <;> rfl

end Sending

namespace WebSocket

theorem readFrame_sent (frame : Frame) (k : Sending) (message : Buffer) :
    readFrame frame (k.bytes message.val) =
      .ok (received frame (plainFrame k.opcode message), true) := by
  have hread := readFrame_wire frame (plainFrame k.opcode message) []
  rwa [List.append_nil, ← Sending.bytes_eq] at hread

/-- **Frames are read as they are written**: the flags and the payload of every frame
but a Close, under a key or not, in the three forms of the length and with anything
behind it; and every payload of the client. -/
theorem readFrame_correct (frame : Frame) :
    (∀ (w : WireFrame) (rest : Bytes), ∃ f, readFrame frame (w.bytes ++ rest) = .ok (f, true) ∧
      f.fin = w.fin ∧ f.opcode = ⟨w.opcode.val⟩ ∧ f.mask = w.key.isSome ∧
      f.payloadLength = w.payload.val.length ∧ f.payloadData = w.payload.val) ∧
    (∀ (message : Buffer) (isBinary : Bool), ∃ f,
      readFrame frame (WebSocketClient.sendMessage message.val isBinary) = .ok (f, true) ∧
      f.payloadData = message.val) ∧
    ∀ payload : Buffer, ∃ f,
      readFrame frame (WebSocketClient.sendPing payload.val) = .ok (f, true) ∧
      f.payloadData = payload.val := by
  refine ⟨fun w rest => ?_, fun message isBinary => ?_, fun payload => ?_⟩
  · exact ⟨received frame w, readFrame_wire frame w rest, rfl, rfl, rfl, rfl, rfl⟩
  · cases isBinary with
    | false => exact ⟨_, readFrame_sent frame .text message, rfl⟩
    | true => exact ⟨_, readFrame_sent frame .binary message, rfl⟩
  · exact ⟨_, readFrame_sent frame .ping payload, rfl⟩

/-! ### What arrives -/

/-- What is read from the client's bytes: the right kind, but of text alone the message. -/
theorem read_sent (k : Sending) (message : Buffer) (sockfd : Int) (query : Map Bytes Bytes)
    (msg : Bytes) : ∃ r, read (WebSocket.make sockfd (k.bytes message.val) query) msg = .ok r ∧
      r.result = k.result ∧ r.msg = if k = .text then message.val else [] := by
  unfold read
  have hframe := readFrame_sent (WebSocket.make sockfd (k.bytes message.val) query).frame k message
  rw [show (WebSocket.make sockfd (k.bytes message.val) query).byteData =
    k.bytes message.val from rfl, hframe]
  cases k with
  | text => exact ⟨_, rfl, rfl, rfl⟩
  | binary => exact ⟨_, rfl, rfl, rfl⟩
  | ping => exact ⟨_, rfl, rfl, rfl⟩

/-- **A message arrives exactly where it was sent as text or is empty.** -/
theorem read_delivers_iff (k : Sending) (message : Buffer) (sockfd : Int)
    (query : Map Bytes Bytes) (msg : Bytes) :
    (∃ r, read (WebSocket.make sockfd (k.bytes message.val) query) msg = .ok r ∧
      r.result = k.result ∧ r.msg = message.val) ↔ k = .text ∨ message.val = [] := by
  obtain ⟨r, hread, hresult, hmsg⟩ := read_sent k message sockfd query msg
  constructor
  · intro h
    obtain ⟨r', hread', _, hmsg'⟩ := h
    rw [hread] at hread'
    rw [← Except.ok.inj hread', hmsg] at hmsg'
    split at hmsg'
    · next htext => exact .inl htext
    · exact .inr hmsg'.symm
  · intro h
    refine ⟨r, hread, hresult, hmsg.trans ?_⟩
    rcases h with htext | hempty
    · rw [if_pos htext]
    · rw [hempty, ite_self]

/-- A single letter sent as binary does not arrive. -/
theorem read_loses_binary : ¬ ∀ (k : Sending) (message : Buffer) (sockfd : Int)
    (query : Map Bytes Bytes) (msg : Bytes),
    ∃ r, read (WebSocket.make sockfd (k.bytes message.val) query) msg = .ok r ∧
      r.result = k.result ∧ r.msg = message.val := by
  intro h
  obtain ⟨r, hread, _, hmsg⟩ := h .binary ⟨[ch 'a'], by decide⟩ 0 ∅ []
  obtain ⟨r', hread', _, hmsg'⟩ := read_sent .binary ⟨[ch 'a'], by decide⟩ 0 ∅ []
  rw [hread] at hread'
  rw [← Except.ok.inj hread', hmsg] at hmsg'
  exact absurd hmsg' (by decide)

/-! ### What the server sends -/

theorem FrameType.opcode_ok (type : FrameType) : type.value < 16 ∧ type.value ≠ 8 := by
  cases type <;> decide

/-- Up to 65535 bytes the server sends a frame of the format. -/
theorem send_short (type : FrameType) {message : Buffer} (h : message.val.length ≤ 65535) :
    send message.val type = (plainFrame ⟨type.value, FrameType.opcode_ok type⟩ message).bytes := by
  rw [plainFrame_bytes, lengthField_eq]
  unfold send WireFrame.shortLength WireFrame.longLength
  by_cases hshort : message.val.length < 126
  · rw [if_pos hshort, if_pos hshort, if_pos hshort]
  · rw [if_neg hshort, if_neg hshort, if_neg hshort, if_pos h,
      if_pos (show message.val.length < 65536 by omega),
      if_pos (show message.val.length < 65536 by omega), ← lengthBytes_eq]
    rfl

/-- Behind 65535 bytes the first eight of them are taken for the length, and the frame
that is read, if any, is shorter than the message. -/
theorem send_long (frame : Frame) (type : FrameType) {message : Bytes}
    (h : 65535 < message.length) {f : Frame}
    (hread : readFrame frame (send message type) = .ok (f, true)) :
    f.payloadLength < message.length := by
  have hsend : send message type = (0x80 ||| type.value) :: 127 :: message := by
    unfold send
    rw [if_neg (by omega), if_neg (by omega)]
    rfl
  obtain ⟨_, hfits⟩ := readFrame_accepts hread
  have hheader : headerSize (send message type) = 10 := by
    rw [hsend]
    rfl
  rw [hheader, hsend] at hfits
  simp only [List.length_cons] at hfits
  omega

/-- The server's frame is read as the message exactly up to 65535 bytes. -/
theorem send_decodes_iff (frame : Frame) (message : Buffer) (type : FrameType) :
    (∃ f, readFrame frame (send message.val type) = .ok (f, true) ∧ f.fin = true ∧
      f.opcode = ⟨type.value⟩ ∧ f.payloadLength = message.val.length ∧
      f.payloadData = message.val) ↔ message.val.length ≤ 65535 := by
  constructor
  · intro h
    obtain ⟨f, hread, _, _, hlength, _⟩ := h
    rcases Nat.lt_or_ge 65535 message.val.length with hlong | hshort
    · exact absurd hlength (Nat.ne_of_lt (send_long frame type hlong hread))
    · exact hshort
  · intro h
    have hread := readFrame_wire frame
      (plainFrame ⟨type.value, FrameType.opcode_ok type⟩ message) []
    rw [List.append_nil, ← send_short type h] at hread
    exact ⟨_, hread, rfl, rfl, rfl, rfl⟩

/-- A message of 65536 bytes is lost. -/
theorem send_loses_long : ¬ ∀ (frame : Frame) (message : Buffer) (type : FrameType),
    ∃ f, readFrame frame (send message.val type) = .ok (f, true) ∧ f.fin = true ∧
      f.opcode = ⟨type.value⟩ ∧ f.payloadLength = message.val.length ∧
      f.payloadData = message.val := by
  intro h
  have hlen : (List.replicate 65536 (0 : UInt8)).length = 65536 := List.length_replicate
  obtain ⟨f, hread, _, _, hlength, _⟩ :=
    h {sockfd := 0} ⟨List.replicate 65536 0, by rw [hlen]; decide⟩ .text
  have hlong := send_long {sockfd := 0} .text (by rw [hlen]; decide) hread
  exact absurd hlength (Nat.ne_of_lt hlong)

end WebSocket
end HttpServer
