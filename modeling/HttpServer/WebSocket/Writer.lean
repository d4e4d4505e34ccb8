import HttpServer.WebSocket.Codec

/-! `writeFrame` and the reader of its own class.

Up to 125 bytes the two lay a frame out alike (`writeFrame_bytes`). From 126 on the reader
takes the length from bytes that were written for the key or the message, and what it
accepts is shorter than the message (`writeFrame_loses`). -/
namespace HttpServer.WebSocket

/-- A short message is written as the format has it. -/
theorem writeFrame_bytes (key : MaskingKey) {message : Bytes} (fin : Bool)
    {opcode : WsOpcode} (mask : Bool) (hlen : message.length < 126)
    (hopcode : opcode.value < 16 ∧ opcode.value ≠ 8) :
    writeFrame key.val message fin opcode mask =
      WireFrame.bytes {
        fin := fin, opcode := ⟨opcode.value, hopcode⟩
        key := if mask then some key else none, payload := ⟨message, by omega⟩} := by
  cases mask
  · simp [writeFrame, WireFrame.bytes, WireFrame.firstByte, WireFrame.secondByte,
      WireFrame.longLength, WireFrame.shortLength, WireFrame.keyBytes, WireFrame.payloadBytes, hlen]
  · simp [writeFrame, WireFrame.bytes, WireFrame.firstByte, WireFrame.secondByte,
      WireFrame.longLength, WireFrame.shortLength, WireFrame.keyBytes, WireFrame.payloadBytes,
      WireFrame.masked, hlen]

theorem writeFrame_length (key : MaskingKey) (message : Bytes) (fin : Bool) (opcode : WsOpcode)
    (mask : Bool) : (writeFrame key.val message fin opcode mask).length =
      2 + (if mask then 4 else 0) + message.length := by
  have hkey := key.property
  cases mask
  · simp [writeFrame]
    omega
  · simp [writeFrame, hkey]
    omega

/-- What the reader takes for the header of a long message. -/
theorem writeFrame_header (key : MaskingKey) {message : Bytes} (fin : Bool) (opcode : WsOpcode)
    (mask : Bool) (hlen : 126 ≤ message.length) :
    2 + (if mask then 4 else 0) < headerSize (writeFrame key.val message fin opcode mask) := by
  have hshort : ¬ message.length < 126 := Nat.not_lt.mpr hlen
  unfold writeFrame
  cases mask
  · simp only [hshort, if_false, Bool.false_eq_true, headerSize]
    split <;> decide
  · simp only [hshort, if_false, if_true, headerSize]
    split <;> decide

theorem readPayload_length {frame f : Frame} {data : Bytes} {offset : Nat} (hoffset : offset ≤ 14)
    (h : readPayload frame data offset = .ok (f, true)) :
    f.payloadData.length = f.payloadLength := by
  obtain ⟨hlength, hfits⟩ := readPayload_accepts hoffset h
  unfold readPayload at h
  split at h
  · cases h
  · split at h
    · cases h
    · rw [hlength, ← (Prod.mk.inj (Except.ok.inj h)).1, apply_ite Frame.payloadData, ite_self,
        List.length_mapIdx, List.length_take, List.length_drop]
      omega

/-- What is read back of a long message is never all of it. -/
theorem writeFrame_loses {frame f : Frame} (key : MaskingKey) {message : Bytes} (fin : Bool)
    (opcode : WsOpcode) (mask : Bool) (hlen : 126 ≤ message.length)
    (h : readFrame frame (writeFrame key.val message fin opcode mask) = .ok (f, true)) :
    f.payloadData.length < message.length := by
  obtain ⟨f', offset, hheader, hpayload⟩ := readFrame_complete h
  obtain ⟨rfl, _⟩ := readHeader_accepts hheader
  have hsize := (readFrame_accepts h).2
  rw [readPayload_length (headerSize_le _) hpayload]
  rw [writeFrame_length] at hsize
  have hlong := writeFrame_header key fin opcode mask hlen
  omega

/-- **A frame is read back as it was written up to 125 bytes of message and not beyond**,
masked or not, with an opcode of four bits. -/
theorem readFrame_writeFrame_iff (frame : Frame) (key : MaskingKey) (message : Bytes) (fin : Bool)
    {opcode : WsOpcode} (hopcode : opcode ≠ WsOpcode.close) (mask : Bool) :
    (∃ f, readFrame frame (writeFrame key.val message fin opcode mask) = .ok (f, true) ∧
      f.fin = fin ∧ f.opcode = opcode ∧ f.mask = mask ∧ f.payloadData = message) ↔
      message.length < 126 ∧ opcode.value < 16 := by
  refine ⟨fun h => ?_, fun h => ?_⟩
  · obtain ⟨f, hread, _, hsame, _, hpayload⟩ := h
    refine ⟨?_, ?_⟩
    · apply Nat.lt_of_not_le
      intro hlen
      have hlost := writeFrame_loses key fin opcode mask hlen hread
      rw [hpayload] at hlost
      exact Nat.lt_irrefl _ hlost
    · rw [readFrame_opcode hread] at hsame
      rw [← hsame]
      exact UInt8.lt_iff_toNat_lt.mpr (Nat.lt_of_le_of_lt Nat.and_le_right (by decide))
  · obtain ⟨hlen, hfour⟩ := h
    have hvalue : opcode.value ≠ 8 := fun heq => hopcode (congrArg WsOpcode.mk heq)
    have hread := readFrame_wire frame {
      fin := fin, opcode := ⟨opcode.value, hfour, hvalue⟩
      key := if mask then some key else none, payload := ⟨message, by omega⟩} []
    rw [List.append_nil, ← writeFrame_bytes key fin mask hlen ⟨hfour, hvalue⟩] at hread
    refine ⟨_, hread, rfl, rfl, ?_, rfl⟩
    cases mask <;> rfl

theorem readFrame_writeFrame_iff_text :
    (∃ f, readFrame {sockfd := 4}
        (writeFrame [0x37, 0xfa, 0x21, 0x3d] (text "Hello") true WsOpcode.textFrame true) =
          .ok (f, true) ∧
      f.fin = true ∧ f.opcode = WsOpcode.textFrame ∧ f.mask = true ∧
      f.payloadData = text "Hello") ↔
      (text "Hello").length < 126 ∧ WsOpcode.textFrame.value < 16 :=
  readFrame_writeFrame_iff {sockfd := 4} ⟨[0x37, 0xfa, 0x21, 0x3d], rfl⟩ (text "Hello") true
    (by decide) true

/-- 126 zeros: the reader takes the first two for the length, and reads an empty message. -/
theorem readFrame_writeFrame_long :
    ¬ ∃ f, readFrame {sockfd := 4}
        (writeFrame [0, 0, 0, 0] (List.replicate 126 0) true WsOpcode.binary false) =
          .ok (f, true) ∧
      f.fin = true ∧ f.opcode = WsOpcode.binary ∧ f.mask = false ∧
      f.payloadData = List.replicate 126 0 := by
  intro h
  obtain ⟨f, hread, _, _, _, hpayload⟩ := h
  have hempty : (readFrame {sockfd := 4}
      (writeFrame [0, 0, 0, 0] (List.replicate 126 0) true WsOpcode.binary false)).toOption.map
        (fun result => result.1.payloadData.length) = some 0 := by
    decide +kernel
  rw [hread] at hempty
  simp [hpayload, Except.toOption] at hempty

end HttpServer.WebSocket
