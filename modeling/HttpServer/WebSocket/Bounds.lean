import HttpServer.WebSocket.Codec

/-! What `readFrame` reads, and whether the buffer has it.

The sum of the offset and the length in the header is a `size_t`: a length near 2^64 takes
it past zero and through the check. `Wraps` are the buffers with such a header; on all
others nothing outside is read, and what is made room for is there. -/
namespace HttpServer.WebSocket
open Lib

theorem readLength_refuses {frame f : Frame} {data : Bytes} {offset : Nat}
    (h : readLength frame data offset = (f, none)) :
    (frame.payloadLength = 126 ∧ data.length < offset + 2) ∨
      (frame.payloadLength = 127 ∧ data.length < offset + 8) := by
  unfold readLength at h
  split at h
  · next hword =>
    split at h
    · next hroom => exact .inl ⟨hword, hroom⟩
    · cases h
  · split at h
    · next hlong =>
      split at h
      · next hroom => exact .inr ⟨hlong, hroom⟩
      · cases h
    · cases h

theorem readKey_refuses {frame f : Frame} {data : Bytes} {offset : Nat}
    (h : readKey frame data offset = (f, none)) :
    frame.mask = true ∧ data.length < offset + 4 := by
  unfold readKey at h
  split at h
  · next hmask =>
    split at h
    · next hroom => exact ⟨hmask, hroom⟩
    · cases h
  · cases h

theorem readHeader_payload {frame f : Frame} {data : Bytes} {offset : Nat}
    (h : readHeader frame data = some (f, offset)) :
    f.payloadData = frame.payloadData ∧ f.textPayload = frame.textPayload := by
  match data, h with
  | [], h => cases h
  | [_], h => cases h
  | first :: second :: rest, h =>
    unfold readHeader at h
    simp only at h
    split at h
    · cases h
    · split at h
      · cases h
      · next hlength =>
        split at h
        · cases h
        · next hkey =>
          cases h
          obtain ⟨hdata, _, htext⟩ := readKey_payload hkey
          obtain ⟨hdata', _, htext'⟩ := readLength_payload hlength
          exact ⟨hdata.trans hdata', htext.trans htext'⟩

/-- The length that a header gives fits eight bytes. -/
theorem frameSize_lt {data : Bytes} {n : Nat} (h : frameSize data = some n) :
    2 ≤ data.length ∧ n < headerSize data + 18446744073709551616 := by
  have hword : ∀ b : Bytes, b.length ≤ 8 → bigEndian b < 18446744073709551616 := by
    intro b hle
    have hlt := @Digits.value_lt 256 (b.map UInt8.toNat) fun d hd => by
      obtain ⟨c, _, rfl⟩ := List.mem_map.mp hd
      exact c.toNat_lt
    rw [← bigEndian_eq, List.length_map] at hlt
    exact Nat.lt_of_lt_of_le hlt (Nat.pow_le_pow_right (show 0 < 256 by decide) hle)
  obtain ⟨first, second, rest, rfl, hform⟩ := frameSize_eq_some.mp h
  refine ⟨by simp, ?_⟩
  simp only [headerSize]
  rcases hform with ⟨hshort, rfl⟩ | ⟨size, hsize, hroom, rfl⟩
  · rw [if_pos hshort]
    omega
  · have hlt := hword (rest.take size) (by rw [List.length_take]; omega)
    rcases hsize with ⟨hlength, rfl⟩ | ⟨hlength, rfl⟩
    · have hlong : ¬ (second &&& 0x7F).toNat < 126 := by omega
      rw [if_neg hlong, if_pos hlength]
      omega
    · have hlong : ¬ (second &&& 0x7F).toNat < 126 := by omega
      have hwide : ¬ (second &&& 0x7F).toNat = 126 := by omega
      rw [if_neg hlong, if_neg hwide]
      omega

/-- A header that is there is read, unless it says Close. -/
theorem readHeader_complete (frame : Frame) {data : Bytes} (hopcode : opcodeBits data ≠ 0x8)
    (htwo : 2 ≤ data.length) (hheader : headerSize data ≤ data.length) :
    ∃ f, readHeader frame data = some (f, headerSize data) := by
  suffices hsome : readHeader frame data ≠ none by
    obtain ⟨⟨f, offset⟩, hread⟩ := Option.ne_none_iff_exists'.mp hsome
    obtain ⟨rfl, _⟩ := readHeader_accepts hread
    exact ⟨f, hread⟩
  match data, htwo, hopcode with
  | first :: second :: rest, _, hopcode =>
    have hopen : ¬ (⟨first &&& 0x0F⟩ : WsOpcode) = WsOpcode.close :=
      fun heq => hopcode (congrArg WsOpcode.value heq)
    intro hnone
    unfold readHeader at hnone
    simp only [if_neg hopen] at hnone
    simp only [headerSize, List.length_cons] at hheader
    split at hnone
    · next f₁ hlength =>
      rcases readLength_refuses hlength with ⟨hl, hroom⟩ | ⟨hl, hroom⟩
      · simp only [List.length_cons] at hl hroom
        rw [if_neg (show ¬ (second &&& 0x7F).toNat < 126 by omega), if_pos hl] at hheader
        omega
      · simp only [List.length_cons] at hl hroom
        rw [if_neg (show ¬ (second &&& 0x7F).toNat < 126 by omega),
          if_neg (show ¬ (second &&& 0x7F).toNat = 126 by omega)] at hheader
        omega
    · next f₁ offset hlength =>
      split at hnone
      · next f₂ hkey =>
        obtain ⟨hmask, hroom⟩ := readKey_refuses hkey
        obtain ⟨hsame, hforms⟩ := readLength_accepts (seven_bits second) hlength
        rw [hsame] at hmask
        rw [if_pos (bne_iff_ne.mp hmask)] at hheader
        simp only [List.length_cons] at hroom
        rcases hforms with ⟨hl, ho, _⟩ | ⟨hl, _, ho, _⟩ | ⟨hl, _, ho, _⟩
        · simp only at hl
          rw [if_pos hl] at hheader
          omega
        · simp only at hl
          rw [if_neg (by omega), if_pos hl] at hheader
          omega
        · simp only at hl
          rw [if_neg (by omega), if_neg (by omega)] at hheader
          omega
      · cases hnone

/-- Header and payload, wherever `readFrame` has taken the check to be passed. -/
structure InBounds (frame : Frame) (data : Bytes) : Prop where
  header : ∀ f offset, readHeader frame data = some (f, offset) → offset ≤ data.length
  /-- The check is passed with a sum that does not wrap around. -/
  payload : ∀ f offset, readHeader frame data = some (f, offset) →
    ¬ data.length < sizeAdd offset f.payloadLength → offset + f.payloadLength ≤ data.length
  /-- There is room for what `payload_data` is resized to, and it is in the buffer. -/
  resized : ∃ f complete, readFrame frame data = .ok (f, complete) ∧
    (f.payloadData = frame.payloadData ∨ f.payloadData.length ≤ data.length)
  returned : ∀ f, readFrame frame data = .ok (f, true) →
    ∃ n, frameSize data = some n ∧ n ≤ data.length

/-- A frame other than Close whose header is there, and too long for a `size_t`. -/
def Wraps (data : Bytes) : Prop :=
  opcodeBits data ≠ 0x8 ∧ headerSize data ≤ data.length ∧
    ∃ n, frameSize data = some n ∧ 18446744073709551616 ≤ n

/-- The check on a length that does not wrap around. -/
theorem readPayload_bounded {frame : Frame} {data : Bytes} {offset : Nat}
    (hshort : data.length < 9223372036854775808)
    (h : ¬ data.length < sizeAdd offset frame.payloadLength →
      offset + frame.payloadLength ≤ data.length) :
    ∃ f complete, readPayload frame data offset = .ok (f, complete) ∧
      (f.payloadData = frame.payloadData ∨ f.payloadData.length ≤ data.length) := by
  unfold readPayload
  by_cases hcut : data.length < sizeAdd offset frame.payloadLength
  · rw [if_pos hcut]
    exact ⟨frame, false, rfl, .inl rfl⟩
  · have hfits := h hcut
    rw [if_neg hcut, if_neg (by omega)]
    refine ⟨_, true, rfl, .inr ?_⟩
    rw [apply_ite Frame.payloadData, ite_self, List.length_mapIdx, List.length_take,
      List.length_drop]
    omega

/-- Without such a header the check compares the sum itself. -/
theorem inBounds_of_not_wraps (frame : Frame) {data : Bytes}
    (hshort : data.length < 9223372036854775808) (hwraps : ¬ Wraps data) :
    InBounds frame data := by
  have hexact : ∀ f offset, readHeader frame data = some (f, offset) →
      ¬ data.length < sizeAdd offset f.payloadLength →
        offset + f.payloadLength ≤ data.length := by
    intro f offset hread hpassed
    obtain ⟨hoffset, hroom, hsize, hopcode, hopen⟩ := readHeader_accepts hread
    have hlt : offset + f.payloadLength < 18446744073709551616 := by
      apply Nat.lt_of_not_le
      intro hlong
      refine hwraps ⟨fun hclose => hopen ?_, hoffset ▸ hroom, _, hsize, hlong⟩
      rw [hopcode, hclose]
      rfl
    rw [sizeAdd, Nat.mod_eq_of_lt hlt] at hpassed
    exact Nat.le_of_not_lt hpassed
  refine ⟨fun f offset hread => (readHeader_accepts hread).2.1, hexact, ?_, fun f hread =>
    ⟨_, readFrame_accepts hread⟩⟩
  rcases readFrame_cases frame data with ⟨f, offset, hread, hframe⟩ | ⟨_, f, hframe, hsame⟩
  · rw [hframe, ← (readHeader_payload hread).1]
    exact readPayload_bounded hshort (hexact f offset hread)
  · exact ⟨f, false, hframe, .inl hsame⟩

/-- **Nothing outside the buffer is read, except behind a header that wraps around.** -/
theorem readFrame_inBounds_iff (frame : Frame) (data : Buffer) :
    InBounds frame data.val ↔ ¬ Wraps data.val := by
  have hshort := data.property
  constructor
  · intro h ⟨hopcode, hheader, n, hsize, hlong⟩
    obtain ⟨htwo, hlt⟩ := frameSize_lt hsize
    obtain ⟨f, hread⟩ := readHeader_complete frame hopcode htwo hheader
    obtain ⟨_, _, hsum, _⟩ := readHeader_accepts hread
    cases hsize.symm.trans hsum
    have hpassed : sizeAdd (headerSize data.val) f.payloadLength ≤ data.val.length := by
      unfold sizeAdd
      omega
    have hfits := h.payload _ _ hread (Nat.not_lt.mpr hpassed)
    omega
  · exact inBounds_of_not_wraps frame hshort

/-- A masked frame that announces eight bytes of ones. -/
theorem readFrame_wraps : ¬ InBounds {sockfd := 4}
    ([0x81, 0xFF, 0xFF, 0xFF, 0xFF, 0xFF, 0xFF, 0xFF, 0xFF, 0xFF, 1, 2, 3, 4] : Bytes) := by
  intro h
  obtain ⟨f, complete, hread, _⟩ := h.resized
  have hthrown : readFrame {sockfd := 4}
      [0x81, 0xFF, 0xFF, 0xFF, 0xFF, 0xFF, 0xFF, 0xFF, 0xFF, 0xFF, 1, 2, 3, 4] =
        .error .lengthError := by rfl
  rw [hthrown] at hread
  cases hread

/-! ### Messages -/

/-- The bytes start with a complete frame, of one of the four opcodes `read` has a result
for. -/
def ReadsMessage (data : Bytes) : Prop :=
  opcodeBits data ∈ ([0x1, 0x2, 0x9, 0xA] : List UInt8) ∧
    ∃ n, frameSize data = some n ∧ n ≤ data.length

/-- Whatever was read before, `read` returns a message only of such bytes. -/
theorem readsMessage_of_read {ws : WebSocket} {msg : Bytes} {reading : Reading}
    (h : ws.read msg = .ok reading) (hresult : reading.result ≠ .fail) :
    ReadsMessage ws.byteData := by
  unfold read at h
  obtain ⟨⟨f, complete⟩, hframe, h⟩ := bind_eq_ok h
  simp only at h
  cases complete with
  | false =>
    cases h
    exact absurd rfl hresult
  | true =>
    refine ⟨?_, _, readFrame_accepts hframe⟩
    have hopcode := readFrame_opcode hframe
    simp only [Bool.not_true, Bool.false_eq_true, if_false] at h
    split at h
    · cases h
      exact absurd rfl hresult
    · rw [← Except.ok.inj h] at hresult
      have hnamed : f.opcode = WsOpcode.textFrame ∨ f.opcode = WsOpcode.binary ∨
          f.opcode = WsOpcode.ping ∨ f.opcode = WsOpcode.pong := by
        by_contra hno
        simp only [not_or] at hno
        obtain ⟨h1, h2, h3, h4⟩ := hno
        exact hresult (by simp only [if_neg h1, if_neg h2, if_neg h3, if_neg h4])
      rw [hopcode] at hnamed
      simpa [WsOpcode.textFrame, WsOpcode.binary, WsOpcode.ping, WsOpcode.pong] using hnamed

/-- All other bytes fail, unless the length in them wraps around. -/
theorem read_fails (ws : WebSocket) (msg : Bytes)
    (hshort : ws.byteData.length < 9223372036854775808) (hwraps : ¬ Wraps ws.byteData)
    (hmessage : ¬ ReadsMessage ws.byteData) :
    ∃ reading, ws.read msg = .ok reading ∧ reading.result = .fail := by
  obtain ⟨f, complete, hframe, _⟩ := (inBounds_of_not_wraps ws.frame hshort hwraps).resized
  have hread : ∃ reading, ws.read msg = .ok reading := by
    unfold read
    simp only [hframe, bind, Except.bind]
    split
    · exact ⟨_, rfl⟩
    · split
      · exact ⟨_, rfl⟩
      · exact ⟨_, rfl⟩
  obtain ⟨reading, hread⟩ := hread
  exact ⟨reading, hread, Classical.byContradiction fun hresult =>
    hmessage (readsMessage_of_read hread hresult)⟩

/-! ### What a failed read leaves -/

/-- The bytes start with a complete frame of an opcode that `readFrame` does not refuse and
`read` has no result for: a continuation, or one that is reserved. -/
def ReadsOther (data : Bytes) : Prop :=
  opcodeBits data ∉ ([0x1, 0x2, 0x8, 0x9, 0xA] : List UInt8) ∧
    ∃ n, frameSize data = some n ∧ n ≤ data.length

theorem headerSize_le_frameSize {data : Bytes} {n : Nat} (h : frameSize data = some n) :
    headerSize data ≤ n := by
  obtain ⟨first, second, rest, rfl, hform⟩ := frameSize_eq_some.mp h
  simp only [headerSize]
  rcases hform with ⟨hshort, rfl⟩ | ⟨size, ⟨hlength, rfl⟩ | ⟨hlength, rfl⟩, _, rfl⟩
  · rw [if_pos hshort]
    omega
  · rw [if_neg (show ¬ (second &&& 0x7F).toNat < 126 by omega), if_pos hlength]
    omega
  · rw [if_neg (show ¬ (second &&& 0x7F).toNat < 126 by omega),
      if_neg (show ¬ (second &&& 0x7F).toNat = 126 by omega)]
    omega

/-- A payload that is in the buffer is read, and is text in a text frame alone. -/
theorem readPayload_complete {frame : Frame} {data : Bytes} {offset : Nat}
    (hshort : data.length < 9223372036854775808)
    (hfits : offset + frame.payloadLength ≤ data.length) :
    ∃ f, readPayload frame data offset = .ok (f, true) ∧
      (frame.opcode ≠ WsOpcode.textFrame → f.textPayload = frame.textPayload) := by
  have hsum : sizeAdd offset frame.payloadLength = offset + frame.payloadLength :=
    Nat.mod_eq_of_lt (by omega)
  unfold readPayload
  rw [hsum, if_neg (Nat.not_lt.mpr hfits), if_neg (by omega)]
  refine ⟨_, rfl, fun htext => ?_⟩
  rw [if_neg htext]

/-- A complete frame that is no Close frame is read. -/
theorem readFrame_reads (frame : Frame) {data : Bytes}
    (hshort : data.length < 9223372036854775808) (hopcode : opcodeBits data ≠ 0x8) {n : Nat}
    (hsize : frameSize data = some n) (hle : n ≤ data.length) :
    ∃ f, readFrame frame data = .ok (f, true) ∧ f.opcode = ⟨opcodeBits data⟩ ∧
      (opcodeBits data ≠ 0x1 → f.textPayload = frame.textPayload) := by
  obtain ⟨f, hheader⟩ := readHeader_complete frame hopcode (frameSize_lt hsize).1
    (Nat.le_trans (headerSize_le_frameSize hsize) hle)
  obtain ⟨_, _, hsum, hf, _⟩ := readHeader_accepts hheader
  cases hsize.symm.trans hsum
  obtain ⟨f', hpayload, htext⟩ := readPayload_complete hshort hle
  have hread : readFrame frame data = .ok (f', true) := by
    rcases readFrame_cases frame data with ⟨_, _, hheader', hframe⟩ | ⟨hnone, _⟩
    · cases hheader.symm.trans hheader'
      rw [hframe, hpayload]
    · rw [hheader] at hnone
      cases hnone
  refine ⟨f', hread, readFrame_opcode hread, fun hnot => ?_⟩
  rw [htext fun heq => hnot (congrArg WsOpcode.value (hf.symm.trans heq)),
    (readHeader_payload hheader).2]

/-- Such a frame is answered with a failure, and with the text of an earlier frame. -/
theorem read_other (ws : WebSocket) (data : Buffer) (msg : Bytes) (h : ReadsOther data.val) :
    ∃ reading, read {ws with byteData := data.val} msg = .ok reading ∧
      reading.result = .fail ∧ reading.msg = ws.frame.textPayload := by
  obtain ⟨hopcode, n, hsize, hle⟩ := h
  simp only [List.mem_cons, List.not_mem_nil, or_false, not_or] at hopcode
  obtain ⟨htext, hbinary, hclose, hping, hpong⟩ := hopcode
  obtain ⟨f, hframe, hf, hkept⟩ := readFrame_reads ws.frame data.property hclose hsize hle
  have hnamed : ∀ o : WsOpcode, opcodeBits data.val ≠ o.value → f.opcode ≠ o := fun o hne heq =>
    hne (congrArg WsOpcode.value (hf.symm.trans heq))
  unfold read
  simp only [hframe, bind, Except.bind]
  rw [if_neg (by decide), if_neg (hnamed .close hclose), if_neg (hnamed .textFrame htext),
    if_neg (hnamed .binary hbinary), if_neg (hnamed .ping hping), if_neg (hnamed .pong hpong)]
  exact ⟨_, rfl, rfl, hkept htext⟩

/-- What else fails has not come to the assignment. -/
theorem read_fail_cases {ws : WebSocket} {msg : Bytes} {reading : Reading}
    (h : ws.read msg = .ok reading) (hfail : reading.result = .fail) :
    reading.msg = msg ∨ ReadsOther ws.byteData := by
  unfold read at h
  obtain ⟨⟨f, complete⟩, hframe, h⟩ := bind_eq_ok h
  simp only at h
  cases complete with
  | false =>
    cases h
    exact .inl rfl
  | true =>
    simp only [Bool.not_true, Bool.false_eq_true, if_false] at h
    split at h
    · cases h
      exact .inl rfl
    · next hclose =>
      refine .inr ⟨fun hmem => ?_, _, readFrame_accepts hframe⟩
      have hopcode := readFrame_opcode hframe
      rw [← Except.ok.inj h] at hfail
      simp only [List.mem_cons, List.not_mem_nil, or_false] at hmem
      rcases hmem with ho | ho | ho | ho | ho
      case inr.inr.inl => exact hclose (hopcode.trans (congrArg WsOpcode.mk ho))
      all_goals
        rw [hopcode, ho] at hfail
        cases hfail

/-- **A failed read leaves the message alone except where a whole frame was read that it has
no result for**, and then it leaves it the text of the frame before. -/
theorem read_fail_keeps_iff (ws : WebSocket) (data : Buffer) (msg : Bytes) :
    (∀ reading, read {ws with byteData := data.val} msg = .ok reading →
      reading.result = .fail → reading.msg = msg) ↔
      ¬ ReadsOther data.val ∨ msg = ws.frame.textPayload := by
  refine ⟨fun h => ?_, fun h reading hread hfail => ?_⟩
  · by_cases hother : ReadsOther data.val
    · obtain ⟨reading, hread, hfail, hmsg⟩ := read_other ws data msg hother
      exact .inr ((h reading hread hfail).symm.trans hmsg)
    · exact .inl hother
  · rcases read_fail_cases hread hfail with hsame | hother
    · exact hsame
    · obtain ⟨reading', hread', _, hmsg⟩ := read_other ws data msg hother
      cases hread.symm.trans hread'
      rcases h with hnot | heq
      · exact absurd hother hnot
      · rw [hmsg, heq]

/-- A continuation frame without a payload empties the message. -/
theorem read_fail_empties : ¬ ∀ (ws : WebSocket) (data : Buffer) (msg : Bytes) reading,
    read {ws with byteData := data.val} msg = .ok reading → reading.result = .fail →
      reading.msg = msg := by
  intro h
  have hmsg := h (WebSocket.make 4 [] ∅) ⟨[0x80, 0x00], by decide⟩ (text "old") _ rfl rfl
  exact absurd hmsg (by decide)

end HttpServer.WebSocket
