import HttpServer.WebSocket

/-! WebSocket frames by their format alone: how long the frame is that starts with
these bytes, and which complete frames a stream of bytes starts with. More bytes
change none of the frames that are complete already (`frames_append`). -/
namespace HttpServer

def bigEndian (bytes : Bytes) : Nat := bytes.foldl (fun n b => n * 256 + b.toNat) 0

/-- The length of the frame that starts here: header, key and payload. Nothing where
the header's own length fields are cut off. -/
def frameSize : Bytes → Option Nat
  | _ :: second :: rest =>
    let key := if second &&& 0x80 ≠ 0 then 4 else 0
    let length := (second &&& 0x7F).toNat
    if length < 126 then some (2 + key + length)
    else if length = 126 then
      if 2 ≤ rest.length then some (4 + key + bigEndian (rest.take 2)) else none
    else if 8 ≤ rest.length then some (10 + key + bigEndian (rest.take 8))
    else none
  | _ => none

/-- The first frames of a stream, as far as they are complete. -/
def framesWith : Nat → Bytes → List Bytes
  | 0, _ => []
  | fuel + 1, stream =>
    match frameSize stream with
    | none => []
    | some n =>
      if n ≤ stream.length then stream.take n :: framesWith fuel (stream.drop n) else []

/-- The complete frames a stream starts with. -/
def frames (stream : Bytes) : List Bytes := framesWith stream.length stream

def opcodeBits (frame : Bytes) : UInt8 := frame.headD 0 &&& 0x0F

/-- The FIN bit is set, and it is no Close frame. -/
def Final (frame : Bytes) : Prop := frame.headD 0 &&& 0x80 ≠ 0 ∧ opcodeBits frame ≠ 0x8

instance : DecidablePred Final := fun frame =>
  inferInstanceAs (Decidable (frame.headD 0 &&& 0x80 ≠ 0 ∧ opcodeBits frame ≠ 0x8))

/-! ### Frames -/

/-- A frame has its length in the second byte, or in the two or eight bytes behind it. -/
theorem frameSize_eq_some {stream : Bytes} {n : Nat} :
    frameSize stream = some n ↔ ∃ first second rest, stream = first :: second :: rest ∧
      let key := if second &&& 0x80 ≠ 0 then 4 else 0
      let length := (second &&& 0x7F).toNat
      (length < 126 ∧ n = 2 + key + length) ∨
        ∃ size, (length = 126 ∧ size = 2 ∨ 126 < length ∧ size = 8) ∧ size ≤ rest.length ∧
          n = 2 + size + key + bigEndian (rest.take size) := by
  refine ⟨fun h => ?_, fun h => ?_⟩
  · match stream, h with
    | first :: second :: rest, h =>
      refine ⟨first, second, rest, rfl, ?_⟩
      simp only [frameSize] at h
      split at h
      · next hshort => exact .inl ⟨hshort, (Option.some.inj h).symm⟩
      · next hlong =>
        split at h
        · next hword =>
          split at h
          · next hroom => exact .inr ⟨2, .inl ⟨hword, rfl⟩, hroom, (Option.some.inj h).symm⟩
          · cases h
        · next hwide =>
          split at h
          · next hroom =>
            exact .inr ⟨8, .inr ⟨by omega, rfl⟩, hroom, (Option.some.inj h).symm⟩
          · cases h
  · obtain ⟨first, second, rest, rfl, hform⟩ := h
    rw [frameSize]
    rcases hform with ⟨hshort, rfl⟩ | ⟨size, ⟨hword, rfl⟩ | ⟨hwide, rfl⟩, hroom, rfl⟩
    · rw [if_pos hshort]
    · rw [if_neg (by omega), if_pos hword, if_pos hroom]
    · rw [if_neg (by omega), if_neg (by omega), if_pos hroom]

/-- The first two bytes are always there. -/
theorem two_le_frameSize {stream : Bytes} {n : Nat} (h : frameSize stream = some n) : 2 ≤ n := by
  obtain ⟨_, _, _, _, ⟨_, rfl⟩ | ⟨size, _, _, rfl⟩⟩ := frameSize_eq_some.mp h
  · omega
  · omega

theorem frameSize_append {stream : Bytes} {n : Nat} (h : frameSize stream = some n)
    (more : Bytes) : frameSize (stream ++ more) = some n := by
  obtain ⟨first, second, rest, rfl, hform⟩ := frameSize_eq_some.mp h
  refine frameSize_eq_some.mpr ⟨first, second, rest ++ more, rfl, ?_⟩
  rcases hform with hshort | ⟨size, hsize, hroom, hn⟩
  · exact .inl hshort
  · refine .inr ⟨size, hsize, ?_, ?_⟩
    · rw [List.length_append]
      omega
    · rw [List.take_append_of_le_length hroom]
      exact hn

/-- What is left behind a frame is shorter, so the fuel is never used up. -/
theorem framesWith_append {fuel fuel' : Nat} {stream more : Bytes} (hf : stream.length ≤ fuel)
    (hf' : stream.length + more.length ≤ fuel') :
    framesWith fuel stream <+: framesWith fuel' (stream ++ more) := by
  induction fuel generalizing fuel' stream with
  | zero => exact List.nil_prefix
  | succ fuel ih =>
    unfold framesWith
    split
    · exact List.nil_prefix
    · next n hn =>
      split
      · next hle =>
        have htwo := two_le_frameSize hn
        obtain ⟨fuel', rfl⟩ : ∃ k, fuel' = k + 1 := ⟨fuel' - 1, by omega⟩
        have hle' : n ≤ (stream ++ more).length := by
          rw [List.length_append]
          omega
        have hrest : framesWith fuel (stream.drop n) <+:
            framesWith fuel' (stream.drop n ++ more) := by
          refine ih ?_ ?_
          · rw [List.length_drop]
            omega
          · rw [List.length_drop]
            omega
        simp only [frameSize_append hn, if_pos hle',
          List.take_append_of_le_length hle, List.drop_append_of_le_length hle]
        exact List.cons_prefix_cons.mpr ⟨rfl, hrest⟩
      · exact List.nil_prefix

/-- **Complete frames stay**: more bytes only add frames behind them. -/
theorem frames_append (stream more : Bytes) : frames stream <+: frames (stream ++ more) :=
  framesWith_append (Nat.le_refl _) (by rw [List.length_append])

/-- Fuel that is enough finds what the stream has. -/
theorem framesWith_eq {fuel : Nat} {stream : Bytes} (hf : stream.length ≤ fuel) :
    framesWith fuel stream = frames stream := by
  have hless := @framesWith_append fuel stream.length stream [] hf (Nat.le_refl _)
  have hmore := @framesWith_append stream.length fuel stream [] (Nat.le_refl _)
    (by rw [List.length_nil]; omega)
  rw [List.append_nil] at hless hmore
  exact hless.eq_of_length_le hmore.length_le

/-- A stream that starts with a complete frame. -/
theorem frames_cons {stream : Bytes} {n : Nat} (hsize : frameSize stream = some n)
    (hle : n ≤ stream.length) : frames stream = stream.take n :: frames (stream.drop n) := by
  have htwo := two_le_frameSize hsize
  have hrest : (stream.drop n).length ≤ stream.length - 1 := by
    rw [List.length_drop]
    omega
  have hlength : stream.length = stream.length - 1 + 1 := by omega
  rw [frames, hlength, framesWith]
  simp only [hsize, if_pos hle, framesWith_eq hrest]

/-- A stream that does not. -/
theorem frames_eq_nil {stream : Bytes} (h : ∀ n, frameSize stream = some n → stream.length < n) :
    frames stream = [] := by
  rw [← @framesWith_eq (stream.length + 1) stream (Nat.le_succ _), framesWith]
  split
  · rfl
  · next n hsize => rw [if_neg (Nat.not_le.mpr (h n hsize))]

/-- **Behind whole frames the frames start anew.** -/
theorem frames_append_whole {stream : Bytes} (hwhole : (frames stream).flatten = stream)
    (more : Bytes) : frames (stream ++ more) = frames stream ++ frames more := by
  by_cases hfirst : ∃ n, frameSize stream = some n ∧ n ≤ stream.length
  · obtain ⟨n, hsize, hle⟩ := hfirst
    have htwo := two_le_frameSize hsize
    have hrest : (frames (stream.drop n)).flatten = stream.drop n := by
      rw [frames_cons hsize hle, List.flatten_cons] at hwhole
      exact List.append_cancel_left (hwhole.trans (List.take_append_drop n stream).symm)
    have ih := frames_append_whole hrest more
    have hle' : n ≤ (stream ++ more).length := by
      rw [List.length_append]
      omega
    rw [frames_cons (frameSize_append hsize more) hle', frames_cons hsize hle,
      List.take_append_of_le_length hle, List.drop_append_of_le_length hle, ih, List.cons_append]
  · have hnone : frames stream = [] := by
      apply frames_eq_nil
      intro n hsize
      exact Nat.lt_of_not_le fun hle => hfirst ⟨n, hsize, hle⟩
    rw [hnone, List.flatten_nil] at hwhole
    rw [hnone, ← hwhole, List.nil_append, List.nil_append]
  termination_by stream.length
  decreasing_by
    rw [List.length_drop]
    omega

theorem two_le_of_mem_frames {stream frame : Bytes} (h : frame ∈ frames stream) :
    2 ≤ frame.length := by
  have hall : ∀ fuel (s : Bytes), frame ∈ framesWith fuel s → 2 ≤ frame.length := by
    intro fuel
    induction fuel with
    | zero => exact fun s hs => absurd hs List.not_mem_nil
    | succ fuel ih =>
      intro s hs
      unfold framesWith at hs
      split at hs
      · cases hs
      · next n hn =>
        split at hs
        · next hle =>
          rcases List.mem_cons.mp hs with rfl | hs
          · rw [List.length_take, Nat.min_eq_left hle]
            exact two_le_frameSize hn
          · exact ih _ hs
        · cases hs
  exact hall _ _ h

/-- With an opcode the server knows, a final frame is told from a request. -/
theorem Final.recognised {frame : Bytes} (h : Final frame) (hlen : 2 ≤ frame.length)
    (ho : opcodeBits frame ≤ 0xA) :
    getWebSocketFrame frame = some ⟨opcodeBits frame⟩ ∧
      (⟨opcodeBits frame⟩ : WsOpcode) ≠ WsOpcode.close := by
  have hclose : (⟨opcodeBits frame⟩ : WsOpcode) ≠ WsOpcode.close := by
    intro heq
    exact h.2 (congrArg WsOpcode.value heq)
  refine ⟨?_, hclose⟩
  match frame, h, hlen, ho with
  | first :: second :: rest, h, _, ho =>
    have hle : ¬ 0xA < first &&& 0x0F := UInt8.not_lt.mpr ho
    have hfin : (first &&& 0x80) != 0 := bne_iff_ne.mpr h.1
    have hle' : first &&& 0x0F ≤ 0xA := ho
    simp only [getWebSocketFrame, hle, if_false, hfin, hle', decide_true, Bool.and_self, if_true,
      opcodeBits, List.headD_cons]

end HttpServer
