import HttpServer.Lib.Digits
import HttpServer.WebSocket.Format
import HttpServer.WebSocketClient

/-! Frames written and read.

`WireFrame` is a frame as the format has it: a length in seven, sixteen or sixty-four
bits, whichever is the first to hold it, then the key, then the payload under the key.
`readFrame` is read part by part along it, whatever stands behind. The client's frames
are unmasked values of it; the server's own are so up to 65535 bytes. -/
namespace HttpServer
open Lib

/-- A string of four bytes. -/
abbrev MaskingKey : Type := {k : Bytes // k.length = 4}

structure WireFrame where
  fin : Bool
  /-- Four bits, and no Close. -/
  opcode : {o : UInt8 // o < 16 ∧ o ≠ 8}
  key : Option MaskingKey
  payload : Buffer

namespace WireFrame

/-- The last `k` bytes of a number, the most significant first. -/
def bytesOf (k n : Nat) : Bytes := (Digits.places 256 k n).map UInt8.ofNat

/-- The seven bits of length in the second byte. -/
def shortLength (n : Nat) : UInt8 :=
  if n < 126 then UInt8.ofNat n else if n < 65536 then 126 else 127

/-- The length behind the second byte, where seven bits do not hold it. -/
def longLength (n : Nat) : Bytes :=
  if n < 126 then [] else if n < 65536 then bytesOf 2 n else bytesOf 8 n

/-- The payload under a key. -/
def masked (key : Bytes) (payload : Bytes) : Bytes :=
  payload.mapIdx fun i b => b ^^^ key.getD (i % 4) 0

def keyBytes (w : WireFrame) : Bytes := w.key.elim [] fun key => key.val

def payloadBytes (w : WireFrame) : Bytes :=
  w.key.elim w.payload.val fun key => masked key.val w.payload.val

def firstByte (w : WireFrame) : UInt8 := (if w.fin then 0x80 else 0) ||| w.opcode.val

def secondByte (w : WireFrame) : UInt8 :=
  (if w.key.isSome then 0x80 else 0) ||| shortLength w.payload.val.length

def bytes (w : WireFrame) : Bytes :=
  w.firstByte :: w.secondByte ::
    (longLength w.payload.val.length ++ (w.keyBytes ++ w.payloadBytes))

end WireFrame

/-! ### Bytes -/

theorem firstByte_bits (fin : Bool) {o : UInt8} (h : o < 16) :
    ((((if fin then 0x80 else 0) ||| o) &&& 0x80) != 0) = fin ∧
      ((if fin then 0x80 else 0) ||| o) &&& 0x0F = o := by
  revert h
  apply every_byte (p := fun o => o < 16 →
    ((((if fin then 0x80 else 0) ||| o) &&& 0x80) != 0) = fin ∧
      ((if fin then 0x80 else 0) ||| o) &&& 0x0F = o)
  cases fin <;> decide +kernel

theorem secondByte_bits (mask : Bool) {l : UInt8} (h : l < 128) :
    ((((if mask then 0x80 else 0) ||| l) &&& 0x80) != 0) = mask ∧
      ((if mask then 0x80 else 0) ||| l) &&& 0x7F = l := by
  revert h
  apply every_byte (p := fun l => l < 128 →
    ((((if mask then 0x80 else 0) ||| l) &&& 0x80) != 0) = mask ∧
      ((if mask then 0x80 else 0) ||| l) &&& 0x7F = l)
  cases mask <;> decide +kernel

theorem bigEndian_eq (bytes : Bytes) :
    bigEndian bytes = Digits.value 256 (bytes.map UInt8.toNat) := by
  rw [bigEndian, Digits.value, List.foldl_map]

theorem bytesOf_length (k n : Nat) : (WireFrame.bytesOf k n).length = k := by
  rw [WireFrame.bytesOf, List.length_map, Digits.places_length]

/-- A length that fits its field is read as it was written. -/
theorem bigEndian_bytesOf {k n : Nat} (hn : n < 256 ^ k) :
    bigEndian (WireFrame.bytesOf k n) = n := by
  have hbytes : (WireFrame.bytesOf k n).map UInt8.toNat = Digits.places 256 k n := by
    rw [WireFrame.bytesOf, List.map_map]
    conv => rhs; rw [← List.map_id (Digits.places 256 k n)]
    apply List.map_congr_left
    intro d hd
    exact Nat.mod_eq_of_lt (Digits.places_lt (by decide) k n d hd)
  rw [bigEndian_eq, hbytes, Digits.value_places hn]

/-- A shift by a byte makes room for a byte. -/
theorem or_shift (a k : Nat) {b : Nat} (hb : b < 256) :
    a <<< (k + 8) ||| b <<< k = (a * 256 + b) <<< k := by
  rw [Nat.add_comm k 8, Nat.shiftLeft_add, ← Nat.shiftLeft_or_distrib,
    ← Nat.shiftLeft_add_eq_or_of_lt (show b < 2 ^ 8 from hb), Nat.shiftLeft_eq a 8]

namespace WebSocket

theorem byteAt_drop (data : Bytes) (offset i : Nat) :
    byteAt (data.drop offset) i = byteAt data (offset + i) := by
  simp [byteAt, List.getD_eq_getElem?_getD]

/-! ### The length -/

theorem length_two {data tail : Bytes} {offset : Nat} {b₀ b₁ : UInt8}
    (hdrop : data.drop offset = b₀ :: b₁ :: tail) :
    byteAt data offset <<< 8 ||| byteAt data (offset + 1) = bigEndian [b₀, b₁] := by
  have h₀ : byteAt data offset = b₀.toNat := by
    rw [← Nat.add_zero offset, ← byteAt_drop, hdrop]
    rfl
  have h₁ : byteAt data (offset + 1) = b₁.toNat := by
    rw [← byteAt_drop, hdrop]
    rfl
  have hshift := or_shift b₀.toNat 0 b₁.toNat_lt
  rw [Nat.zero_add, Nat.shiftLeft_zero, Nat.shiftLeft_zero] at hshift
  rw [h₀, h₁, hshift]
  simp [bigEndian]

/-- The eight bytes, each put at its own place. -/
theorem length_eight {data word tail : Bytes} {offset : Nat} (hword : word.length = 8)
    (hdrop : data.drop offset = word ++ tail) :
    (List.range 8).foldl (fun n i => n ||| byteAt data (offset + i) <<< (56 - 8 * i)) 0 =
      bigEndian word := by
  -- after `k` bytes the number read so far stands above the places left
  have hstep : ∀ k ≤ 8,
      (List.range k).foldl (fun n i => n ||| byteAt data (offset + i) <<< (56 - 8 * i)) 0 =
        bigEndian (word.take k) <<< (64 - 8 * k) := by
    intro k hk
    induction k with
    | zero => rw [List.range_zero, List.foldl_nil, List.take_zero, bigEndian, List.foldl_nil,
        Nat.zero_shiftLeft]
    | succ k ih =>
      have hlt : k < word.length := by omega
      have hbyte : byteAt data (offset + k) = word[k].toNat := by
        rw [← byteAt_drop, hdrop]
        simp [byteAt, List.getD_eq_getElem?_getD, List.getElem?_append_left hlt,
          List.getElem?_eq_getElem hlt]
      have htake : bigEndian (word.take (k + 1)) =
          bigEndian (word.take k) * 256 + word[k].toNat := by
        rw [List.take_succ_eq_append_getElem hlt, bigEndian, List.foldl_append]
        rfl
      rw [List.range_succ, List.foldl_append, ih (by omega), List.foldl_cons, List.foldl_nil,
        hbyte, htake, show 64 - 8 * k = 56 - 8 * k + 8 by omega,
        or_shift _ _ word[k].toNat_lt, show 64 - 8 * (k + 1) = 56 - 8 * k by omega]
  have hall := hstep 8 (Nat.le_refl 8)
  rw [← hword, List.take_length, hword] at hall
  exact hall

/-- The length field is read as the length it was written for. -/
theorem readLength_wire {frame : Frame} {data tail : Bytes} {n offset : Nat}
    (hn : n < 9223372036854775808)
    (hshort : frame.payloadLength = (WireFrame.shortLength n).toNat)
    (hdrop : data.drop offset = WireFrame.longLength n ++ tail) :
    readLength frame data offset =
      ({frame with payloadLength := n}, some (offset + (WireFrame.longLength n).length)) := by
  have hlen := congrArg List.length hdrop
  rw [List.length_drop, List.length_append] at hlen
  unfold WireFrame.shortLength at hshort
  unfold WireFrame.longLength at hdrop hlen ⊢
  unfold readLength
  split at hshort
  · next hlt =>
    have hval : frame.payloadLength = n := by
      rw [hshort]
      exact Nat.mod_eq_of_lt (by omega)
    rw [if_neg (by omega), if_neg (by omega), if_pos hlt, ← hval]
    rfl
  · next hge =>
    rw [if_neg hge] at hdrop hlen ⊢
    split at hshort
    · next hlt =>
      rw [if_pos hlt] at hdrop hlen ⊢
      rw [bytesOf_length] at hlen ⊢
      have hval : frame.payloadLength = 126 := hshort
      obtain ⟨b₀, b₁, hword⟩ := List.length_eq_two.mp (bytesOf_length 2 n)
      have hread := length_two (hword ▸ hdrop)
      rw [← hword, bigEndian_bytesOf (by omega)] at hread
      rw [if_pos hval, if_neg (by omega), hread]
    · next hbig =>
      rw [if_neg hbig] at hdrop hlen ⊢
      rw [bytesOf_length] at hlen ⊢
      have hval : frame.payloadLength = 127 := hshort
      have hread := length_eight (bytesOf_length 8 n) hdrop
      rw [bigEndian_bytesOf (by omega)] at hread
      rw [if_neg (by omega), if_pos hval, if_neg (by omega), hread]

/-! ### Key and payload -/

theorem readKey_wire {frame : Frame} {data tail : Bytes} {offset : Nat} {w : WireFrame}
    (hmask : frame.mask = w.key.isSome) (hdrop : data.drop offset = w.keyBytes ++ tail) :
    readKey frame data offset =
      ({frame with maskingKey := w.key.elim frame.maskingKey fun key => key.val},
        some (offset + w.keyBytes.length)) := by
  have hlen := congrArg List.length hdrop
  rw [List.length_drop, List.length_append] at hlen
  unfold readKey
  unfold WireFrame.keyBytes at hdrop hlen ⊢
  cases hkey : w.key with
  | none =>
    rw [hkey] at hmask
    have hoff : ¬ frame.mask = true := by simp [hmask]
    rw [if_neg hoff]
    rfl
  | some key =>
    have hfour := key.property
    rw [hkey] at hmask hdrop hlen
    simp only [Option.elim] at hdrop hlen ⊢
    have hon : frame.mask = true := by simp [hmask]
    have htake : (key.val ++ tail).take 4 = key.val := by
      rw [List.take_append_of_le_length hfour.ge, List.take_of_length_le hfour.le]
    rw [if_pos hon, if_neg (by omega), hdrop, htake, hfour]

/-- Masked twice, a payload is itself. -/
theorem masked_masked (key payload : Bytes) :
    WireFrame.masked key (WireFrame.masked key payload) = payload := by
  apply List.ext_getElem
  · simp [WireFrame.masked]
  · intro i h₁ h₂
    simp only [WireFrame.masked, List.getElem_mapIdx]
    rw [UInt8.xor_assoc, UInt8.xor_self, UInt8.xor_zero]

/-- Where the payload is all there, it is read and unmasked. -/
theorem readPayload_wire {frame : Frame} {data rest : Bytes} {offset : Nat} {w : WireFrame}
    (hmask : frame.mask = w.key.isSome)
    (hkey : ∀ key, w.key = some key → frame.maskingKey = key.val)
    (hlength : frame.payloadLength = w.payload.val.length) (hoffset : offset ≤ 14)
    (hle : offset ≤ data.length)
    (hdrop : data.drop offset = w.payloadBytes ++ rest) :
    readPayload frame data offset = .ok ({frame with
      payloadData := w.payload.val
      textPayload :=
        if frame.opcode = WsOpcode.textFrame then w.payload.val else frame.textPayload}, true) := by
  have hmax := w.payload.property
  have hpayload : w.payloadBytes.length = frame.payloadLength := by
    rw [hlength, WireFrame.payloadBytes]
    cases w.key with
    | none => rfl
    | some key => exact List.length_mapIdx
  have hlen := congrArg List.length hdrop
  rw [List.length_drop, List.length_append, hpayload] at hlen
  have hsum : sizeAdd offset frame.payloadLength = offset + frame.payloadLength :=
    Nat.mod_eq_of_lt (by omega)
  have hshort : ¬ data.length < offset + frame.payloadLength := by
    omega
  have hread : ((data.drop offset).take frame.payloadLength).mapIdx (fun i b =>
      if frame.mask then b ^^^ frame.maskingKey.getD (i % 4) 0 else b) = w.payload.val := by
    rw [hdrop, ← hpayload, List.take_left, WireFrame.payloadBytes]
    cases hk : w.key with
    | none =>
      simp only [hmask, hk, Option.isSome_none, Bool.false_eq_true, if_false, Option.elim]
      exact List.mapIdx_eq_iff.mpr fun i => by simp
    | some key =>
      rw [hkey key hk]
      simp only [hmask, hk, Option.isSome_some, if_true, Option.elim]
      exact masked_masked key.val w.payload.val
  unfold readPayload
  rw [hsum, if_neg hshort, if_neg (by omega), hread]
  by_cases htext : frame.opcode = WsOpcode.textFrame
  · simp only [if_pos htext]
  · simp only [if_neg htext]

/-! ### The whole frame -/

/-- The frame that is read where `w` was sent, `frame` being there before. -/
def received (frame : Frame) (w : WireFrame) : Frame :=
  {frame with
    fin := w.fin
    opcode := ⟨w.opcode.val⟩
    mask := w.key.isSome
    payloadLength := w.payload.val.length
    maskingKey := w.key.elim frame.maskingKey fun key => key.val
    payloadData := w.payload.val
    textPayload := if w.opcode.val = 0x1 then w.payload.val else frame.textPayload}

theorem shortLength_lt (n : Nat) : WireFrame.shortLength n < 128 := by
  unfold WireFrame.shortLength
  split
  · next hlt =>
    apply UInt8.lt_iff_toNat_lt.mpr
    show n % 256 < 128
    omega
  · split <;> decide

theorem longLength_le (n : Nat) : (WireFrame.longLength n).length ≤ 8 := by
  unfold WireFrame.longLength
  split
  · exact Nat.zero_le _
  · split
    · rw [bytesOf_length]
      decide
    · rw [bytesOf_length]

theorem keyBytes_le (w : WireFrame) : w.keyBytes.length ≤ 4 := by
  unfold WireFrame.keyBytes
  cases w.key with
  | none => exact Nat.zero_le _
  | some key => exact key.property.le

/-- A frame is read as it was sent, whatever stands behind it. -/
theorem readFrame_wire (frame : Frame) (w : WireFrame) (rest : Bytes) :
    readFrame frame (w.bytes ++ rest) = .ok (received frame w, true) := by
  have hfin : ((w.firstByte &&& 0x80) != 0) = w.fin :=
    (firstByte_bits w.fin w.opcode.property.1).1
  have hopcode : w.firstByte &&& 0x0F = w.opcode.val :=
    (firstByte_bits w.fin w.opcode.property.1).2
  have hmask : ((w.secondByte &&& 0x80) != 0) = w.key.isSome :=
    (secondByte_bits w.key.isSome (shortLength_lt w.payload.val.length)).1
  have hshort : w.secondByte &&& 0x7F = WireFrame.shortLength w.payload.val.length :=
    (secondByte_bits w.key.isSome (shortLength_lt w.payload.val.length)).2
  have hclose : (⟨w.opcode.val⟩ : WsOpcode) ≠ WsOpcode.close := by
    intro heq
    exact w.opcode.property.2 (congrArg WsOpcode.value heq)
  have htext : ((⟨w.opcode.val⟩ : WsOpcode) = WsOpcode.textFrame) = (w.opcode.val = 0x1) := by
    simp [WsOpcode.textFrame]
  generalize hdata : w.bytes ++ rest = data
  have hcons : data = w.firstByte :: w.secondByte ::
      (WireFrame.longLength w.payload.val.length ++
        (w.keyBytes ++ (w.payloadBytes ++ rest))) := by
    rw [← hdata]
    simp [WireFrame.bytes]
  have hdrop : data.drop 2 = WireFrame.longLength w.payload.val.length ++
      (w.keyBytes ++ (w.payloadBytes ++ rest)) := by
    rw [hcons]
    rfl
  have hdrop' : data.drop (2 + (WireFrame.longLength w.payload.val.length).length) =
      w.keyBytes ++ (w.payloadBytes ++ rest) := by
    rw [← List.drop_drop, hdrop, List.drop_left]
  have hdrop'' : data.drop (2 + (WireFrame.longLength w.payload.val.length).length +
      w.keyBytes.length) = w.payloadBytes ++ rest := by
    rw [← List.drop_drop, hdrop', List.drop_left]
  have hlong := longLength_le w.payload.val.length
  have hkey := keyBytes_le w
  have hlen := congrArg List.length hcons
  simp only [List.length_cons, List.length_append] at hlen
  rw [hcons]
  unfold readFrame
  simp only [hfin, hopcode, hmask, hshort, if_neg hclose]
  rw [← hcons]
  rw [readLength_wire w.payload.property rfl hdrop]
  simp only
  rw [readKey_wire rfl hdrop']
  simp only
  rw [readPayload_wire rfl (fun key hk => by simp [hk]) rfl (by omega) (by omega) hdrop'']
  simp only [received, htext]

/-! ### What is accepted -/

/-- The bytes of a frame in front of its payload. -/
def headerSize : Bytes → Nat
  | _ :: second :: _ =>
    let key := if second &&& 0x80 ≠ 0 then 4 else 0
    let length := (second &&& 0x7F).toNat
    2 + key + (if length < 126 then 0 else if length = 126 then 2 else 8)
  | _ => 0

theorem seven_bits (b : UInt8) : (b &&& 0x7F).toNat < 128 := by
  have hand : (b &&& 0x7F).toNat = b.toNat &&& 127 := UInt8.toNat_and ..
  rw [hand]
  exact Nat.lt_succ_of_le Nat.and_le_right

/-- The three forms of the length that was read. -/
theorem readLength_accepts {frame f : Frame} {data : Bytes} {offset offset' : Nat}
    (hseven : frame.payloadLength < 128)
    (h : readLength frame data offset = (f, some offset')) :
    f.mask = frame.mask ∧
    ((frame.payloadLength < 126 ∧ offset' = offset ∧ f.payloadLength = frame.payloadLength) ∨
    (frame.payloadLength = 126 ∧ offset + 2 ≤ data.length ∧ offset' = offset + 2 ∧
      f.payloadLength = bigEndian ((data.drop offset).take 2)) ∨
    (frame.payloadLength = 127 ∧ offset + 8 ≤ data.length ∧ offset' = offset + 8 ∧
      f.payloadLength = bigEndian ((data.drop offset).take 8))) := by
  unfold readLength at h
  split at h
  · next hword =>
    split at h
    · cases h
    · next hroom =>
      have hle : offset + 2 ≤ data.length := by omega
      obtain ⟨b₀, b₁, hpair⟩ : ∃ b₀ b₁, (data.drop offset).take 2 = [b₀, b₁] := by
        apply List.length_eq_two.mp
        rw [List.length_take, List.length_drop]
        omega
      have hdrop : data.drop offset = b₀ :: b₁ :: (data.drop offset).drop 2 := by
        conv => lhs; rw [← List.take_append_drop 2 (data.drop offset), hpair]
        rfl
      rw [length_two hdrop, ← hpair] at h
      obtain ⟨hf, ho⟩ := Prod.mk.inj h
      rw [← hf]
      exact ⟨rfl, .inr (.inl ⟨hword, hle, (Option.some.inj ho).symm, rfl⟩)⟩
  · next hword =>
    split at h
    · next hlong =>
      split at h
      · cases h
      · next hroom =>
        have hle : offset + 8 ≤ data.length := by omega
        have hlen : ((data.drop offset).take 8).length = 8 := by
          rw [List.length_take, List.length_drop]
          omega
        rw [length_eight hlen (List.take_append_drop 8 (data.drop offset)).symm] at h
        obtain ⟨hf, ho⟩ := Prod.mk.inj h
        rw [← hf]
        exact ⟨rfl, .inr (.inr ⟨hlong, hle, (Option.some.inj ho).symm, rfl⟩)⟩
    · next hlong =>
      obtain ⟨hf, ho⟩ := Prod.mk.inj h
      rw [← hf]
      exact ⟨rfl, .inl ⟨by omega, (Option.some.inj ho).symm, rfl⟩⟩

theorem readLength_payload {frame f : Frame} {data : Bytes} {offset : Nat} {result : Option Nat}
    (h : readLength frame data offset = (f, result)) :
    f.payloadData = frame.payloadData ∧ f.opcode = frame.opcode ∧
      f.textPayload = frame.textPayload := by
  unfold readLength at h
  repeat' split at h
  all_goals
    cases h
    exact ⟨rfl, rfl, rfl⟩

theorem readKey_payload {frame f : Frame} {data : Bytes} {offset : Nat} {result : Option Nat}
    (h : readKey frame data offset = (f, result)) :
    f.payloadData = frame.payloadData ∧ f.opcode = frame.opcode ∧
      f.textPayload = frame.textPayload := by
  unfold readKey at h
  repeat' split at h
  all_goals
    cases h
    exact ⟨rfl, rfl, rfl⟩

theorem readKey_accepts {frame f : Frame} {data : Bytes} {offset offset' : Nat}
    (h : readKey frame data offset = (f, some offset')) :
    f.payloadLength = frame.payloadLength ∧ offset' = offset + (if frame.mask then 4 else 0) ∧
      (offset ≤ data.length → offset' ≤ data.length) := by
  unfold readKey at h
  split at h
  · next hmask =>
    split at h
    · cases h
    · next hroom =>
      cases h
      exact ⟨rfl, by rw [if_pos hmask], fun _ => Nat.le_of_not_lt hroom⟩
  · next hmask =>
    cases h
    exact ⟨rfl, by rw [if_neg hmask, Nat.add_zero], fun hle => hle⟩

/-- The header of a frame that is no Close frame, and the offset behind it; nothing where
`readFrame` returns before it compares the length with the size of the buffer. -/
def readHeader (frame : Frame) (data : Bytes) : Option (Frame × Nat) :=
  match data with
  | firstByte :: secondByte :: _ =>
    let frame := {frame with fin := (firstByte &&& 0x80) != 0, opcode := ⟨firstByte &&& 0x0F⟩}
    if frame.opcode = WsOpcode.close then none
    else
      let frame := {frame with
        mask := (secondByte &&& 0x80) != 0, payloadLength := (secondByte &&& 0x7F).toNat}
      match readLength frame data 2 with
      | (_, none) => none
      | (frame, some offset) =>
        match readKey frame data offset with
        | (_, none) => none
        | (frame, some offset) => some (frame, offset)
  | _ => none

/-- The frame as it is when its length is read. -/
def opened (frame : Frame) (first second : UInt8) : Frame :=
  {frame with
    fin := (first &&& 0x80) != 0, opcode := ⟨first &&& 0x0F⟩, mask := (second &&& 0x80) != 0,
    payloadLength := (second &&& 0x7F).toNat}

/-- Behind a header the payload is read; without one nothing is, and `false` is returned. -/
theorem readFrame_cases (frame : Frame) (data : Bytes) :
    (∃ f offset, readHeader frame data = some (f, offset) ∧
      readFrame frame data = readPayload f data offset) ∨
    readHeader frame data = none ∧
      ∃ f, readFrame frame data = .ok (f, false) ∧ f.payloadData = frame.payloadData := by
  match data with
  | [] => exact .inr ⟨rfl, frame, rfl, rfl⟩
  | [_] => exact .inr ⟨rfl, frame, rfl, rfl⟩
  | first :: second :: rest =>
    unfold readHeader readFrame
    simp only
    by_cases hclose : (⟨first &&& 0x0F⟩ : WsOpcode) = WsOpcode.close
    · rw [if_pos hclose, if_pos hclose]
      exact .inr ⟨rfl, _, rfl, rfl⟩
    · rw [if_neg hclose, if_neg hclose]
      rcases hlength : readLength (opened frame first second) (first :: second :: rest) 2 with
        ⟨f₁, offset₁⟩
      have hsame : f₁.payloadData = frame.payloadData := (readLength_payload hlength).1
      simp only [opened] at hlength
      simp only [hlength]
      cases offset₁ with
      | none => exact .inr ⟨rfl, f₁, rfl, hsame⟩
      | some offset₁ =>
        rcases hkey : readKey f₁ (first :: second :: rest) offset₁ with ⟨f₂, offset₂⟩
        simp only [hkey]
        cases offset₂ with
        | none => exact .inr ⟨rfl, f₂, rfl, (readKey_payload hkey).1.trans hsame⟩
        | some offset₂ => exact .inl ⟨f₂, offset₂, rfl, rfl⟩

/-- What the header of a frame says by its format. -/
theorem readHeader_accepts {frame f : Frame} {data : Bytes} {offset : Nat}
    (h : readHeader frame data = some (f, offset)) :
    offset = headerSize data ∧ offset ≤ data.length ∧
      frameSize data = some (offset + f.payloadLength) ∧ f.opcode = ⟨opcodeBits data⟩ ∧
      f.opcode ≠ WsOpcode.close := by
  match data, h with
  | [], h => cases h
  | [_], h => cases h
  | first :: second :: rest, h =>
    unfold readHeader at h
    simp only at h
    split at h
    · cases h
    · next hopen =>
      split at h
      · cases h
      · next f₁ offset₁ hlength =>
        split at h
        · cases h
        · next f₂ offset₂ hkey =>
          cases h
          have htwo : 2 ≤ (first :: second :: rest).length := by simp
          obtain ⟨hmask, hforms⟩ := readLength_accepts (seven_bits second) hlength
          obtain ⟨hkeyLength, hkeyOffset, hkeyRoom⟩ := readKey_accepts hkey
          have hopcode : f.opcode = ⟨first &&& 0x0F⟩ :=
            (readKey_payload hkey).2.1.trans (readLength_payload hlength).2.1
          have hbit : offset = offset₁ + if second &&& 0x80 ≠ 0 then 4 else 0 := by
            simpa only [hmask, bne_iff_ne] using hkeyOffset
          have hsizes : offset = headerSize (first :: second :: rest) ∧
              offset₁ ≤ (first :: second :: rest).length ∧
              frameSize (first :: second :: rest) = some (offset + f.payloadLength) := by
            simp only [headerSize, frameSize, hkeyLength]
            rcases hforms with ⟨hl, ho, hn⟩ | ⟨hl, hroom, ho, hn⟩ | ⟨hl, hroom, ho, hn⟩
            · simp only at hl hn
              simp only [if_pos hl, hn]
              exact ⟨by omega, by omega, by rw [hbit, ho]⟩
            · simp only [List.length_cons] at hl hroom
              have hrest : 2 ≤ rest.length := by omega
              simp only [if_neg (show ¬ (second &&& 0x7F).toNat < 126 by omega), if_pos hl,
                if_pos hrest, hn, List.length_cons]
              exact ⟨by omega, by omega, by simp only [List.drop]; congr 1; omega⟩
            · simp only [List.length_cons] at hl hroom
              have hrest : 8 ≤ rest.length := by omega
              simp only [if_neg (show ¬ (second &&& 0x7F).toNat < 126 by omega),
                if_neg (show ¬ (second &&& 0x7F).toNat = 126 by omega), if_pos hrest, hn,
                List.length_cons]
              exact ⟨by omega, by omega, by simp only [List.drop]; congr 1; omega⟩
          refine ⟨hsizes.1, hkeyRoom hsizes.2.1, hsizes.2.2, hopcode, ?_⟩
          rw [hopcode]
          exact hopen

/-- A payload that is read lies in the buffer. -/
theorem readPayload_accepts {frame f : Frame} {data : Bytes} {offset : Nat}
    (hoffset : offset ≤ 14) (h : readPayload frame data offset = .ok (f, true)) :
    f.payloadLength = frame.payloadLength ∧ offset + frame.payloadLength ≤ data.length := by
  unfold readPayload at h
  split at h
  · cases h
  · next hfits =>
    split at h
    · cases h
    · next hmax =>
      have hsum : sizeAdd offset frame.payloadLength = offset + frame.payloadLength :=
        Nat.mod_eq_of_lt (by omega)
      rw [hsum] at hfits
      have hf := (Prod.mk.inj (Except.ok.inj h)).1
      refine ⟨?_, by omega⟩
      rw [← hf, apply_ite Frame.payloadLength, ite_self]

/-- Reading the payload leaves the opcode alone. -/
theorem readPayload_opcode {frame f : Frame} {data : Bytes} {offset : Nat} {complete : Bool}
    (h : readPayload frame data offset = .ok (f, complete)) : f.opcode = frame.opcode := by
  unfold readPayload at h
  split at h
  · cases h
    rfl
  · split at h
    · cases h
    · rw [← (Prod.mk.inj (Except.ok.inj h)).1, apply_ite Frame.opcode, ite_self]

theorem headerSize_le (data : Bytes) : headerSize data ≤ 14 := by
  unfold headerSize
  split
  · simp only
    split <;> split <;> (try split) <;> omega
  · exact Nat.zero_le 14

/-- What is accepted has a header. -/
theorem readFrame_complete {frame f : Frame} {data : Bytes}
    (h : readFrame frame data = .ok (f, true)) :
    ∃ f' offset, readHeader frame data = some (f', offset) ∧
      readPayload f' data offset = .ok (f, true) := by
  rcases readFrame_cases frame data with ⟨f', offset, hheader, hread⟩ | ⟨_, f', hread, _⟩
  · exact ⟨f', offset, hheader, hread ▸ h⟩
  · rw [hread] at h
    cases h

/-- **What is accepted is a complete frame**, of the length its own header says. -/
theorem readFrame_accepts {frame f : Frame} {data : Bytes}
    (h : readFrame frame data = .ok (f, true)) :
    frameSize data = some (headerSize data + f.payloadLength) ∧
      headerSize data + f.payloadLength ≤ data.length := by
  obtain ⟨f', offset, hheader, hpayload⟩ := readFrame_complete h
  obtain ⟨rfl, _, hsize, _⟩ := readHeader_accepts hheader
  obtain ⟨hlength, hfits⟩ := readPayload_accepts (headerSize_le data) hpayload
  rw [hlength]
  exact ⟨hsize, hfits⟩

theorem readFrame_opcode {frame f : Frame} {data : Bytes}
    (h : readFrame frame data = .ok (f, true)) : f.opcode = ⟨opcodeBits data⟩ := by
  obtain ⟨f', offset, hheader, hpayload⟩ := readFrame_complete h
  obtain ⟨_, _, _, hopcode, _⟩ := readHeader_accepts hheader
  exact (readPayload_opcode hpayload).trans hopcode

end WebSocket
end HttpServer
