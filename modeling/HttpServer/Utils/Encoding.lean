import HttpServer.Lib.Base64
import HttpServer.Utils.Base64

/-! `utils::base64_encode` writes the encoding of `Lib.Base64`.

After three bytes the encoder is where it began, but for what is left in `val`: nothing
above the bits still to be written is ever looked at. -/
namespace HttpServer.Utils
open Lib

theorem lookupTable_eq : ∀ v < 64, lookupTable.getD v 0 = Base64.character v := by
  decide

theorem mask_high : ∀ i < 32, 6 ≤ i → (0x3F : BitVec 32).getLsbD i = false := by
  decide

/-- Shifted no further than this, the sign stays out of the last six bits. -/
theorem lookup_sshiftRight (x : BitVec 32) {s : Nat} (hs : s ≤ 26) :
    lookup (x.sshiftRight s) = Base64.character ((x.toNat >>> s) % 64) := by
  have hbits : x.sshiftRight s &&& 0x3F = x >>> s &&& 0x3F := by
    apply BitVec.eq_of_getLsbD_eq
    intro i hi
    rw [BitVec.getLsbD_and, BitVec.getLsbD_and]
    by_cases h : i < 6
    · have hlow : ¬ 32 ≤ i := Nat.not_le.mpr hi
      rw [BitVec.getLsbD_sshiftRight, BitVec.getLsbD_ushiftRight, if_pos (by omega)]
      simp [hlow]
    · rw [mask_high i hi (by omega), Bool.and_false, Bool.and_false]
  have hlow : (x >>> s &&& 0x3F).toNat = (x.toNat >>> s) % 64 := by
    rw [BitVec.toNat_and, BitVec.toNat_ushiftRight]
    exact Nat.and_two_pow_sub_one_eq_mod _ 6
  rw [lookup, hbits, hlow, lookupTable_eq _ (Nat.mod_lt _ (by decide))]

/-- `val` with a byte behind it. -/
def shiftIn (val : BitVec 32) (c : UInt8) : BitVec 32 := (val <<< 8) + BitVec.ofNat 32 c.toNat

theorem shiftIn_toNat (val : BitVec 32) (c : UInt8) :
    (shiftIn val c).toNat = (val.toNat * 256 + c.toNat) % 4294967296 := by
  have hc := c.toNat_lt
  rw [shiftIn, BitVec.toNat_add, BitVec.toNat_shiftLeft, BitVec.toNat_ofNat, Nat.shiftLeft_eq]
  omega

theorem shiftLeft_toNat (val : BitVec 32) : (val <<< 8).toNat = val.toNat * 256 % 4294967296 := by
  rw [BitVec.toNat_shiftLeft, Nat.shiftLeft_eq]

/-! ### The three places of a group -/

theorem push_first (val : BitVec 32) (out : Bytes) (c : UInt8) :
    Encoder.push ⟨val, -6, out⟩ c =
      ⟨shiftIn val c, -4, out ++ [lookup ((shiftIn val c).sshiftRight 2)]⟩ := rfl

theorem push_second (val : BitVec 32) (out : Bytes) (c : UInt8) :
    Encoder.push ⟨val, -4, out⟩ c =
      ⟨shiftIn val c, -2, out ++ [lookup ((shiftIn val c).sshiftRight 4)]⟩ := rfl

theorem push_third (val : BitVec 32) (out : Bytes) (c : UInt8) :
    Encoder.push ⟨val, -2, out⟩ c =
      ⟨shiftIn val c, -6, out ++ [lookup ((shiftIn val c).sshiftRight 6)] ++
        [lookup ((shiftIn val c).sshiftRight 0)]⟩ := rfl

/-! ### The characters -/

theorem first_character (val : BitVec 32) (a : UInt8) :
    lookup ((shiftIn val a).sshiftRight 2) = Base64.character (a.toNat / 4) := by
  have ha := a.toNat_lt
  rw [lookup_sshiftRight _ (by decide), shiftIn_toNat]
  congr 1
  omega

theorem second_character (val : BitVec 32) (a b : UInt8) :
    lookup ((shiftIn (shiftIn val a) b).sshiftRight 4) =
      Base64.character (a.toNat % 4 * 16 + b.toNat / 16) := by
  have ha := a.toNat_lt
  have hb := b.toNat_lt
  rw [lookup_sshiftRight _ (by decide), shiftIn_toNat, shiftIn_toNat]
  congr 1
  omega

theorem third_character (val : BitVec 32) (b c : UInt8) :
    lookup ((shiftIn (shiftIn val b) c).sshiftRight 6) =
      Base64.character (b.toNat % 16 * 4 + c.toNat / 64) := by
  have hb := b.toNat_lt
  have hc := c.toNat_lt
  rw [lookup_sshiftRight _ (by decide), shiftIn_toNat, shiftIn_toNat]
  congr 1
  omega

theorem fourth_character (val : BitVec 32) (c : UInt8) :
    lookup ((shiftIn val c).sshiftRight 0) = Base64.character (c.toNat % 64) := by
  have hc := c.toNat_lt
  rw [lookup_sshiftRight _ (by decide), shiftIn_toNat]
  congr 1
  omega

/-- The bits left over after one byte, with zeros behind them. -/
theorem rest_of_one (val : BitVec 32) (a : UInt8) :
    lookup ((shiftIn val a <<< 8).sshiftRight 4) = Base64.character (a.toNat % 4 * 16) := by
  have ha := a.toNat_lt
  rw [lookup_sshiftRight _ (by decide), shiftLeft_toNat, shiftIn_toNat]
  congr 1
  omega

/-- The bits left over after two. -/
theorem rest_of_two (val : BitVec 32) (b : UInt8) :
    lookup ((shiftIn val b <<< 8).sshiftRight 6) = Base64.character (b.toNat % 16 * 4) := by
  have hb := b.toNat_lt
  rw [lookup_sshiftRight _ (by decide), shiftLeft_toNat, shiftIn_toNat]
  congr 1
  omega

/-! ### The whole input -/

/-- What is written once the input is read. -/
def Encoder.finish (e : Encoder) : Bytes :=
  if -6 < e.valb then
    pad (e.out ++ [lookup ((e.val <<< 8).sshiftRight (e.valb + 8).toNat)])
  else pad e.out

theorem pad_append {out : Bytes} (hout : out.length % 4 = 0) (tail : Bytes) :
    pad (out ++ tail) = out ++ pad tail := by
  have hlen : (out ++ tail).length % 4 = tail.length % 4 := by
    rw [List.length_append]
    omega
  rw [pad, hlen, List.append_assoc, pad]

/-- From the start of a group on, whatever `val` still holds. -/
theorem finish_push (input : Bytes) (val : BitVec 32) (out : Bytes) (hout : out.length % 4 = 0) :
    (input.foldl Encoder.push ⟨val, -6, out⟩).finish = out ++ Base64.encode input := by
  induction input using Base64.encode.induct generalizing val out with
  | case1 =>
    show pad out = _
    rw [← List.append_nil out, pad_append hout, List.append_nil, Base64.encode]
    rfl
  | case2 a =>
    rw [List.foldl_cons, List.foldl_nil, push_first]
    show pad (out ++ [lookup ((shiftIn val a).sshiftRight 2)] ++
      [lookup ((shiftIn val a <<< 8).sshiftRight 4)]) = _
    rw [first_character, rest_of_one, List.append_assoc, pad_append hout, Base64.encode]
    rfl
  | case3 a b =>
    rw [List.foldl_cons, List.foldl_cons, List.foldl_nil, push_first, push_second]
    show pad (out ++ [lookup ((shiftIn val a).sshiftRight 2)] ++
      [lookup ((shiftIn (shiftIn val a) b).sshiftRight 4)] ++
      [lookup ((shiftIn (shiftIn val a) b <<< 8).sshiftRight 6)]) = _
    rw [first_character, second_character, rest_of_two, List.append_assoc, List.append_assoc,
      pad_append hout, Base64.encode]
    rfl
  | case4 a b c rest ih =>
    rw [List.foldl_cons, List.foldl_cons, List.foldl_cons, push_first, push_second, push_third,
      first_character, second_character, third_character, fourth_character, ih, Base64.encode]
    · simp only [List.append_assoc, List.cons_append, List.nil_append]
    · simp only [List.length_append, List.length_singleton]
      omega

theorem base64Encode_eq (input : Bytes) : base64Encode input = Base64.encode input :=
  finish_push input 0 [] rfl

/-- The encoder writes nothing outside its alphabet. -/
theorem base64Encode_alphabet (input : Bytes) : ∀ c ∈ base64Encode input, Base64Byte c := by
  intro c hc
  rw [base64Encode_eq] at hc
  rcases Base64.encode_alphabet input c hc with ⟨v, hv, rfl⟩ | rfl
  · left
    rw [← lookupTable_eq v hv, List.getD_eq_getElem?_getD,
      List.getElem?_eq_getElem (show v < lookupTable.length from hv)]
    exact List.getElem_mem _
  · exact .inr rfl

/-- **Base64 of every string**, though the accumulator overflows and turns negative: four
characters for every three bytes, and the decoder gives the string back. -/
theorem base64Encode_correct (input : Bytes) :
    base64Encode input = Base64.encode input ∧
      (base64Encode input).length = 4 * ((input.length + 2) / 3) ∧
      Base64.decode (base64Encode input) = some input := by
  rw [base64Encode_eq]
  exact ⟨rfl, Base64.encode_length input, Base64.decode_encode input⟩

end HttpServer.Utils
