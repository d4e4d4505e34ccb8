import HttpServer.Lib.Digits

/-! The Secure Hash Algorithm 1 on whole bytes, in the terms of its definition.

The words of a block are given by a recurrence, the function and the constant of a
round by its number, and the digest is a fold over the blocks of the padded message.
Nothing here says how any of it is computed. -/
namespace Lib.Sha1
open Digits (places value)

/-- The last `k` bytes of a number, the most significant first. -/
def octets (k n : Nat) : List UInt8 := (places 256 k n).map UInt8.ofNat

@[simp] theorem octets_length (k n : Nat) : (octets k n).length = k := by
  rw [octets, List.length_map, Digits.places_length]

/-! ### Padding -/

/-- How many zeros stand between the bit that closes a message and its length. -/
def zeros (n : Nat) : Nat := (119 - n % 64) % 64

/-- A one, the zeros, and the length in bits. -/
def padded (message : List UInt8) : List UInt8 :=
  message ++ [0x80] ++ List.replicate (zeros message.length) 0 ++ octets 8 (8 * message.length)

theorem padded_length (message : List UInt8) :
    (padded message).length = message.length + 1 + zeros message.length + 8 := by
  simp only [padded, List.length_append, List.length_singleton, List.length_replicate,
    octets_length]

/-- A padded message is made of whole blocks. -/
theorem padded_blocks (message : List UInt8) : 64 ∣ (padded message).length := by
  rw [padded_length, zeros]
  omega

/-- No smaller number of zeros does. -/
theorem zeros_least {n k : Nat} (h : 64 ∣ n + 1 + k + 8) : zeros n ≤ k := by
  rw [zeros]
  omega

/-! ### One block -/

abbrev Word := BitVec 32

/-- Word `t` of a block. -/
def word (block : List UInt8) (t : Nat) : Word :=
  BitVec.ofNat 32 (value 256 (((block.drop (4 * t)).take 4).map UInt8.toNat))

/-- Word `t` of the sequence a block is drawn out to. -/
def sequence (block : List UInt8) (t : Nat) : Word :=
  if t < 16 then word block t
  else (sequence block (t - 3) ^^^ sequence block (t - 8) ^^^ sequence block (t - 14) ^^^
    sequence block (t - 16)).rotateLeft 1
termination_by t

theorem sequence_given (block : List UInt8) {t : Nat} (h : t < 16) :
    sequence block t = word block t := by
  rw [sequence, if_pos h]

theorem sequence_drawn (block : List UInt8) {t : Nat} (h : 16 ≤ t) :
    sequence block t = (sequence block (t - 3) ^^^ sequence block (t - 8) ^^^
      sequence block (t - 14) ^^^ sequence block (t - 16)).rotateLeft 1 := by
  rw [sequence, if_neg (Nat.not_lt.mpr h)]

/-- The function of round `t`. -/
def mix (t : Nat) (b c d : Word) : Word :=
  if t < 20 then (b &&& c) ||| (~~~b &&& d)
  else if t < 40 then b ^^^ c ^^^ d
  else if t < 60 then (b &&& c) ||| (b &&& d) ||| (c &&& d)
  else b ^^^ c ^^^ d

/-- The constant of round `t`. -/
def constant (t : Nat) : Word :=
  if t < 20 then 0x5A827999
  else if t < 40 then 0x6ED9EBA1
  else if t < 60 then 0x8F1BBCDC
  else 0xCA62C1D6

structure Registers where
  a : Word
  b : Word
  c : Word
  d : Word
  e : Word

def Registers.start : Registers :=
  ⟨0x67452301, 0xEFCDAB89, 0x98BADCFE, 0x10325476, 0xC3D2E1F0⟩

def Registers.add (r s : Registers) : Registers :=
  ⟨r.a + s.a, r.b + s.b, r.c + s.c, r.d + s.d, r.e + s.e⟩

def round (block : List UInt8) (s : Registers) (t : Nat) : Registers :=
  ⟨s.a.rotateLeft 5 + mix t s.b s.c s.d + s.e + sequence block t + constant t,
    s.a, s.b.rotateLeft 30, s.c, s.d⟩

def compress (h : Registers) (block : List UInt8) : Registers :=
  h.add ((List.range 80).foldl (round block) h)

/-! ### The digest -/

/-- Block `i` of a message. -/
def blockAt (message : List UInt8) (i : Nat) : List UInt8 := (message.drop (64 * i)).take 64

def blocks (message : List UInt8) : List (List UInt8) :=
  (List.range (message.length / 64)).map (blockAt message)

def digest (message : List UInt8) : List UInt8 :=
  let h := (blocks (padded message)).foldl compress Registers.start
  octets 4 h.a.toNat ++ octets 4 h.b.toNat ++ octets 4 h.c.toNat ++ octets 4 h.d.toNat ++
    octets 4 h.e.toNat

theorem digest_length (message : List UInt8) : (digest message).length = 20 := by
  simp [digest]

end Lib.Sha1
