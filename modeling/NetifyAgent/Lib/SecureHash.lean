import Mathlib.Data.List.GetD
import NetifyAgent.Lib.Streaming

/-! The secure hash algorithm SHA-1 in the words of its standard: the padding of
a message, the schedule of a block, eighty rounds, and the digest. -/
namespace NetifyAgent.SecureHash
open Streaming

/-- The chaining value, five words. -/
structure Chaining where
  a : UInt32
  b : UInt32
  c : UInt32
  d : UInt32
  e : UInt32
  deriving DecidableEq, Repr

/-- Four bytes as a word, the most significant byte first. -/
def wordOf (b₀ b₁ b₂ b₃ : UInt8) : UInt32 :=
  b₀.toUInt32 <<< 24 ||| b₁.toUInt32 <<< 16 ||| b₂.toUInt32 <<< 8 ||| b₃.toUInt32

/-- The bytes of a word, the most significant byte first. -/
def bytesOf (w : UInt32) : List UInt8 :=
  [(w >>> 24).toUInt8, (w >>> 16).toUInt8, (w >>> 8).toUInt8, w.toUInt8]

@[simp] theorem bytesOf_length (w : UInt32) : (bytesOf w).length = 4 := rfl

/-- The circular left shift `ROTL`. -/
def rotl (n : Nat) (x : UInt32) : UInt32 := ⟨x.toBitVec.rotateLeft n⟩

def ch (x y z : UInt32) : UInt32 := (x &&& y) ^^^ (~~~x &&& z)

def parity (x y z : UInt32) : UInt32 := x ^^^ y ^^^ z

def maj (x y z : UInt32) : UInt32 := (x &&& y) ^^^ (x &&& z) ^^^ (y &&& z)

/-- The function of round `t`. -/
def f (t : Nat) : UInt32 → UInt32 → UInt32 → UInt32 :=
  if t < 20 then ch else if t < 40 then parity else if t < 60 then maj else parity

/-- The constant of round `t`. -/
def k (t : Nat) : UInt32 :=
  if t < 20 then 0x5a827999 else if t < 40 then 0x6ed9eba1 else if t < 60 then 0x8f1bbcdc
  else 0xca62c1d6

/-- Word `t` of a block. -/
def wordAt (block : List UInt8) (t : Nat) : UInt32 :=
  wordOf (block.getD (4 * t) 0) (block.getD (4 * t + 1) 0) (block.getD (4 * t + 2) 0)
    (block.getD (4 * t + 3) 0)

/-- The first `n` words of the schedule of a block. -/
def schedule (block : List UInt8) : Nat → List UInt32
  | 0 => []
  | t + 1 =>
    let w := schedule block t
    w ++ [if t < 16 then wordAt block t
      else rotl 1 (w.getD (t - 3) 0 ^^^ w.getD (t - 8) 0 ^^^ w.getD (t - 14) 0 ^^^
        w.getD (t - 16) 0)]

/-- Word `t` of the schedule. -/
def w (block : List UInt8) (t : Nat) : UInt32 := (schedule block (t + 1)).getD t 0

/-- One round. -/
def round (block : List UInt8) (s : Chaining) (t : Nat) : Chaining where
  a := rotl 5 s.a + f t s.b s.c s.d + s.e + k t + w block t
  b := s.a
  c := rotl 30 s.b
  d := s.c
  e := s.d

/-- The first `n` rounds. -/
def rounds (block : List UInt8) (s : Chaining) : Nat → Chaining
  | 0 => s
  | t + 1 => round block (rounds block s t) t

/-- What a block makes of the chaining value. -/
def compress (s : Chaining) (block : List UInt8) : Chaining :=
  let r := rounds block s 80
  ⟨s.a + r.a, s.b + r.b, s.c + r.c, s.d + r.d, s.e + r.e⟩

/-- The initial chaining value. -/
def initial : Chaining := ⟨0x67452301, 0xefcdab89, 0x98badcfe, 0x10325476, 0xc3d2e1f0⟩

/-- The number of zero bytes behind the delimiter of a message. -/
def zeros (length : Nat) : Nat := (119 - length % 64) % 64

/-- A length in bits, as sixty-four of them. -/
def lengthField (bits : Nat) : List UInt8 :=
  bytesOf (UInt32.ofNat (bits / 2 ^ 32)) ++ bytesOf (UInt32.ofNat bits)

/-- What is put behind a message of so many bytes. -/
def padding (length : Nat) : List UInt8 :=
  0x80 :: (List.replicate (zeros length) 0 ++ lengthField (8 * length))

/-- The bytes of the chaining value. -/
def Chaining.bytes (s : Chaining) : List UInt8 :=
  bytesOf s.a ++ bytesOf s.b ++ bytesOf s.c ++ bytesOf s.d ++ bytesOf s.e

/-- The digest of a message. -/
def digest (message : List UInt8) : List UInt8 :=
  (absorb compress 64 initial (message ++ padding message.length)).bytes

@[simp] theorem digest_length (message : List UInt8) : (digest message).length = 20 := rfl

/-! ## The schedule -/

section
variable (block : List UInt8)

@[simp] theorem schedule_length (n : Nat) : (schedule block n).length = n := by
  induction n with
  | zero => rfl
  | succ n ih => simp [schedule, ih]

/-- A longer schedule starts with the words of a shorter one. -/
theorem schedule_getD {t n : Nat} (within : t < n) : (schedule block n).getD t 0 = w block t := by
  induction n with
  | zero => omega
  | succ n ih =>
    rcases Nat.lt_succ_iff_lt_or_eq.mp within with lower | rfl
    · rw [← ih lower, schedule, List.getD_append _ _ _ _ (by simpa using lower)]
    · rfl

theorem w_input {t : Nat} (input : t < 16) : w block t = wordAt block t := by
  rw [w, schedule, List.getD_append_right _ _ _ _ (by simp)]
  simp [input]

/-- A later word comes from four earlier ones. -/
theorem w_later {t : Nat} (later : 16 ≤ t) :
    w block t = rotl 1 (w block (t - 3) ^^^ w block (t - 8) ^^^ w block (t - 14) ^^^
      w block (t - 16)) := by
  rw [w, schedule, List.getD_append_right _ _ _ _ (by simp)]
  simp only [schedule_length, Nat.sub_self, List.getD_cons_zero,
    if_neg (Nat.not_lt.mpr later)]
  rw [schedule_getD block (by omega), schedule_getD block (by omega),
    schedule_getD block (by omega), schedule_getD block (by omega)]

end

/-! ## Padding -/

/-- A padded message consists of whole blocks. -/
theorem padded_blocks (message : List UInt8) :
    64 ∣ (message ++ padding message.length).length := by
  simp only [padding, lengthField, zeros, List.length_append, List.length_cons,
    List.length_replicate, bytesOf_length]
  omega

example : digest [0x61, 0x62, 0x63] =
    [0xa9, 0x99, 0x3e, 0x36, 0x47, 0x06, 0x81, 0x6a, 0xba, 0x3e,
     0x25, 0x71, 0x78, 0x50, 0xc2, 0x6c, 0x9c, 0xd0, 0xd8, 0x9d] := by
  decide +kernel

end NetifyAgent.SecureHash
