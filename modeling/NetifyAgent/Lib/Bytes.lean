import Mathlib.Data.List.Basic
import Mathlib.Tactic.Ring

/-! Byte memory as a program with raw pointers sees it: a total function from
addresses to bytes, words read from it in either byte order, slices, and the
three-way comparison of `memcmp`. -/
namespace NetifyAgent.Bytes

/-- Memory from some base address on. What lies past the end of an object is
whatever happens to be stored there. -/
abbrev Memory := Nat → UInt8

/-- A counter of eight bits counts on unless it is full. -/
theorem toNat_succ {b : UInt8} (room : b ≠ 255) : (b + 1).toNat = b.toNat + 1 := by
  have below : b.toNat ≠ 255 := fun full => room (UInt8.toNat_inj.mp full)
  have := b.toNat_lt
  rw [UInt8.toNat_add]
  show (b.toNat + 1) % 256 = _
  omega

/-- A 16-bit word in network byte order. -/
def be16 (m : Memory) (off : Nat) : Nat := (m off).toNat * 256 + (m (off + 1)).toNat

/-- A 16-bit word as a little-endian machine loads it. -/
def le16 (m : Memory) (off : Nat) : Nat := (m off).toNat + (m (off + 1)).toNat * 256

/-- A 32-bit word as a little-endian machine loads it. -/
def le32 (m : Memory) (off : Nat) : Nat := le16 m off + le16 m (off + 2) * 65536

/-- A 32-bit word in network byte order. -/
def be32 (m : Memory) (off : Nat) : Nat := be16 m off * 65536 + be16 m (off + 2)

/-- The `n` bytes from `off` on. -/
def slice (m : Memory) (off : Nat) : Nat → List UInt8
  | 0 => []
  | n + 1 => m off :: slice m (off + 1) n

@[simp] theorem slice_length (m : Memory) (off n : Nat) : (slice m off n).length = n := by
  induction n generalizing off with
  | zero => rfl
  | succ n ih => simp [slice, ih]

theorem slice_add (m : Memory) (off a b : Nat) :
    slice m off (a + b) = slice m off a ++ slice m (off + a) b := by
  induction a generalizing off with
  | zero => simp [slice]
  | succ a ih =>
    rw [Nat.succ_add, slice, slice, ih, List.cons_append, Nat.add_assoc, Nat.add_comm 1]

/-- Memory that starts with these bytes and goes on with other memory. -/
def behind (bytes : List UInt8) (m : Memory) : Memory := fun i =>
  if i < bytes.length then bytes.getD i 0 else m (i - bytes.length)

section
variable (bytes bytes' : List UInt8) (m : Memory)

@[simp] theorem behind_nil : behind [] m = m := by
  funext i
  simp [behind]

@[simp] theorem behind_zero (b : UInt8) : behind (b :: bytes) m 0 = b := by simp [behind]

@[simp] theorem behind_succ (b : UInt8) (i : Nat) :
    behind (b :: bytes) m (i + 1) = behind bytes m i := by
  simp [behind]

theorem behind_append : behind (bytes ++ bytes') m = behind bytes (behind bytes' m) := by
  funext i
  induction bytes generalizing i with
  | nil => simp
  | cons b bytes ih =>
    cases i with
    | zero => simp
    | succ i => simpa using ih i

theorem behind_add (i : Nat) : behind bytes m (bytes.length + i) = m i := by simp [behind]

theorem slice_behind {off n : Nat} (width : off + n ≤ bytes.length) :
    slice (behind bytes m) off n = (bytes.drop off).take n := by
  induction n generalizing off with
  | zero => rfl
  | succ n ih =>
    have first : off < bytes.length := by omega
    rw [slice, ih (by omega), List.drop_eq_getElem_cons first, List.take_succ_cons]
    simp [behind, first]

end

theorem le16_lt (m : Memory) (off : Nat) : le16 m off < 65536 := by
  have := (m off).toNat_lt
  have := (m (off + 1)).toNat_lt
  simp only [le16]
  omega

/-- The words of two memories agree where their bytes do. -/
theorem be16_congr {m m' : Memory} {off off' : Nat} (first : m off = m' off')
    (second : m (off + 1) = m' (off' + 1)) : be16 m off = be16 m' off' := by
  simp only [be16, first, second]

theorem le16_congr {m m' : Memory} {off off' : Nat} (first : m off = m' off')
    (second : m (off + 1) = m' (off' + 1)) : le16 m off = le16 m' off' := by
  simp only [le16, first, second]

theorem slice_congr {m m' : Memory} {off off' n : Nat}
    (same : ∀ i, i < n → m (off + i) = m' (off' + i)) : slice m off n = slice m' off' n := by
  induction n generalizing off off' with
  | zero => rfl
  | succ n ih =>
    simp only [slice, List.cons.injEq]
    refine ⟨same 0 (by omega), ih fun i hi => ?_⟩
    have := same (i + 1) (by omega)
    rwa [show off + (i + 1) = off + 1 + i by omega,
      show off' + (i + 1) = off' + 1 + i by omega] at this

/-- Memory after these bytes were written from `off` on. -/
def store (m : Memory) (off : Nat) (bytes : List UInt8) : Memory := fun i =>
  if off ≤ i ∧ i < off + bytes.length then bytes.getD (i - off) 0 else m i

section
variable (m : Memory) (bytes : List UInt8)

theorem store_outside {off i : Nat} (outside : i < off ∨ off + bytes.length ≤ i) :
    store m off bytes i = m i := if_neg (by omega)

/-- What was written is read back. -/
theorem slice_store (off : Nat) : slice (store m off bytes) off bytes.length = bytes := by
  have inside : ∀ front rest, bytes = front ++ rest →
      slice (store m off bytes) (off + front.length) rest.length = rest := by
    intro front rest whole
    induction rest generalizing front with
    | nil => rfl
    | cons b rest ih =>
      have later := ih (front ++ [b]) (by rw [whole, List.append_assoc]; rfl)
      rw [List.length_append, ← Nat.add_assoc] at later
      rw [List.length_cons, slice]
      refine congrArg₂ List.cons ?_ later
      unfold store
      rw [if_pos (by rw [whole]; simp)]
      simp [whole]
  exact inside [] bytes rfl

/-- Memory beside the bytes that were written. -/
theorem slice_store_beside {off off' n : Nat} (beside : off' + n ≤ off ∨ off + bytes.length ≤ off') :
    slice (store m off bytes) off' n = slice m off' n :=
  slice_congr fun _ _ => store_outside m bytes (by omega)

end

/-- The first difference of two byte strings: negative, zero or positive as
the first string sorts before, with or after the second. -/
def memcmp : List UInt8 → List UInt8 → Int
  | a :: as, b :: bs => if a = b then memcmp as bs else (a.toNat : Int) - b.toNat
  | _, _ => 0

/-- Exchanging the strings turns the sign around. -/
theorem memcmp_swap (as bs : List UInt8) : memcmp bs as = -memcmp as bs := by
  induction as generalizing bs with
  | nil => cases bs <;> rfl
  | cons a as ih =>
    cases bs with
    | nil => rfl
    | cons b bs =>
      by_cases same : a = b
      · simp [memcmp, same, ih]
      · simp [memcmp, same, Ne.symm same]

theorem memcmp_self (as : List UInt8) : memcmp as as = 0 := by
  induction as with
  | nil => rfl
  | cons a as ih => simp [memcmp, ih]

/-- Strings of one length compare equal exactly when they are equal. -/
theorem memcmp_eq_zero {as bs : List UInt8} (width : as.length = bs.length) :
    memcmp as bs = 0 ↔ as = bs := by
  induction as generalizing bs with
  | nil => cases bs <;> simp_all [memcmp]
  | cons a as ih =>
    cases bs with
    | nil => simp at width
    | cons b bs =>
      have tails := ih (by simpa using width)
      by_cases same : a = b
      · simp [memcmp, same, tails]
      · have differ : a.toNat ≠ b.toNat := fun h => same (UInt8.toNat_inj.mp h)
        simp only [memcmp, same, if_false, List.cons.injEq, false_and, iff_false]
        omega

/-- Comparing piece by piece is comparing the whole. -/
theorem memcmp_append {as bs : List UInt8} (width : as.length = bs.length) (as' bs' : List UInt8) :
    memcmp (as ++ as') (bs ++ bs') =
      if memcmp as bs = 0 then memcmp as' bs' else memcmp as bs := by
  induction as generalizing bs with
  | nil =>
    have : bs = [] := List.length_eq_zero_iff.mp width.symm
    simp [this, memcmp]
  | cons a as ih =>
    cases bs with
    | nil => simp at width
    | cons b bs =>
      by_cases same : a = b
      · simpa [memcmp, same] using ih (by simpa using width)
      · have differ : a.toNat ≠ b.toNat := fun h => same (UInt8.toNat_inj.mp h)
        have : (a.toNat : Int) - b.toNat ≠ 0 := by omega
        simp [memcmp, same, this]

/-- The two bytes of a 16-bit word in little-endian order. -/
def leBytes16 (n : Nat) : List UInt8 := [UInt8.ofNat (n % 256), UInt8.ofNat (n / 256 % 256)]

@[simp] theorem leBytes16_length (n : Nat) : (leBytes16 n).length = 2 := rfl

/-- Two words have the same bytes only if they are the same word. -/
theorem leBytes16_inj {a b : Nat} (ha : a < 65536) (hb : b < 65536)
    (same : leBytes16 a = leBytes16 b) : a = b := by
  simp only [leBytes16, List.cons.injEq, and_true] at same
  have low := congrArg UInt8.toNat same.1
  have high := congrArg UInt8.toNat same.2
  simp only [UInt8.toNat_ofNat'] at low high
  omega

end NetifyAgent.Bytes
