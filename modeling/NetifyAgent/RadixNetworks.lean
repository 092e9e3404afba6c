import NetifyAgent.AddrText
import NetifyAgent.RadixKeys
import Mathlib.Data.List.GetD

/-! Networks as bit strings. The entry that `Create` makes of an address stands
for the bits of the address bytes up to the prefix length, the one of
`CreateQuery` for all of them. -/
namespace NetifyAgent.RadixNetworks
open NetifyAgent.RadixKeys RadixNetworkEntry

/-- The bits of a byte, the most significant one first. -/
def byteBits (b : UInt8) : List Bool := (List.range 8).map fun i => b.toNat.testBit (7 - i)

/-- The bits of bytes in network order. -/
def bitsOf (bytes : List UInt8) : List Bool := bytes.flatMap byteBits

@[simp] theorem length_byteBits (b : UInt8) : (byteBits b).length = 8 := by simp [byteBits]

@[simp] theorem length_bitsOf (bytes : List UInt8) : (bitsOf bytes).length = 8 * bytes.length := by
  induction bytes with
  | nil => rfl
  | cons b bytes ih =>
    have step : bitsOf (b :: bytes) = byteBits b ++ bitsOf bytes := rfl
    rw [step, List.length_append, ih, length_byteBits, List.length_cons]
    omega

theorem getD_byteBits (b : UInt8) {i : Nat} (inside : i < 8) :
    (byteBits b).getD i false = b.toNat.testBit (7 - i) := by
  unfold byteBits
  simp [List.getD_eq_getElem?_getD, inside]

theorem byteBits_injective {b c : UInt8} (same : byteBits b = byteBits c) : b = c := by
  apply UInt8.toNat_inj.mp
  apply Nat.eq_of_testBit_eq
  intro i
  by_cases inside : i < 8
  · have bit := congrArg (List.getD · (7 - i) false) same
    rw [getD_byteBits b (by omega), getD_byteBits c (by omega)] at bit
    have place : 7 - (7 - i) = i := by omega
    rwa [place] at bit
  · have high : 2 ^ 8 ≤ 2 ^ i := Nat.pow_le_pow_right (by omega) (by omega)
    rw [Nat.testBit_lt_two_pow (Nat.lt_of_lt_of_le b.toNat_lt high),
      Nat.testBit_lt_two_pow (Nat.lt_of_lt_of_le c.toNat_lt high)]

theorem bitsOf_injective {a b : List UInt8} (same : bitsOf a = bitsOf b) : a = b := by
  induction a generalizing b with
  | nil =>
    have lengths := congrArg List.length same
    rw [length_bitsOf, length_bitsOf] at lengths
    have none : b.length = 0 := by
      simp only [List.length_nil] at lengths
      omega
    exact (List.length_eq_zero_iff.mp none).symm
  | cons x a ih =>
    cases b with
    | nil =>
      have lengths := congrArg List.length same
      rw [length_bitsOf, length_bitsOf] at lengths
      simp at lengths
    | cons y b =>
      have split : byteBits x ++ bitsOf a = byteBits y ++ bitsOf b := same
      obtain ⟨first, rest⟩ := List.append_inj split (by simp)
      rw [byteBits_injective first, ih rest]

/-- An address whose bytes have the width of its family. -/
def Sized (addr : Addr) : Prop :=
  (addr.family = .inet → addr.sinAddr.length = 4) ∧
    (addr.family = .inet6 → addr.sin6Addr.length = 16)

/-! ## Words -/

/-- The number of bytes in network order. -/
def number (bytes : List UInt8) : Nat := bytes.foldl (fun n b => n * 256 + b.toNat) 0

theorem ntohl_eq {bytes : List UInt8} (word : bytes.length = 4) : ntohl bytes = number bytes := by
  match bytes, word with
  | [a, b, c, d], _ => simp [ntohl, number]

/-- A byte behind a number. -/
theorem testBit_byte (n : Nat) (b : UInt8) (j : Nat) :
    (n * 256 + b.toNat).testBit j = if j < 8 then b.toNat.testBit j else n.testBit (j - 8) := by
  have small : b.toNat < 2 ^ 8 := b.toNat_lt
  have parts := Nat.testBit_two_pow_mul_add n small j
  rw [Nat.mul_comm n 256]
  exact parts

theorem testBit_number (bytes : List UInt8) {i : Nat} (inside : i < 8 * bytes.length) :
    (number bytes).testBit (8 * bytes.length - 1 - i) = (bitsOf bytes).getD i false := by
  induction bytes using List.reverseRecOn with
  | nil => cases inside
  | append_singleton bytes b ih =>
    have step : number (bytes ++ [b]) = number bytes * 256 + b.toNat := by
      unfold number
      rw [List.foldl_append]
      rfl
    have bits : bitsOf (bytes ++ [b]) = bitsOf bytes ++ byteBits b := by
      unfold bitsOf
      rw [List.flatMap_append, List.flatMap_singleton]
    simp only [List.length_append, List.length_singleton] at inside
    rw [step, testBit_byte, bits, List.length_append, List.length_singleton]
    rcases Nat.lt_or_ge i (8 * bytes.length) with before | behind
    · rw [if_neg (by omega), List.getD_append _ _ _ _ (by rwa [length_bitsOf]), ← ih before]
      congr 1
      omega
    · rw [if_pos (by omega), List.getD_append_right _ _ _ _ (by rwa [length_bitsOf]), length_bitsOf,
        getD_byteBits b (by omega)]
      congr 1
      omega

theorem number_lt (bytes : List UInt8) : number bytes < 2 ^ (8 * bytes.length) := by
  induction bytes using List.reverseRecOn with
  | nil => exact Nat.one_pos
  | append_singleton bytes b ih =>
    have step : number (bytes ++ [b]) = number bytes * 256 + b.toNat := by
      unfold number
      rw [List.foldl_append]
      rfl
    have small := b.toNat_lt
    rw [step, List.length_append, List.length_singleton, Nat.mul_add, Nat.pow_add]
    omega

theorem getMsbD_ofNat {w n i : Nat} (inside : i < w) :
    (BitVec.ofNat w n).getMsbD i = n.testBit (w - 1 - i) := by
  rw [BitVec.getMsbD_eq_getLsbD, decide_eq_true inside, Bool.true_and, BitVec.getLsbD_ofNat,
    decide_eq_true (by omega), Bool.true_and]

/-! ## Addresses -/

/-- An address is read bit by bit. -/
theorem read4_bits {addr : Addr} (word : addr.sinAddr.length = 4) {i : Nat} (inside : i < 32) :
    (read4 addr).getMsbD i = (bitsOf addr.sinAddr).getD i false := by
  rw [read4, getMsbD_ofNat inside, ntohl_eq word, ← testBit_number _ (by omega), word]

/-- A word of an IPv6 address before it is shifted to its place. -/
theorem word_bits {bytes : List UInt8} (word : bytes.length = 4) (i : Nat) :
    (BitVec.ofNat 128 (ntohl bytes)).getMsbD i =
      (decide (96 ≤ i ∧ i < 128) && (bitsOf bytes).getD (i - 96) false) := by
  have small := number_lt bytes
  rw [word] at small
  by_cases inside : i < 128
  · rw [getMsbD_ofNat inside, ntohl_eq word]
    by_cases low : 96 ≤ i
    · have place : 128 - 1 - i = 8 * bytes.length - 1 - (i - 96) := by omega
      rw [place, testBit_number _ (by omega), decide_eq_true ⟨low, inside⟩, Bool.true_and]
    · have high : 2 ^ (8 * 4) ≤ 2 ^ (128 - 1 - i) := Nat.pow_le_pow_right (by omega) (by omega)
      rw [Nat.testBit_lt_two_pow (Nat.lt_of_lt_of_le small high)]
      simp [low]
  · rw [BitVec.getMsbD_eq_getLsbD]
    simp [inside]

theorem getD_words (bytes : List UInt8) {k i : Nat} (word : 4 * k + 4 ≤ bytes.length)
    (inside : i < 32) :
    (bitsOf bytes).getD (32 * k + i) false =
      (bitsOf ((bytes.drop (4 * k)).take 4)).getD i false := by
  have parts : bytes = bytes.take (4 * k) ++
      ((bytes.drop (4 * k)).take 4 ++ (bytes.drop (4 * k)).drop 4) := by
    rw [List.take_append_drop, List.take_append_drop]
  have split : bitsOf bytes = bitsOf (bytes.take (4 * k)) ++
      (bitsOf ((bytes.drop (4 * k)).take 4) ++ bitsOf ((bytes.drop (4 * k)).drop 4)) := by
    rw [bitsOf, bitsOf, bitsOf, bitsOf, ← List.flatMap_append, ← List.flatMap_append, ← parts]
  have before : (bitsOf (bytes.take (4 * k))).length = 32 * k := by
    rw [length_bitsOf, List.length_take]
    omega
  have here : (bitsOf ((bytes.drop (4 * k)).take 4)).length = 32 := by
    rw [length_bitsOf, List.length_take, List.length_drop]
    omega
  rw [split, List.getD_append_right _ _ _ _ (by omega), before, Nat.add_sub_cancel_left,
    List.getD_append _ _ _ _ (by omega)]

/-- What a word contributes to a bit once it is shifted to its place. -/
theorem placed_bits {bytes : List UInt8} (word : bytes.length = 4) {k k' j : Nat} (first : k < 4)
    (second : k' < 4) (inside : j < 32) :
    (BitVec.ofNat 128 (ntohl bytes)).getMsbD (32 * k + j + (96 - 32 * k')) =
      if k = k' then (bitsOf bytes).getD j false else false := by
  rw [word_bits word]
  by_cases same : k = k'
  · subst same
    have place : 32 * k + j + (96 - 32 * k) - 96 = j := by omega
    rw [if_pos rfl, place, decide_eq_true (by omega), Bool.true_and]
  · rw [if_neg same]
    rcases Nat.lt_or_gt_of_ne same with less | more
    · rw [decide_eq_false (by omega), Bool.false_and]
    · rw [decide_eq_false (by omega), Bool.false_and]

theorem read6_bits {addr : Addr} (words : addr.sin6Addr.length = 16) {i : Nat} (inside : i < 128) :
    (read6 addr).getMsbD i = (bitsOf addr.sin6Addr).getD i false := by
  obtain ⟨k, j, rfl, first, small⟩ : ∃ k j, i = 32 * k + j ∧ k < 4 ∧ j < 32 :=
    ⟨i / 32, i % 32, by omega, by omega, by omega⟩
  have length {k : Nat} (first : k < 4) : ((addr.sin6Addr.drop (4 * k)).take 4).length = 4 := by
    rw [List.length_take, List.length_drop]
    omega
  have place (k' : Nat) (second : k' < 4) := placed_bits (length second) first second small
  have moved := (⟨place 0 (by omega), place 1 (by omega), place 2 (by omega), place 3 (by omega)⟩ :
    _ ∧ _ ∧ _ ∧ _)
  simp only [Nat.mul_zero, Nat.mul_one, Nat.sub_zero, Nat.reduceMul, Nat.reduceSub,
    Nat.add_zero] at moved
  obtain ⟨w0, w1, w2, w3⟩ := moved
  rw [getD_words _ (by omega) small]
  unfold read6
  simp only [shl, Nat.reduceLT, if_true, BitVec.getMsbD_or, BitVec.getMsbD_shiftLeft, Nat.add_assoc,
    Nat.reduceAdd, Nat.mul_zero, Nat.reduceMul] at w0 w1 w2 w3 ⊢
  rw [w0, w1, w2, w3]
  obtain rfl | rfl | rfl | rfl : k = 0 ∨ k = 1 ∨ k = 2 ∨ k = 3 := by omega
  all_goals simp

/-! ## Entries -/

section
variable {N : Nat} {read : Addr → BitVec N} {addr : Addr} {bits : List Bool}

theorem createQuery_bits (valid : addr.isValid = true) (width : bits.length = N)
    (bitwise : ∀ i < N, (read addr).getMsbD i = bits.getD i false) :
    createQuery read addr = some (ofBits N bits) := by
  rw [createQuery, if_pos valid]
  exact congrArg some (eq_ofBits (Nat.le_of_eq width) bitwise width.symm)

/-- The prefix length of an entry: without one it is the width. -/
def entryLength (N prefixLen : Nat) : Nat := if prefixLen = 0 then N else prefixLen

theorem create_bits (valid : addr.isValid = true) (width : bits.length = N)
    (fits : entryLength N addr.prefixLen ≤ N) (nonempty : 0 < N)
    (bitwise : ∀ i < N, (read addr).getMsbD i = bits.getD i false) :
    create read addr = some (ofBits N (bits.take (entryLength N addr.prefixLen))) := by
  have positive : 0 < entryLength N addr.prefixLen := by
    unfold entryLength
    split <;> omega
  unfold create
  rw [if_pos valid]
  show (if N < entryLength N addr.prefixLen then none else some
    (⟨read addr &&& shl (BitVec.allOnes N) (N - entryLength N addr.prefixLen),
      entryLength N addr.prefixLen⟩ : RadixNetworkEntry N)) = _
  generalize entryLength N addr.prefixLen = length at fits positive ⊢
  rw [if_neg (Nat.not_lt.mpr fits)]
  have taken : (bits.take length).length = length := by
    rw [List.length_take]
    omega
  refine congrArg some (eq_ofBits (by omega) (fun i inside => ?_) taken.symm)
  unfold shl
  rw [if_pos (by omega), BitVec.getMsbD_and, BitVec.getMsbD_shiftLeft, bitwise i inside,
    BitVec.getMsbD_allOnes]
  simp only [List.getD_eq_getElem?_getD, List.getElem?_take]
  by_cases before : i < length
  · rw [if_pos before, decide_eq_true (by omega), Bool.and_true]
  · rw [if_neg before, decide_eq_false (by omega), Bool.and_false]
    rfl

end

end NetifyAgent.RadixNetworks
