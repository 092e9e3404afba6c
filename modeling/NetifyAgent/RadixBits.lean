import Mathlib.Data.Prod.Lex
import Mathlib.Tactic.LinearCombination
import NetifyAgent.RadixKeys

/-! The bit strings of the radix tree. An entry of any bits is cut and joined by its masks,
which a subtraction bit by bit makes; that subtraction is the one of numbers, and the comparison
bit by bit is the one of numbers, so that entries are in the lexicographic order of their bits
and their prefix lengths. -/
namespace NetifyAgent.RadixBits
open NetifyAgent.RadixKeys RadixNetworkEntry

variable {N : Nat}

/-! ## Comparing -/

/-- The rounds of `operator<` of bit sets, from the bit below this one on. -/
def bitsetLessFrom (x y : BitVec N) : Nat → Bool
  | 0 => false
  | i + 1 =>
    if x.getLsbD i ^^ y.getLsbD i then y.getLsbD i else bitsetLessFrom x y i

/-- `operator<` of bit sets. -/
def bitsetLess (x y : BitVec N) : Bool := bitsetLessFrom x y N

/-- `operator<` of entries. -/
def entryLess (x y : RadixNetworkEntry N) : Bool :=
  if x.addr = y.addr then x.prefixLen < y.prefixLen else bitsetLess x.addr y.addr

/-- `operator==` of entries. -/
def entryEqual (x y : RadixNetworkEntry N) : Bool :=
  x.prefixLen == y.prefixLen && x.addr == y.addr

/-- The bits below one, and that one. -/
theorem low_succ (x : BitVec N) (k : Nat) :
    x.toNat % 2 ^ (k + 1) = x.toNat % 2 ^ k + 2 ^ k * (x.getLsbD k).toNat := by
  rw [Nat.mod_pow_succ, BitVec.getLsbD, Nat.toNat_testBit]

/-- The comparison is that of the bits that are left. -/
theorem bitsetLessFrom_eq (x y : BitVec N) (k : Nat) :
    bitsetLessFrom x y k = decide (x.toNat % 2 ^ k < y.toNat % 2 ^ k) := by
  induction k with
  | zero => simp [bitsetLessFrom, Nat.mod_one]
  | succ k ih =>
    have left := Nat.mod_lt x.toNat (Nat.two_pow_pos k)
    have right := Nat.mod_lt y.toNat (Nat.two_pow_pos k)
    unfold bitsetLessFrom
    rw [low_succ, low_succ, ih]
    cases x.getLsbD k <;> cases y.getLsbD k <;> simp <;> omega

theorem bitsetLess_eq (x y : BitVec N) : bitsetLess x y = decide (x < y) := by
  rw [bitsetLess, bitsetLessFrom_eq, Nat.mod_eq_of_lt x.isLt, Nat.mod_eq_of_lt y.isLt]
  rfl

/-- The order in which the tree keeps its children. -/
theorem entryLess_eq (x y : RadixNetworkEntry N) : entryLess x y = x.less y := by
  unfold entryLess less
  rw [bitsetLess_eq]

theorem entryEqual_iff {x y : RadixNetworkEntry N} : entryEqual x y = true ↔ x = y := by
  obtain ⟨addr, prefixLen⟩ := x
  obtain ⟨addr', prefixLen'⟩ := y
  simp [entryEqual, and_comm]

theorem entry_ext {x y : RadixNetworkEntry N} (bits : x.addr = y.addr)
    (length : x.prefixLen = y.prefixLen) : x = y := by
  cases x
  cases y
  cases bits
  cases length
  rfl

/-- An entry as a pair of numbers. -/
def rank (x : RadixNetworkEntry N) : ℕ ×ₗ ℕ := toLex (x.addr.toNat, x.prefixLen)

theorem rank_injective : Function.Injective (rank (N := N)) := by
  intro x y same
  obtain ⟨bits, length⟩ := Prod.mk.inj (toLex.injective same)
  exact entry_ext (BitVec.eq_of_toNat_eq bits) length

/-- Entries are in the lexicographic order of their bits and their prefix lengths. -/
theorem entryLess_iff {x y : RadixNetworkEntry N} : entryLess x y = true ↔ rank x < rank y := by
  rw [rank, rank, Prod.Lex.toLex_lt_toLex, entryLess, bitsetLess_eq]
  by_cases same : x.addr = y.addr
  · rw [if_pos same, same]
    simp
  · have apart : x.addr.toNat ≠ y.addr.toNat := mt BitVec.eq_of_toNat_eq same
    rw [if_neg same, decide_eq_true_eq, BitVec.lt_def]
    simp [apart]

/-! ## Subtracting -/

/-- The lowest bits are subtracted, the others are as they were. -/
structure Subtracted (x y : BitVec N) (k : Nat) (s : Bool × BitVec N) : Prop where
  low : s.2.toNat % 2 ^ k + y.toNat % 2 ^ k = x.toNat % 2 ^ k + 2 ^ k * s.1.toNat
  rest : ∀ j, k ≤ j → s.2.getLsbD j = x.getLsbD j

/-- One bit: the digit that is set and the borrow. -/
theorem minusStep_digit (y : BitVec N) (s : Bool × BitVec N) (k : Nat) :
    ∃ bit, (minusStep y s k).2 = setBit s.2 k bit ∧
      bit.toNat + (y.getLsbD k).toNat + s.1.toNat =
        (s.2.getLsbD k).toNat + 2 * (minusStep y s k).1.toNat := by
  unfold minusStep
  cases s.1 <;> cases s.2.getLsbD k <;> cases y.getLsbD k <;> simp

/-- A bit that is set leaves those below it alone. -/
theorem low_setBit (x : BitVec N) (b : Bool) {k : Nat} (inside : k < N) :
    (setBit x k b).toNat % 2 ^ k = x.toNat % 2 ^ k := by
  apply Nat.eq_of_testBit_eq
  intro j
  rw [Nat.testBit_mod_two_pow, Nat.testBit_mod_two_pow]
  by_cases below : j < k
  · have other := getLsbD_setBit x b inside j
    rw [if_neg (Nat.ne_of_lt below)] at other
    rw [BitVec.testBit_toNat, BitVec.testBit_toNat, other]
  · simp [below]

/-- **One round of the subtraction.** -/
theorem subtracted_step {x y : BitVec N} {k : Nat} {s : Bool × BitVec N} (inside : k < N)
    (before : Subtracted x y k s) : Subtracted x y (k + 1) (minusStep y s k) := by
  obtain ⟨bit, set, digit⟩ := minusStep_digit y s k
  have low := before.low
  have here := before.rest k (Nat.le_refl k)
  constructor
  · have place := congrArg (2 ^ k * ·) digit
    simp only [Nat.mul_add] at place
    have twice : 2 ^ (k + 1) * (minusStep y s k).1.toNat =
        2 ^ k * (2 * (minusStep y s k).1.toNat) := by
      rw [Nat.pow_succ, Nat.mul_assoc]
    have digitHere : (setBit s.2 k bit).getLsbD k = bit := by
      rw [getLsbD_setBit _ _ inside, if_pos rfl]
    rw [set, low_succ, low_setBit _ _ inside, digitHere, low_succ y, low_succ x, ← here, twice]
    omega
  · intro j behind
    rw [set, getLsbD_setBit _ _ inside, if_neg (Nat.ne_of_gt behind)]
    exact before.rest j (Nat.le_of_succ_le behind)

/-- **`operator-=`** is the subtraction of numbers. -/
theorem minusEq_eq (x y : BitVec N) : minusEq x y = x - y := by
  have rounds (k : Nat) (fits : k ≤ N) :
      Subtracted x y k ((List.range k).foldl (minusStep y) (false, x)) := by
    induction k with
    | zero => exact ⟨by simp [Nat.mod_one], fun _ _ => rfl⟩
    | succ k ih =>
      rw [List.range_succ, List.foldl_append, List.foldl_cons, List.foldl_nil]
      exact subtracted_step fits (ih (Nat.le_of_succ_le fits))
  have done := (rounds N (Nat.le_refl N)).low
  unfold minusEq
  generalize (List.range N).foldl (minusStep y) (false, x) = s at done ⊢
  have small := s.2.isLt
  have left := x.isLt
  have right := y.isLt
  rw [Nat.mod_eq_of_lt small, Nat.mod_eq_of_lt left, Nat.mod_eq_of_lt right] at done
  apply BitVec.eq_of_toNat_eq
  rw [BitVec.toNat_sub]
  cases borrow : s.1 with
  | false =>
    rw [borrow, Bool.toNat_false, Nat.mul_zero, Nat.add_zero] at done
    have whole : 2 ^ N - y.toNat + x.toNat = s.2.toNat + 2 ^ N := by omega
    rw [whole, Nat.add_mod_right, Nat.mod_eq_of_lt small]
  | true =>
    rw [borrow, Bool.toNat_true, Nat.mul_one] at done
    have less : 2 ^ N - y.toNat + x.toNat = s.2.toNat := by omega
    rw [less, Nat.mod_eq_of_lt small]

/-! ## Cutting and joining -/

/-- The bits that a cut leaves of any entry. -/
theorem getMsbD_substr (e : RadixNetworkEntry N) {offset length : Nat} (small : N < 2 ^ 31)
    (fits : offset + length ≤ N) {k : Nat} (inside : k < N) :
    (radixSubstr e offset length).addr.getMsbD k =
      (decide (k < length) && e.addr.getMsbD (k + offset)) := by
  have shift : sizeOfInt ((N : Int) - length - offset) = N - length - offset := by
    unfold sizeOfInt
    omega
  unfold radixSubstr
  simp only [sizeOfInt_natCast (by omega : length < 2 ^ 64),
    sizeOfInt_natCast (by omega : offset < 2 ^ 64), shift]
  have mask := fun (i : Nat) (within : i < N) => getMsbD_mask fits within
  generalize shl (minusEq _ 1) _ = bits at mask ⊢
  unfold shl
  split
  · rw [BitVec.getMsbD_shiftLeft, BitVec.getMsbD_and]
    by_cases past : k + offset < N
    · rw [mask _ past, Bool.and_comm]
      congr 1
      rw [decide_eq_decide]
      omega
    · have behind : e.addr.getMsbD (k + offset) = false := by
        rw [BitVec.getMsbD_eq_getLsbD, decide_eq_false past, Bool.false_and]
      rw [behind, Bool.false_and, Bool.and_false]
  · have empty : ¬ k < length := by omega
    simp [empty]

theorem prefixLen_substr (e : RadixNetworkEntry N) (offset : Int) {length : Nat}
    (small : length < 2 ^ 64) : (radixSubstr e offset length).prefixLen = length :=
  sizeOfInt_natCast small

/-- Two halves of a prefix are joined to the whole of it. -/
theorem radixJoin_substr (e : RadixNetworkEntry N) {i n : Nat} (small : N < 2 ^ 31)
    (before : i ≤ n) (fits : n ≤ N) :
    radixJoin (radixSubstr e 0 i) (radixSubstr e i (n - i : Nat)) = radixSubstr e 0 n := by
  have first := prefixLen_substr e 0 (by omega : i < 2 ^ 64)
  have second := prefixLen_substr e i (by omega : n - i < 2 ^ 64)
  have whole := prefixLen_substr e 0 (by omega : n < 2 ^ 64)
  have bits : (radixJoin (radixSubstr e 0 i) (radixSubstr e i (n - i : Nat))).addr =
      (radixSubstr e 0 n).addr := by
    apply BitVec.eq_of_getMsbD_eq
    intro k inside
    have cut := fun (length : Nat) (within : 0 + length ≤ N) =>
      getMsbD_substr e small within inside
    simp only [Int.natCast_zero, Nat.add_zero] at cut
    show ((radixSubstr e 0 i).addr ||| shr _ (radixSubstr e 0 i).prefixLen).getMsbD k = _
    rw [BitVec.getMsbD_or, cut i (by omega), cut n (by omega), first, shr]
    split
    · rw [BitVec.getMsbD_ushiftRight]
      by_cases past : k < i
      · have here : k < n := by omega
        simp [past, here]
      · have place : k - i + i = k := by omega
        rw [getMsbD_substr e small (by omega) (by omega), place]
        have same : decide (k - i < n - i) = decide (k < n) := by
          rw [decide_eq_decide]
          omega
        simp [past, inside, same]
    · have here : k < i ∧ k < n := by omega
      simp [here]
  have lengths : (radixJoin (radixSubstr e 0 i) (radixSubstr e i (n - i : Nat))).prefixLen =
      (radixSubstr e 0 n).prefixLen := by
    show ((radixSubstr e 0 i).prefixLen + (radixSubstr e i (n - i : Nat)).prefixLen) % 2 ^ 64 = _
    rw [first, second, whole]
    omega
  exact entry_ext bits lengths

/-! ## The law -/

/-- What the tree rests on. An entry that `Create` has made is not longer than the width. -/
structure BitStrings (N : Nat) : Prop where
  length : ∀ (e : RadixNetworkEntry N) (i n : Nat), e.prefixLen ≤ N → i ≤ n → n ≤ e.prefixLen →
    (radixSubstr e i (n - i : Nat)).prefixLen = n - i
  bit : ∀ (e : RadixNetworkEntry N) (i n k : Nat), e.prefixLen ≤ N → i ≤ n → n ≤ e.prefixLen →
    k < n - i → (radixSubstr e i (n - i : Nat)).bit k = e.bit (i + k : Nat)
  zero : ∀ (e : RadixNetworkEntry N) (i n k : Nat), e.prefixLen ≤ N → i ≤ n → n ≤ e.prefixLen →
    n - i ≤ k → k < N → (radixSubstr e i (n - i : Nat)).bit k = false
  join : ∀ (e : RadixNetworkEntry N) (i n : Nat), e.prefixLen ≤ N → i ≤ n → n ≤ e.prefixLen →
    radixJoin (radixSubstr e 0 i) (radixSubstr e i (n - i : Nat)) = radixSubstr e 0 n
  minus : ∀ (x : BitVec N) (y : Nat),
    ((minusEq x (BitVec.ofNat N y)).toNat : Int) = ((x.toNat : Int) - y) % 2 ^ N
  irrefl : ∀ x : RadixNetworkEntry N, entryLess x x = false
  trans : ∀ x y z : RadixNetworkEntry N,
    entryLess x y = true → entryLess y z = true → entryLess x z = true
  equal : ∀ x y : RadixNetworkEntry N,
    entryLess x y = false ∧ entryLess y x = false ↔ entryEqual x y = true

theorem bitStrings_of_small (small : N < 2 ^ 31) : BitStrings N where
  length e i n fits before within := prefixLen_substr e i (by omega)
  bit e i n k fits before within inside := by
    unfold RadixNetworkEntry.bit
    rw [Int.toNat_natCast, Int.toNat_natCast, getMsbD_substr e small (by omega) (by omega),
      decide_eq_true inside, Bool.true_and, Nat.add_comm k]
  zero e i n k fits before within past inside := by
    unfold RadixNetworkEntry.bit
    rw [Int.toNat_natCast, getMsbD_substr e small (by omega) inside,
      decide_eq_false (Nat.not_lt.mpr past), Bool.false_and]
  join e i n fits before within := radixJoin_substr e small before (by omega)
  minus x y := by
    have width : 0 < 2 ^ N := Nat.two_pow_pos N
    rw [minusEq_eq, BitVec.toNat_sub, BitVec.toNat_ofNat]
    have below := Nat.mod_lt y width
    push_cast [Nat.le_of_lt below]
    have same : ((2 : Int) ^ N - (y : Int) % 2 ^ N + x.toNat) =
        ((x.toNat : Int) - y) + 2 ^ N * ((y : Int) / 2 ^ N + 1) := by
      have split := Int.emod_add_mul_ediv (y : Int) (2 ^ N)
      linear_combination -split
    rw [same, Int.add_mul_emod_self_left]
  irrefl x := by
    rw [entryLess_eq]
    exact less_irrefl x
  trans x y z first second :=
    entryLess_iff.mpr ((entryLess_iff.mp first).trans (entryLess_iff.mp second))
  equal x y := by
    rw [← Bool.not_eq_true, ← Bool.not_eq_true, entryLess_iff, entryLess_iff, entryEqual_iff,
      not_lt, not_lt]
    constructor
    · rintro ⟨above, below⟩
      exact rank_injective (le_antisymm below above)
    · rintro rfl
      exact ⟨le_rfl, le_rfl⟩

/-- The adapters of both widths. -/
theorem bitStrings : BitStrings 32 ∧ BitStrings 128 :=
  ⟨bitStrings_of_small (by decide), bitStrings_of_small (by decide)⟩

end NetifyAgent.RadixBits
