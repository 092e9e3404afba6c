import NetifyAgent.Radix

/-! Network entries as bit strings. An entry whose bits behind the prefix are
zero stands for the string of its prefix, and on such entries `radix_substr` and
`radix_join` cut and join strings, as long as they stay within the width; what
they read behind the prefix are zeros. -/
namespace NetifyAgent.RadixKeys

variable {N : Nat}

/-- The entry of a bit string. -/
def ofBits (N : Nat) (l : List Bool) : RadixNetworkEntry N :=
  ⟨(BitVec.ofBoolListBE l).setWidth N <<< (N - l.length), l.length⟩

/-- A bit string with zeros up to a width. -/
def padded (N : Nat) (l : List Bool) : List Bool := l ++ List.replicate (N - l.length) false

theorem getD_padded (l : List Bool) (i : Nat) : (padded N l).getD i false = l.getD i false := by
  unfold padded
  simp only [List.getD_eq_getElem?_getD]
  by_cases inside : i < l.length
  · rw [List.getElem?_append_left inside]
  · rw [List.getElem?_append_right (Nat.not_lt.mp inside), List.getElem?_replicate,
      List.getElem?_eq_none (Nat.not_lt.mp inside)]
    split <;> rfl

theorem length_padded {l : List Bool} (fits : l.length ≤ N) : (padded N l).length = N := by
  simp [padded, Nat.add_sub_cancel' fits]

theorem getMsbD_ofBits {l : List Bool} (fits : l.length ≤ N) (i : Nat) :
    (ofBits N l).addr.getMsbD i = l.getD i false := by
  unfold ofBits
  rw [BitVec.getMsbD_shiftLeft, BitVec.getMsbD_setWidth, BitVec.getMsbD_ofBoolListBE]
  have inside : N - l.length ≤ i + (N - l.length) := Nat.le_add_left _ _
  have back : i + (N - l.length) + l.length - N = i := by omega
  rw [decide_eq_true inside, Bool.true_and, back]

/-- An entry is the entry of a string if it has the string's bits and zeros
behind them. -/
theorem eq_ofBits {entry : RadixNetworkEntry N} {l : List Bool} (fits : l.length ≤ N)
    (bits : ∀ i < N, entry.addr.getMsbD i = l.getD i false) (length : entry.prefixLen = l.length) :
    entry = ofBits N l := by
  obtain ⟨addr, prefixLen⟩ := entry
  have same : addr = (ofBits N l).addr := by
    apply BitVec.eq_of_getMsbD_eq
    intro i inside
    rw [getMsbD_ofBits fits]
    exact bits i inside
  rw [same, show prefixLen = l.length from length]
  rfl

theorem ofBits_injective {l m : List Bool} (fits : l.length ≤ N)
    (same : ofBits N l = ofBits N m) : l = m := by
  have length : l.length = m.length := congrArg RadixNetworkEntry.prefixLen same
  apply List.ext_getElem length
  intro i inside inside'
  have bits := congrArg (fun entry => entry.addr.getMsbD i) same
  simp only [getMsbD_ofBits fits, getMsbD_ofBits (length ▸ fits)] at bits
  simpa [List.getD_eq_getElem?_getD, inside, inside'] using bits

theorem nul_eq : (nul : RadixNetworkEntry N) = ofBits N [] := by
  apply eq_ofBits (Nat.zero_le N)
  · intro i _
    simp [nul]
  · rfl

theorem ofBits_ne_nul (b : Bool) (l : List Bool) : ofBits N (b :: l) ≠ nul := by
  intro same
  have length := congrArg RadixNetworkEntry.prefixLen same
  simp [ofBits, nul] at length

/-! ## Lengths and bits -/

theorem radixLength_of (entry : RadixNetworkEntry N) (small : entry.prefixLen < 2 ^ 31) :
    radixLength entry = entry.prefixLen := by
  unfold radixLength
  apply Int.bmod_eq_of_le <;> omega

@[simp] theorem sizeOfInt_natCast {n : Nat} (small : n < 2 ^ 64) : sizeOfInt n = n := by
  unfold sizeOfInt
  omega

theorem radixLength_ofBits {l : List Bool} (small : l.length < 2 ^ 31) :
    radixLength (ofBits N l) = l.length := radixLength_of _ small

theorem bit_ofBits {l : List Bool} (fits : l.length ≤ N) (n : Nat) :
    (ofBits N l).bit n = l.getD n false := getMsbD_ofBits fits n

/-! ## Masks -/

theorem getLsbD_setBit (x : BitVec N) (b : Bool) {i : Nat} (inside : i < N) (j : Nat) :
    (setBit x i b).getLsbD j = if j = i then b else x.getLsbD j := by
  unfold setBit
  split <;> rename_i on
  · rw [BitVec.getLsbD_or, BitVec.getLsbD_twoPow]
    by_cases here : j = i
    · simp [here, inside, on]
    · simp [here, Ne.symm here]
  · rw [BitVec.getLsbD_and, BitVec.getLsbD_not, BitVec.getLsbD_twoPow]
    by_cases here : j = i
    · simp [here, inside, on]
    · by_cases past : j < N
      · simp [here, Ne.symm here, past]
      · simp [here, past, BitVec.getLsbD_of_ge x j (Nat.not_lt.mp past)]

theorem getLsbD_one {i : Nat} (inside : i < N) : (1 : BitVec N).getLsbD i = decide (i = 0) := by
  show (BitVec.ofNat N 1).getLsbD i = _
  simp [inside]

/-- One step of the subtraction of one, below and behind the bit that is set: the
borrow runs up to that bit. -/
theorem minusStep_one {n k : Nat} {s : Bool × BitVec N} (inside : k < N)
    (borrow : s.1 = decide (0 < k ∧ k ≤ n)) (bit : s.2.getLsbD k = decide (k = n)) :
    minusStep 1 s k = (decide (k < n), setBit s.2 k (decide (k < n))) := by
  unfold minusStep
  rw [borrow, bit, getLsbD_one inside]
  rcases Nat.lt_trichotomy k n with below | rfl | past
  · have apart : k ≠ n := Nat.ne_of_lt below
    by_cases first : k = 0
    · simp [first, first ▸ below, first ▸ apart]
    · simp [first, below, apart, Nat.pos_of_ne_zero first, Nat.le_of_lt below]
  · by_cases first : k = 0
    · simp [first]
    · simp [first, Nat.pos_of_ne_zero first]
  · have apart : k ≠ n := Nat.ne_of_gt past
    have later : k ≠ 0 := Nat.ne_zero_of_lt past
    simp [apart, later, Nat.not_le.mpr past, Nat.not_lt.mpr (Nat.le_of_lt past)]

/-- One less than a power of two is that many ones. -/
theorem minusEq_one {x : BitVec N} {n : Nat} (power : ∀ i < N, x.getLsbD i = decide (i = n))
    (i : Nat) : (minusEq x 1).getLsbD i = (decide (i < N) && decide (i < n)) := by
  have steps (k : Nat) (fits : k ≤ N) :
      ((List.range k).foldl (minusStep 1) (false, x)).1 = decide (0 < k ∧ k ≤ n) ∧
      ∀ j < N, ((List.range k).foldl (minusStep 1) (false, x)).2.getLsbD j =
        if j < k then decide (j < n) else decide (j = n) := by
    induction k with
    | zero => exact ⟨by simp, by simpa using power⟩
    | succ k ih =>
      obtain ⟨borrow, bits⟩ := ih (Nat.le_of_succ_le fits)
      rw [List.range_succ, List.foldl_append, List.foldl_cons, List.foldl_nil]
      have here := bits k fits
      rw [if_neg (Nat.lt_irrefl k)] at here
      rw [minusStep_one fits borrow here]
      refine ⟨decide_eq_decide.mpr (by omega), fun j inside => ?_⟩
      rw [getLsbD_setBit _ _ fits, bits j inside]
      by_cases same : j = k
      · rw [if_pos same, if_pos (same ▸ Nat.lt_succ_self k), same]
      · rw [if_neg same]
        by_cases before : j < k
        · rw [if_pos before, if_pos (Nat.lt_succ_of_lt before)]
        · rw [if_neg before, if_neg (by omega)]
  by_cases inside : i < N
  · have done := (steps N (Nat.le_refl N)).2 i inside
    rw [if_pos inside] at done
    rw [decide_eq_true inside, Bool.true_and]
    exact done
  · rw [BitVec.getLsbD_of_ge _ i (Nat.not_lt.mp inside), decide_eq_false inside, Bool.false_and]

/-- The power of two that `radix_substr` starts from; it leaves the width for the
whole of it. -/
theorem getLsbD_power {length : Nat} (fits : length ≤ N) {i : Nat} (inside : i < N) :
    (if (length : Int) = N then 0 else shl 1 length : BitVec N).getLsbD i =
      decide (i = length) := by
  split
  · rename_i whole
    have apart : i ≠ length := by omega
    simp [apart]
  · rename_i less
    have short : length < N := by omega
    unfold shl
    rw [if_pos short, BitVec.getLsbD_shiftLeft, getLsbD_one (by omega), decide_eq_true inside,
      Bool.true_and]
    by_cases before : i < length
    · simp [before, Nat.ne_of_lt before]
    · simp only [before, decide_false, Bool.not_false, Bool.true_and, decide_eq_decide]
      omega

/-- The mask of `radix_substr`: the bits from an offset on. -/
theorem getMsbD_mask {offset length : Nat} (fits : offset + length ≤ N) {i : Nat} (inside : i < N) :
    (shl (minusEq (if (length : Int) = N then 0 else shl 1 length : BitVec N) 1)
      (N - length - offset)).getMsbD i = decide (offset ≤ i ∧ i < offset + length) := by
  have ones := minusEq_one (N := N) fun i inside =>
    getLsbD_power (Nat.le_trans (Nat.le_add_left _ _) fits) inside
  generalize minusEq _ 1 = mask at ones ⊢
  rw [BitVec.getMsbD_eq_getLsbD, decide_eq_true inside, Bool.true_and, Bool.eq_iff_iff]
  unfold shl
  split
  · rw [BitVec.getLsbD_shiftLeft, ones]
    simp only [Bool.and_eq_true, decide_eq_true_eq, Bool.not_eq_true', decide_eq_false_iff_not]
    omega
  · simp only [BitVec.ofNat_eq_ofNat, BitVec.getLsbD_zero, Bool.false_eq_true, decide_eq_true_eq,
      false_iff]
    omega

/-- **Cutting.** Within the width `radix_substr` cuts a string, and reads zeros
behind it. -/
theorem radixSubstr_ofBits {l : List Bool} {offset length : Nat} (small : N < 2 ^ 31)
    (fits : l.length ≤ N) (within : offset + length ≤ N) :
    radixSubstr (ofBits N l) offset length =
      ofBits N (((padded N l).drop offset).take length) := by
  have width : (((padded N l).drop offset).take length).length = length := by
    rw [List.length_take, List.length_drop, length_padded fits]
    omega
  apply eq_ofBits
  · rw [width]
    omega
  · intro i inside
    unfold radixSubstr
    have shift : sizeOfInt ((N : Int) - length - offset) = N - length - offset := by
      unfold sizeOfInt
      omega
    simp only [sizeOfInt_natCast (by omega : length < 2 ^ 64),
      sizeOfInt_natCast (by omega : offset < 2 ^ 64), shift]
    have cut : (((padded N l).drop offset).take length).getD i false =
        (decide (i < length) && l.getD (i + offset) false) := by
      rw [← getD_padded (N := N) l, List.getD_eq_getElem?_getD, List.getD_eq_getElem?_getD,
        List.getElem?_take, List.getElem?_drop, Nat.add_comm offset]
      split <;> simp_all
    rw [cut]
    have mask := getMsbD_mask within (i := i + offset)
    generalize shl (minusEq _ 1) _ = bits at mask ⊢
    unfold shl
    split
    · rw [BitVec.getMsbD_shiftLeft, BitVec.getMsbD_and, getMsbD_ofBits fits]
      by_cases past : i + offset < N
      · rw [mask past, Bool.and_comm]
        congr 1
        rw [decide_eq_decide]
        omega
      · have behind : l.getD (i + offset) false = false := by
          rw [List.getD_eq_getElem?_getD, List.getElem?_eq_none (by omega)]
          rfl
        rw [behind, Bool.false_and, Bool.and_false]
    · have empty : ¬ i < length := by omega
      simp [empty]
  · rw [width]
    exact sizeOfInt_natCast (by omega)

/-- Inside its own bits an entry is cut like its string. -/
theorem radixSubstr_inside {l : List Bool} (offset length : Nat) (small : N < 2 ^ 31)
    (fits : l.length ≤ N) (inside : offset + length ≤ l.length) :
    radixSubstr (ofBits N l) offset length = ofBits N ((l.drop offset).take length) := by
  rw [radixSubstr_ofBits small fits (Nat.le_trans inside fits), padded,
    List.drop_append_of_le_length (by omega), List.take_append_of_le_length]
  rw [List.length_drop]
  omega

/-- **Joining.** -/
theorem radixJoin_ofBits {l m : List Bool} (small : N < 2 ^ 31) (fits : (l ++ m).length ≤ N) :
    radixJoin (ofBits N l) (ofBits N m) = ofBits N (l ++ m) := by
  have lengths : l.length + m.length ≤ N := List.length_append ▸ fits
  apply eq_ofBits fits
  · intro i inside
    unfold radixJoin
    simp only
    rw [BitVec.getMsbD_or, getMsbD_ofBits (by omega)]
    show (_ || (shr (ofBits N m).addr l.length).getMsbD i) = _
    unfold shr
    simp only [List.getD_eq_getElem?_getD]
    split
    · rw [BitVec.getMsbD_ushiftRight, getMsbD_ofBits (by omega), decide_eq_true inside,
        Bool.true_and, List.getD_eq_getElem?_getD]
      by_cases before : i < l.length
      · rw [List.getElem?_append_left before]
        simp [before]
      · rw [List.getElem?_append_right (Nat.not_lt.mp before),
          List.getElem?_eq_none (Nat.not_lt.mp before)]
        simp [before]
    · have all : i < l.length := by omega
      rw [List.getElem?_append_left all]
      simp
  · show (l.length + m.length) % 2 ^ 64 = _
    rw [List.length_append]
    omega

/-- Entries that begin with a zero come before those that begin with a one. -/
theorem less_of_bits {l m : List Bool} (fits : l.length < N) (fits' : m.length < N) :
    (ofBits N (false :: l)).less (ofBits N (true :: m)) = true ∧
      (ofBits N (true :: m)).less (ofBits N (false :: l)) = false := by
  have low : (ofBits N (false :: l)).addr.msb = false := by
    rw [BitVec.msb_eq_getMsbD_zero, getMsbD_ofBits (Nat.succ_le_of_lt fits)]
    rfl
  have high : (ofBits N (true :: m)).addr.msb = true := by
    rw [BitVec.msb_eq_getMsbD_zero, getMsbD_ofBits (Nat.succ_le_of_lt fits')]
    rfl
  have less := BitVec.lt_of_msb_false_of_msb_true low high
  have apart : (ofBits N (false :: l)).addr ≠ (ofBits N (true :: m)).addr := by
    intro same
    rw [same, high] at low
    cases low
  unfold RadixNetworkEntry.less
  rw [if_neg apart, if_neg (Ne.symm apart)]
  exact ⟨decide_eq_true less, decide_eq_false (BitVec.lt_asymm less)⟩

theorem less_irrefl (entry : RadixNetworkEntry N) : entry.less entry = false := by
  unfold RadixNetworkEntry.less
  simp

end NetifyAgent.RadixKeys
