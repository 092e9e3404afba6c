import NetifyAgent.NetworkTexts

/-! Entries that are printed and read again. `Create` shifts the words of an IPv6 address in
behind what the entry held before, and clears the bits behind the prefix in either family; what
it leaves is an entry of the bits of its prefix, and the text that is printed of one names it. -/
namespace NetifyAgent.EntryTexts
open RadixNetworks RadixKeys RadixNetworkEntry NetworkTexts ApplicationNetworks

variable {N : Nat}

/-! ## `Create` into an entry -/

/-- `bitset::flip` of one bit. -/
def flip (x : BitVec N) (i : Nat) : BitVec N := setBit x i !(x.getLsbD i)

/-- `mask`. -/
def prefixMask (N prefixLen : Nat) : BitVec N :=
  let shift := N - prefixLen
  if shift < N then (List.range shift).foldl flip (BitVec.allOnes N) else 0

/-- `ndRadixNetworkEntry::Create` and whether it succeeds, given how the address of this width
is read into the bits of the entry. -/
def createInto (read : BitVec N → Addr → BitVec N) (entry : RadixNetworkEntry N) (addr : Addr) :
    RadixNetworkEntry N × Bool :=
  if ¬ addr.isValid then (entry, false)
  else
    let prefixLen := if addr.prefixLen = 0 then N else addr.prefixLen
    if N < prefixLen then ({ entry with prefixLen }, false)
    else (⟨read entry.addr addr &&& prefixMask N prefixLen, prefixLen⟩, true)

/-- The case of `AF_INET`, which assigns the bits. -/
def read4Into (_ : BitVec 32) (addr : Addr) : BitVec 32 := read4 addr

/-- The case of `AF_INET6`, which shifts the words in. -/
def read6Into (bits : BitVec 128) (addr : Addr) : BitVec 128 :=
  let word (k : Nat) := BitVec.ofNat 128 (ntohl ((addr.sin6Addr.drop (4 * k)).take 4))
  shl (shl (shl (bits ||| word 0) 32 ||| word 1) 32 ||| word 2) 32 ||| word 3

/-- Flipping the lowest bits of all ones clears them. -/
theorem getLsbD_flipped {shift : Nat} (fits : shift ≤ N) : ∀ j,
    ((List.range shift).foldl flip (BitVec.allOnes N)).getLsbD j =
      (decide (j < N) && decide (shift ≤ j)) := by
  induction shift with
  | zero => simp
  | succ shift ih =>
    have before := ih (Nat.le_of_succ_le fits)
    intro j
    rw [List.range_succ, List.foldl_append, List.foldl_cons, List.foldl_nil, flip,
      getLsbD_setBit _ _ fits]
    by_cases here : j = shift
    · have set : ((List.range shift).foldl flip (BitVec.allOnes N)).getLsbD shift = true := by
        rw [before shift]
        simp [Nat.lt_of_succ_le fits]
      simp [here, set]
    · rw [if_neg here, before j]
      congr 1
      rw [decide_eq_decide]
      omega

theorem prefixMask_eq (N prefixLen : Nat) :
    prefixMask N prefixLen = shl (BitVec.allOnes N) (N - prefixLen) := by
  unfold prefixMask shl
  simp only
  split
  · apply BitVec.eq_of_getLsbD_eq
    intro j inside
    rw [getLsbD_flipped (Nat.sub_le _ _), BitVec.getLsbD_shiftLeft, BitVec.getLsbD_allOnes]
    by_cases below : j < N - prefixLen
    · simp [below, Nat.not_le.mpr below]
    · have rest : j - (N - prefixLen) < N := by omega
      simp [below, rest, Nat.not_lt.mp below]
  · rfl

/-- What `Create` leaves where it succeeds. -/
theorem createInto_eq_true {read : BitVec N → Addr → BitVec N} {entry e : RadixNetworkEntry N}
    {addr : Addr} :
    createInto read entry addr = (e, true) ↔ create (read entry.addr) addr = some e := by
  unfold createInto create
  simp only [prefixMask_eq]
  by_cases valid : addr.isValid = true
  · simp only [valid, not_true_eq_false, if_false, if_true]
    generalize (if addr.prefixLen = 0 then N else addr.prefixLen) = length
    by_cases long : N < length
    · simp [long]
    · simp [long]
  · simp [valid]

/-- An entry that `Create` has made is one of the bits of its prefix. -/
theorem ofBits_of_create {read : Addr → BitVec N} {e : RadixNetworkEntry N} {addr : Addr}
    (positive : 0 < N) (created : create read addr = some e) :
    ∃ key, key ≠ [] ∧ key.length ≤ N ∧ e = ofBits N key := by
  have valid : addr.isValid = true := by
    by_contra invalid
    rw [create, if_neg invalid] at created
    cases created
  have fits : entryLength N addr.prefixLen ≤ N := by
    by_contra long
    have wide : N < if addr.prefixLen = 0 then N else addr.prefixLen := Nat.lt_of_not_le long
    rw [create, if_pos valid] at created
    simp only [if_pos wide] at created
    cases created
  have some : 0 < entryLength N addr.prefixLen := by
    unfold entryLength
    split <;> omega
  have width : ((List.range N).map (read addr).getMsbD).length = N := by simp
  have made := @create_bits _ read _ _ valid width fits positive fun i inside => by
    rw [List.getD_eq_getElem _ _ (by simpa using inside)]
    simp
  have length : (((List.range N).map (read addr).getMsbD).take
      (entryLength N addr.prefixLen)).length = entryLength N addr.prefixLen := by
    rw [List.length_take, width]
    omega
  rw [made] at created
  refine ⟨_, ?_, length.trans_le fits, (Option.some.inj created).symm⟩
  rw [← List.length_pos_iff, length]
  exact some

/-! ## Printing and reading -/

/-- A fresh entry holds no bits. -/
theorem read6Into_fresh (addr : Addr) : read6Into 0 addr = read6 addr := by
  unfold read6Into read6
  simp

/-- **Printing and reading.** An entry that `Create` has made of a valid address, into whatever
entry, is made again of the address that its text stands for. -/
theorem printed_read {ntop : Ntop} {pton : Pton} (inverse : Inverse ntop pton) :
    (∀ entry addr e, createInto read4Into entry addr = (e, true) →
      ∃ ip, getString4 ntop e = some ip ∧
        createInto read4Into {} (Addr.ofText pton ip) = (e, true)) ∧
    ∀ entry addr e, createInto read6Into entry addr = (e, true) →
      ∃ ip, getString6 ntop e = some ip ∧
        createInto read6Into {} (Addr.ofText pton ip) = (e, true) := by
  constructor
  · intro entry addr e created
    obtain ⟨key, nonempty, fits, rfl⟩ :=
      ofBits_of_create (by decide) (createInto_eq_true.mp created)
    obtain ⟨ip, printed, -, names⟩ := getString4_names inverse nonempty fits
    exact ⟨ip, printed, createInto_eq_true.mpr ((stands_names names).inet rfl).2.2⟩
  · intro entry addr e created
    obtain ⟨key, nonempty, fits, rfl⟩ :=
      ofBits_of_create (by decide) (createInto_eq_true.mp created)
    obtain ⟨ip, printed, -, names⟩ := getString6_names inverse nonempty fits
    have fresh : read6Into ({} : RadixNetworkEntry 128).addr = read6 := funext read6Into_fresh
    refine ⟨ip, printed, createInto_eq_true.mpr ?_⟩
    rw [fresh]
    exact ((stands_names names).inet6 rfl).2.2

/-- 10.1.2.3/8, and 2001:db8::1/32 into an entry that was used before. -/
theorem printed_read_networks :
    (∃ ip, getString4 plainNtop ⟨0x0a000000, 8⟩ = some ip ∧
      createInto read4Into {} (Addr.ofText plainPton ip) = (⟨0x0a000000, 8⟩, true)) ∧
    ∃ ip, getString6 plainNtop ⟨0x20010dff000000000000000000000000, 32⟩ = some ip ∧
      createInto read6Into {} (Addr.ofText plainPton ip) =
        (⟨0x20010dff000000000000000000000000, 32⟩, true) := by
  have four : createInto read4Into {}
      { family := .inet, sinAddr := [10, 1, 2, 3], prefixLen := 8 } = (⟨0x0a000000, 8⟩, true) := by
    decide +kernel
  have six : createInto read6Into ⟨0xff, 128⟩
      { family := .inet6
        sin6Addr := [0x20, 1, 0xd, 0xb8, 0, 0, 0, 0, 0, 0, 0, 0, 0, 0, 0, 1]
        prefixLen := 32 } = (⟨0x20010dff000000000000000000000000, 32⟩, true) := by
    decide +kernel
  exact ⟨(printed_read inverse_plain).1 _ _ _ four, (printed_read inverse_plain).2 _ _ _ six⟩

end NetifyAgent.EntryTexts
