import NetifyAgent.Lib.Rewind
import NetifyAgent.RadixInsert

/-! Every radix tree that is made by `assign` keeps a trie whose edges may go back. A
network that ends in front of an edge that its search passes is hung below the node at
the other end, by a child whose key has no bits and a negative length. -/
namespace NetifyAgent

/-- The leaves from `begin` to `end`: each node's children in the order of their keys. -/
def RadixChildren.values {N : Nat} {T : Type} :
    RadixChildren N T → List (RadixNetworkEntry N × T)
  | nil => []
  | leaf value rest => value :: rest.values
  | inner _ _ children rest => children.values ++ rest.values

/-- What an iterator visits. -/
def RadixTree.values {N : Nat} {T : Type} (tree : RadixTree N T) :
    List (RadixNetworkEntry N × T) :=
  match tree.root with
  | none => []
  | some root => root.children.values

namespace RadixRewinds
open NetifyAgent.RadixKeys NetifyAgent.RadixInsert
open RadixTrie (leafOf)
open Rewind RadixNode RadixTree

variable {N : Nat} {T : Type}

/-! ## Children on two sides -/

/-- A child by its key and its children. -/
abbrev Child (N : Nat) (T : Type) := RadixNetworkEntry N × RadixChildren N T

/-- The child on one side, in front of the children behind it. -/
def slot (path : List Bool) : Option (Child N T) → RadixChildren N T → RadixChildren N T
  | none, rest => rest
  | some (key, children), rest => .inner key path.length children rest

/-- The children of a node: its leaf and a child on each side. -/
def slots (path : List Bool) (value : Option T) (zero one : Option (Child N T)) :
    RadixChildren N T :=
  leafOf path value (slot path zero (slot path one .nil))

/-- A child that may stand on the side of a bit. -/
def OnSide (bit : Bool) (child : Option (Child N T)) : Prop :=
  ∀ key children, child = some (key, children) → key.addr.msb = bit ∧ key ≠ nul

section
variable {path : List Bool} {value : Option T} {zero one : Option (Child N T)}

theorem slot_some (path : List Bool) (child : Child N T) (rest : RadixChildren N T) :
    slot path (some child) rest = .inner child.1 path.length child.2 rest := rfl

theorem onSide_some {bit : Bool} {key : RadixNetworkEntry N} (start : key.addr.msb = bit)
    (inner : key ≠ nul) (children : RadixChildren N T) : OnSide bit (some (key, children)) := by
  intro key' children' same
  obtain ⟨rfl, -⟩ := Prod.mk.inj (Option.some.inj same)
  exact ⟨start, inner⟩

theorem less_of_msb {x y : RadixNetworkEntry N} (low : x.addr.msb = false)
    (high : y.addr.msb = true) : x.less y = true ∧ y.less x = false := by
  have less := BitVec.lt_of_msb_false_of_msb_true low high
  have apart : x.addr ≠ y.addr := by
    intro same
    rw [same, high] at low
    cases low
  unfold RadixNetworkEntry.less
  rw [if_neg apart, if_neg (Ne.symm apart)]
  exact ⟨decide_eq_true less, decide_eq_false (BitVec.lt_asymm less)⟩

/-- A child takes the place on the side of its first bit, which is free or has its
key. -/
theorem put_slots (bit : Bool) {key : RadixNetworkEntry N} (children : RadixChildren N T)
    (start : key.addr.msb = bit) (inner : key ≠ nul) (zeroSide : OnSide false zero)
    (oneSide : OnSide true one)
    (place : ∀ key' children', (if bit then one else zero) = some (key', children') → key' = key) :
    (slots path value zero one).put ⟨key, path.length, children⟩ =
      slots path value (if bit then zero else some (key, children))
        (if bit then some (key, children) else one) := by
  have sides : (slot path zero (slot path one .nil)).put ⟨key, path.length, children⟩ =
      slot path (if bit then zero else some (key, children))
        (slot path (if bit then some (key, children) else one) .nil) := by
    cases bit with
    | false =>
      cases zero with
      | some child =>
        obtain ⟨key', children'⟩ := child
        obtain rfl := place key' children' rfl
        simp [slot, RadixChildren.put, less_irrefl]
      | none =>
        cases one with
        | none => rfl
        | some child =>
          have first := (less_of_msb start (oneSide _ _ rfl).1).1
          simp [slot, RadixChildren.put, first]
    | true =>
      have behind : (slot path one .nil).put ⟨key, path.length, children⟩ =
          slot path (some (key, children)) .nil := by
        cases one with
        | none => rfl
        | some child =>
          obtain ⟨key', children'⟩ := child
          obtain rfl := place key' children' rfl
          simp [slot, RadixChildren.put, less_irrefl]
      cases zero with
      | none => exact behind
      | some child =>
        have second := less_of_msb (zeroSide _ _ rfl).1 start
        rw [slot_some, RadixChildren.put]
        simp only [second, Bool.false_eq_true, if_false, if_true, behind]
        rfl
  cases value with
  | none =>
    refine sides.trans ?_
    cases bit <;> rfl
  | some v =>
    simp only [slots, leafOf, RadixChildren.put, if_neg inner, sides]

theorem remove_slots (bit : Bool) {key : RadixNetworkEntry N} (children : RadixChildren N T)
    (start : key.addr.msb = bit) (inner : key ≠ nul) (zeroSide : OnSide false zero)
    (oneSide : OnSide true one)
    (here : (if bit then one else zero) = some (key, children)) :
    (slots path value zero one).remove key =
      slots path value (if bit then zero else none) (if bit then none else one) := by
  have sides : (slot path zero (slot path one .nil)).remove key =
      slot path (if bit then zero else none) (slot path (if bit then none else one) .nil) := by
    cases bit with
    | false =>
      simp only [Bool.false_eq_true, if_false] at here
      subst here
      simp [slot, RadixChildren.remove]
    | true =>
      simp only [if_true] at here
      subst here
      cases zero with
      | none => simp [slot, RadixChildren.remove]
      | some child =>
        have apart : child.1 ≠ key := by
          intro same
          have low := (zeroSide _ _ rfl).1
          rw [same, start] at low
          cases low
        simp [slot, RadixChildren.remove, apart]
  cases value with
  | none =>
    refine sides.trans ?_
    cases bit <;> rfl
  | some v =>
    simp only [slots, leafOf, RadixChildren.remove, if_neg inner, sides]

theorem putLeaf_slots (zeroSide : OnSide false zero) (oneSide : OnSide true one) (v : T) :
    (slots path value zero one).putLeaf (ofBits N path, v) = slots path (some v) zero one := by
  cases value with
  | some w => rfl
  | none =>
    cases zero with
    | some child =>
      have inner := (zeroSide _ _ rfl).2
      simp [slots, slot, leafOf, RadixChildren.putLeaf, inner]
    | none =>
      cases one with
      | some child =>
        have inner := (oneSide _ _ rfl).2
        simp [slots, slot, leafOf, RadixChildren.putLeaf, inner]
      | none => rfl

/-- The search that ends at a node finds its leaf. -/
theorem find_slots_here {key : RadixNetworkEntry N} (self : RadixNode N T)
    (parents : List (RadixNode N T)) (ends : radixLength key - path.length = 0) :
    (slots path value zero one).findIn key path.length self parents =
      match value with
      | none => (.inner self, parents)
      | some v => (.leaf (ofBits N path, v), self :: parents) := by
  cases value with
  | some v => simp [slots, leafOf, RadixChildren.findIn, ends]
  | none => cases zero <;> cases one <;> simp [slots, slot, leafOf, RadixChildren.findIn, ends]

/-- The search that does not end at a node goes to the child on the side of the
next bit. -/
theorem find_slots {key : RadixNetworkEntry N} (self : RadixNode N T)
    (parents : List (RadixNode N T)) (goes : radixLength key - path.length ≠ 0)
    (zeroSide : OnSide false zero) (oneSide : OnSide true one) :
    (slots path value zero one).findIn key path.length self parents =
      match if key.bit path.length then one else zero with
      | none => (.inner self, parents)
      | some (k, children) =>
        if radixSubstr key path.length (radixLength k) = k then
          children.findIn key (path.length + radixLength k) ⟨k, path.length, children⟩
            (self :: parents)
        else (.inner ⟨k, path.length, children⟩, self :: parents) := by
  have first {k : RadixNetworkEntry N} : k.bit 0 = k.addr.msb := (BitVec.msb_eq_getMsbD_zero _).symm
  have behind : (slot path one .nil).findIn key path.length self parents =
      match if key.bit path.length then one else none with
      | none => (.inner self, parents)
      | some (k, children) =>
        if radixSubstr key path.length (radixLength k) = k then
          children.findIn key (path.length + radixLength k) ⟨k, path.length, children⟩
            (self :: parents)
        else (.inner ⟨k, path.length, children⟩, self :: parents) := by
    cases one with
    | none => simp [slot, RadixChildren.findIn]
    | some child =>
      have side := (oneSide _ _ rfl).1
      simp only [slot, RadixChildren.findIn, first, side]
      cases turn : key.bit path.length
      · simp
      · simp [goes]
  have sides : (slot path zero (slot path one .nil)).findIn key path.length self parents =
      match if key.bit path.length then one else zero with
      | none => (.inner self, parents)
      | some (k, children) =>
        if radixSubstr key path.length (radixLength k) = k then
          children.findIn key (path.length + radixLength k) ⟨k, path.length, children⟩
            (self :: parents)
        else (.inner ⟨k, path.length, children⟩, self :: parents) := by
    cases zero with
    | none => exact behind
    | some child =>
      have side := (zeroSide _ _ rfl).1
      rw [slot_some, RadixChildren.findIn, behind]
      simp only [first, side]
      cases turn : key.bit path.length
      · simp [goes]
      · simp
  cases value with
  | none => exact sides
  | some v =>
    simp only [slots, leafOf, RadixChildren.findIn, if_neg goes]
    exact sides

end

/-! ## The keys of children -/

/-- The key of the child at the end of an edge. -/
def edgeKey (N : Nat) (above : Nat) (bit : Bool) : Edge → RadixNetworkEntry N
  | .down label => ofBits N (bit :: label)
  | .back depth => ⟨0, sizeOfInt ((depth : Int) - above)⟩

section
variable {path key : List Bool} {bit : Bool} {edge : Edge}

theorem window_congr {key key' : List Bool} (same : ∀ i, key.getD i false = key'.getD i false)
    (depth n : Nat) : window key depth n = window key' depth n := by
  induction n generalizing depth with
  | zero => rfl
  | succ n ih => rw [window, window, same, ih]

/-- Within the width `radix_substr` cuts a window. -/
theorem radixSubstr_window {depth n : Nat} (small : N < 2 ^ 31) (fits : key.length ≤ N)
    (within : depth + n ≤ N) : radixSubstr (ofBits N key) depth n = ofBits N (window key depth n) := by
  have length := length_padded fits
  rw [radixSubstr_ofBits small fits within, ← window_inside (by omega)]
  exact congrArg (ofBits N) (window_congr (fun i => getD_padded key i) depth n)

/-- With a negative length `radix_substr` cuts no bits. -/
theorem radixSubstr_back {depth above : Nat} (small : N < 2 ^ 31) (entry : RadixNetworkEntry N)
    (behind : depth < above) (fits : above ≤ N) :
    radixSubstr entry above ((depth : Int) - above) = edgeKey N above bit (.back depth) := by
  have wrapped : N ≤ sizeOfInt ((depth : Int) - above) := by
    unfold sizeOfInt
    omega
  have negative : ¬ ((depth : Int) - above = N) := by omega
  have shift : sizeOfInt ((N : Int) - (depth - above) - above) = N - depth := by
    unfold sizeOfInt
    omega
  have offset : sizeOfInt (above : Int) = above := sizeOfInt_natCast (by omega)
  have power : shl (1 : BitVec N) (sizeOfInt ((depth : Int) - above)) = 0 :=
    if_neg (Nat.not_lt.mpr wrapped)
  have ones := minusEq_one (x := (0 : BitVec N)) (n := N) fun i inside => by
    simp [Nat.ne_of_lt inside]
  unfold radixSubstr edgeKey
  simp only [if_neg negative, power, shift, offset]
  congr 1
  generalize minusEq (0 : BitVec N) 1 = mask at ones ⊢
  apply BitVec.eq_of_getMsbD_eq
  intro i inside
  have above' : (shl mask (N - depth)).getMsbD (i + above) = false := by
    unfold shl
    split
    · rw [BitVec.getMsbD_shiftLeft, BitVec.getMsbD_eq_getLsbD]
      have past : ¬ i + above + (N - depth) < N := by omega
      simp [past]
    · exact BitVec.getMsbD_zero
  unfold shl at above' ⊢
  split
  · rw [BitVec.getMsbD_shiftLeft, BitVec.getMsbD_and, above', Bool.and_false]
    exact BitVec.getMsbD_zero.symm
  · rfl

/-- The length of a child's key leads to the depth of its node. -/
theorem radixLength_edgeKey (small : N < 2 ^ 31) (pathFits : path.length ≤ N)
    (fits : (edge.follow path bit).length ≤ N)
    (returns : ∀ depth, edge = .back depth → depth < path.length) :
    (path.length : Int) + radixLength (edgeKey N path.length bit edge) =
      (edge.follow path bit).length := by
  cases edge with
  | down label =>
    simp only [Edge.follow, List.length_append, List.length_cons] at fits
    rw [edgeKey, radixLength_ofBits (by simp only [List.length_cons]; omega), Edge.follow,
      List.length_append, List.length_cons]
    omega
  | back depth =>
    have behind := returns depth rfl
    have wrapped : (sizeOfInt ((depth : Int) - path.length) : Int) =
        2 ^ 64 + ((depth : Int) - path.length) := by
      unfold sizeOfInt
      omega
    have parts : (2 : Int) ^ 64 + ((depth : Int) - path.length) =
        ((depth : Int) - path.length) + (2 ^ 32 : Nat) * 2 ^ 32 := by
      omega
    have length : radixLength (edgeKey N path.length bit (.back depth)) =
        (depth : Int) - path.length := by
      show Int.bmod (sizeOfInt ((depth : Int) - path.length)) (2 ^ 32) = _
      rw [wrapped, parts, Int.add_mul_bmod_self_left]
      apply Int.bmod_eq_of_le <;> omega
    rw [length, Edge.follow, List.length_take]
    omega

/-- The key of a child stands on its side. -/
theorem onSide_edgeKey (small : N < 2 ^ 31) (pathFits : path.length ≤ N)
    (fits : (edge.follow path bit).length ≤ N)
    (returns : ∀ depth, edge = .back depth → bit = false ∧ depth < path.length)
    (children : RadixChildren N T) :
    OnSide bit (some (edgeKey N path.length bit edge, children)) := by
  cases edge with
  | down label =>
    simp only [Edge.follow, List.length_append, List.length_cons] at fits
    refine onSide_some ?_ (ofBits_ne_nul bit label) children
    show (ofBits N (bit :: label)).addr.msb = bit
    rw [BitVec.msb_eq_getMsbD_zero, getMsbD_ofBits (by rw [List.length_cons]; omega)]
    rfl
  | back depth =>
    obtain ⟨rfl, behind⟩ := returns depth rfl
    refine onSide_some BitVec.msb_zero ?_ children
    intro same
    have lengths := congrArg RadixNetworkEntry.prefixLen same
    simp only [edgeKey, nul, sizeOfInt] at lengths
    omega

/-- A search takes the edges that its key passes. -/
theorem radixSubstr_edgeKey (small : N < 2 ^ 31) (keyFits : key.length ≤ N)
    (pathFits : path.length ≤ N) (fits : (edge.follow path bit).length ≤ N)
    (returns : ∀ depth, edge = .back depth → bit = false ∧ depth < path.length)
    (turn : key.getD path.length false = bit) :
    radixSubstr (ofBits N key) path.length (radixLength (edgeKey N path.length bit edge)) =
      edgeKey N path.length bit edge ↔ edge.Passes key path.length := by
  cases edge with
  | down label =>
    simp only [Edge.follow, List.length_append, List.length_cons] at fits
    have child : edgeKey N path.length bit (.down label) = ofBits N (bit :: label) := rfl
    rw [child, radixLength_ofBits (by simp only [List.length_cons]; omega), List.length_cons,
      radixSubstr_window small keyFits fits, window, turn]
    constructor
    · intro same
      exact (List.cons.inj (ofBits_injective (by simp only [List.length_cons, length_window]; omega)
        same)).2
    · intro passes
      have rest : window key (path.length + 1) label.length = label := passes
      rw [rest]
  | back depth =>
    have behind := (returns depth rfl).2
    have length := @radixLength_edgeKey N path bit (.back depth) small pathFits fits
      fun depth back => (returns depth back).2
    have negative : radixLength (edgeKey N path.length bit (.back depth)) =
        (depth : Int) - path.length := by
      rw [Edge.follow, List.length_take] at length
      omega
    rw [negative]
    exact iff_of_true (radixSubstr_back small _ behind pathFits) trivial

/-- What is left of a key at a node is the key of a new child. -/
theorem radixSubstr_reaching (small : N < 2 ^ 31) (keyFits : key.length ≤ N)
    (pathFits : path.length ≤ N) (turn : key.getD path.length false = bit)
    (goes : key.length ≠ path.length) :
    radixSubstr (ofBits N key) path.length ((key.length : Int) - path.length) =
      edgeKey N path.length bit (.reaching key path.length) := by
  by_cases long : path.length < key.length
  · have left : (key.length : Int) - path.length = (key.length - path.length : Nat) := by omega
    rw [Edge.reaching, if_pos long, edgeKey, left, radixSubstr_window small keyFits (by omega),
      window_inside (by omega), List.take_of_length_le (by rw [List.length_drop]),
      List.drop_eq_getElem_cons long]
    rw [List.getD_eq_getElem?_getD, List.getElem?_eq_getElem long, Option.getD_some] at turn
    rw [turn]
  · rw [Edge.reaching, if_neg long]
    exact radixSubstr_back small _ (by omega) pathFits

end

/-! ## How a trie is kept -/

/-- The child on the side of a bit, in front of the children behind it. -/
def limb (path : List Bool) (bit : Bool) : Rewind T → RadixChildren N T → RadixChildren N T
  | .empty, rest => rest
  | .node edge value zero one, rest =>
    let path' := edge.follow path bit
    .inner (edgeKey N path.length bit edge) path.length
      (leafOf path' value (limb path' false zero (limb path' true one .nil))) rest

/-- The children of the node at a path. -/
def limbs (path : List Bool) (value : Option T) (zero one : Rewind T) : RadixChildren N T :=
  leafOf path value (limb path false zero (limb path true one .nil))

/-- The child that a subtrie is kept as. -/
def childOf (N : Nat) (path : List Bool) (bit : Bool) : Rewind T → Option (Child N T)
  | .empty => none
  | .node edge value zero one =>
    some (edgeKey N path.length bit edge, limbs (edge.follow path bit) value zero one)

section
variable {path : List Bool} {bit : Bool} {t : Rewind T}

theorem limbs_slots (path : List Bool) (value : Option T) (zero one : Rewind T) :
    limbs path value zero one =
      slots path value (childOf N path false zero) (childOf N path true one) := by
  cases zero <;> cases one <;> rfl

theorem childOf_side (path : List Bool) (bit : Bool) (zero one : Rewind T) :
    (if bit then childOf N path true one else childOf N path false zero) =
      childOf N path bit (if bit then one else zero) := by
  cases bit <;> rfl

theorem onSide_childOf (small : N < 2 ^ 31) (pathFits : path.length ≤ N)
    (sound : Sound N path bit t) : OnSide bit (childOf N path bit t) := by
  cases sound with
  | empty => exact fun key children none => by cases none
  | node fits returns _ _ _ _ =>
    exact onSide_edgeKey small pathFits fits
      (fun depth back => ⟨(returns depth back).1, (returns depth back).2.2.1⟩) _

end

/-! ## Assignment -/

section
variable {path key : List Bool} {bit : Bool} {value : Option T} {zero one : Rewind T} {x : T}
  {self : RadixNode N T} {parents : List (RadixNode N T)} {edge : Edge}

/-- A child is put in the place of the one on its side. -/
theorem put_limbs (small : N < 2 ^ 31) (pathFits : path.length ≤ N)
    (zeroSound : Sound N path false zero) (oneSound : Sound N path true one)
    {t : Rewind T} (sound : Sound N path bit t) {k : RadixNetworkEntry N}
    {children : RadixChildren N T} (child : childOf N path bit t = some (k, children))
    (place : ∀ k' children', childOf N path bit (if bit then one else zero) = some (k', children') →
      k' = k) :
    (limbs path value zero one).put ⟨k, path.length, children⟩ =
      limbs path value (if bit then zero else t) (if bit then t else one) := by
  have side := onSide_childOf small pathFits sound
  obtain ⟨start, inner⟩ := side k children child
  rw [limbs_slots, put_slots bit children start inner (onSide_childOf small pathFits zeroSound)
    (onSide_childOf small pathFits oneSound) (by cases bit <;> exact place), limbs_slots, ← child]
  cases bit <;> rfl

/-- The network of a node that a search has passed is assigned to. -/
theorem assign_ends (root : RadixNode N T) (small : N < 2 ^ 31) (fits : path.length ≤ N)
    (children : self.children = limbs path value zero one) (here : At path (ofBits N path) self)
    (zeroSound : Sound N path false zero) (oneSound : Sound N path true one) :
    assignAt root (ofBits N path) x
      ((limbs path value zero one).findIn (ofBits N path) path.length self parents) =
      .ok (rebuild { self with children := limbs path (some x) zero one } parents) := by
  have length : radixLength (ofBits N path) = path.length := radixLength_ofBits (by omega)
  have ends : radixLength (ofBits N path) - path.length = 0 := by omega
  have stored := @putLeaf_slots N T path value _ _ (onSide_childOf small fits zeroSound)
    (onSide_childOf small fits oneSound) x
  rw [limbs_slots] at children ⊢
  rw [find_slots_here self parents ends, limbs_slots]
  cases value with
  | some w =>
    simp only [assignAt]
    rw [children, stored]
  | none =>
    simp only [assignAt]
    rw [insertAt_matched here.matched, append, here.ends]
    simp only
    rw [if_pos ends, children, stored]

theorem bit_key (fits : key.length ≤ N) (i : Nat) :
    (ofBits N key).bit i = key.getD i false := bit_ofBits fits i

theorem length_key (small : N < 2 ^ 31) (fits : key.length ≤ N) :
    radixLength (ofBits N key) - path.length = (key.length : Int) - path.length := by
  rw [radixLength_ofBits (by omega)]

/-- Below a node without a child on its side a network gets a child. -/
theorem assign_absent (root : RadixNode N T) (small : N < 2 ^ 31) (keyFits : key.length ≤ N)
    (pathFits : path.length ≤ N) (under : Under path key) (goes : key.length ≠ path.length)
    (nonempty : key ≠ []) (turn : key.getD path.length false = bit)
    (children : self.children = limbs path value zero one) (here : At path (ofBits N key) self)
    (zeroSound : Sound N path false zero) (oneSound : Sound N path true one)
    (absent : (if bit then one else zero) = .empty) :
    assignAt root (ofBits N key) x (.inner self, parents) =
      .ok (rebuild { self with
        children := limbs path value
          (if bit then zero else .node (.reaching key path.length) (some x) .empty .empty)
          (if bit then .node (.reaching key path.length) (some x) .empty .empty else one) }
        parents) := by
  have goes' : (key.length : Int) - path.length ≠ 0 := by omega
  have sound := (sound_put (v := x) (.empty path bit) under turn goes nonempty keyFits).1
  have child : childOf N path bit (Rewind.put path.length .empty (key, x)) =
      some (edgeKey N path.length bit (.reaching key path.length),
        .leaf (ofBits N key, x) .nil) := by
    rw [put_empty, childOf, follow_reaching under turn]
    rfl
  have put := @put_limbs N T path bit value zero one small pathFits zeroSound oneSound _ sound _ _
    child (by rw [absent]; exact fun k' children' none => by cases none)
  rw [assignAt, insertAt_matched here.matched, append, here.ends]
  simp only
  rw [length_key small keyFits, if_neg goes', radixSubstr_reaching small keyFits pathFits turn goes,
    children, put, put_empty]

/-- A network that ends in front of an edge that it does not pass is refused. -/
theorem prepend_short (child parent : RadixNode N T) {key : RadixNetworkEntry N}
    (short : radixLength key - child.depth ≤ 0) :
    child.prepend parent (key, x) = .error "overlapping network detected" := by
  have nothing : (min (radixLength child.key) (radixLength key - child.depth)).toNat = 0 := by
    omega
  unfold prepend
  simp only [nothing]
  rfl

/-- A child that is not passed is cut in two. -/
theorem insertAt_aside {key : RadixNetworkEntry N} {child parent : RadixNode N T}
    (aside : ¬ radixSubstr key child.depth (radixLength child.key) = child.key) :
    insertAt (key, x) child (parent :: parents) =
      (child.prepend parent (key, x)).map (rebuild · parents) := if_neg aside

/-- The children of the new node between the halves of a label. -/
theorem halves {below rest : List Bool} {c : Bool} {value' : Option T}
    {zero' one' : Rewind T} (small : N < 2 ^ 31) (fits : (path ++ rest).length ≤ N)
    (lower : Sound N path c (.node (.down below) value' zero' one'))
    (apart : ∀ b s, rest = b :: s → b = !c) :
    (if rest.length = 0 then
      (RadixChildren.nil.put ⟨ofBits N (c :: below), (path.length : Nat),
        limbs (path ++ c :: below) value' zero' one'⟩).putLeaf (ofBits N (path ++ rest), x)
    else
      (RadixChildren.nil.put ⟨ofBits N (c :: below), (path.length : Nat),
        limbs (path ++ c :: below) value' zero' one'⟩).put
          ⟨radixSubstr (ofBits N (path ++ rest)) path.length rest.length, path.length,
            .leaf (ofBits N (path ++ rest), x) .nil⟩ : RadixChildren N T) =
      if c then limbs path (if rest = [] then some x else none)
        (if rest = [] then .empty else .node (.down rest.tail) (some x) .empty .empty)
        (.node (.down below) value' zero' one')
      else limbs path (if rest = [] then some x else none) (.node (.down below) value' zero' one')
        (if rest = [] then .empty else .node (.down rest.tail) (some x) .empty .empty) := by
  have pathFits : path.length ≤ N := by
    rw [List.length_append] at fits
    omega
  have first : (RadixChildren.nil.put ⟨ofBits N (c :: below), (path.length : Nat),
      limbs (path ++ c :: below) value' zero' one'⟩ : RadixChildren N T) =
        limbs path none (if c then .empty else .node (.down below) value' zero' one')
          (if c then .node (.down below) value' zero' one' else .empty) := by
    cases c <;> rfl
  have zeroSound : Sound N path false
      (if c then .empty else .node (.down below) value' zero' one' : Rewind T) := by
    cases c
    · exact lower
    · exact .empty ..
  have oneSound : Sound N path true
      (if c then .node (.down below) value' zero' one' else .empty : Rewind T) := by
    cases c
    · exact .empty ..
    · exact lower
  rw [first]
  cases rest with
  | nil =>
    rw [if_pos List.length_nil, List.append_nil, limbs_slots, putLeaf_slots
      (onSide_childOf small pathFits zeroSound) (onSide_childOf small pathFits oneSound),
      ← limbs_slots]
    cases c <;> rfl
  | cons b s =>
    obtain rfl := apart b s rfl
    have new := (sound_put (v := x) (.empty path (!c)) (under_append path ((!c) :: s))
      (by simp) (by simp) (by simp) fits).1
    rw [put_empty, reaching_append] at new
    have cut := radixSubstr_inside path.length ((!c) :: s).length small fits (by simp)
    rw [List.drop_left, List.take_length] at cut
    have child : childOf N path (!c) (.node (.down s) (some x) .empty .empty) =
        some (ofBits N ((!c) :: s), .leaf (ofBits N (path ++ (!c) :: s), x) .nil) := rfl
    rw [if_neg (by simp), cut, put_limbs small pathFits zeroSound oneSound new child]
    · cases c <;> rfl
    · cases c <;> exact fun k' children' none => by cases none

/-- A child whose label a network leaves, or in which it ends, is cut in two. -/
theorem assign_cut {common below rest : List Bool} {c : Bool} {value' : Option T}
    {zero' one' : Rewind T} (root : RadixNode N T) (small : N < 2 ^ 31)
    (fits : (path ++ bit :: (common ++ rest)).length ≤ N) (pathFits : path.length ≤ N)
    (children : self.children = limbs path value zero one)
    (zeroSound : Sound N path false zero) (oneSound : Sound N path true one)
    (present : (if bit then one else zero) =
      .node (.down (common ++ c :: below)) value' zero' one')
    (aside : ¬ (Edge.down (common ++ c :: below)).Passes (path ++ bit :: (common ++ rest))
      path.length)
    (apart : ∀ b s, rest = b :: s → b = !c) :
    ∃ t, (Rewind.node (.down (common ++ c :: below)) value' zero' one').insert
        (path ++ bit :: (common ++ rest)) x path.length = some t ∧
      assignAt root (ofBits N (path ++ bit :: (common ++ rest))) x
        (.inner ⟨ofBits N (bit :: (common ++ c :: below)), path.length,
          limbs (path ++ bit :: (common ++ c :: below)) value' zero' one'⟩, self :: parents) =
      .ok (rebuild { self with
        children := limbs path value (if bit then zero else t) (if bit then t else one) }
        parents) := by
  have sideSound : Sound N path bit (.node (.down (common ++ c :: below)) value' zero' one') := by
    rw [← present]
    cases bit
    · exact zeroSound
    · exact oneSound
  have width : (path ++ bit :: (common ++ c :: below)).length ≤ N := by
    cases sideSound with
    | node fits _ _ _ _ _ => exact fits
  have turn : (path ++ bit :: (common ++ rest)).getD path.length false = bit := by simp
  have stored := @insert_halves T _ c value' zero' one' x _ _ _ _ aside
    (by simp) (by simp [← List.drop_drop]) apart
  refine ⟨_, stored, ?_⟩
  have newSound := (sound_put (v := x) sideSound (under_append ..) turn (by simp) (by simp) fits).1
  rw [Rewind.put, stored, Option.getD_some] at newSound
  generalize new : branch _ _ _ _ _ = t at newSound
  have stops := mt (@radixSubstr_edgeKey N _ _ bit (.down (common ++ c :: below)) small fits
    pathFits width (fun depth back => by cases back) turn).mp aside
  have start := onSide_childOf small pathFits sideSound _ _ rfl
  -- the side is free once the child is removed
  have removed : (limbs path value zero one).remove (ofBits N (bit :: (common ++ c :: below))) =
      limbs path value (if bit then zero else .empty) (if bit then .empty else one) := by
    rw [limbs_slots]
    refine (remove_slots bit (limbs (path ++ bit :: (common ++ c :: below)) value' zero' one')
      start.1 start.2 (onSide_childOf small pathFits zeroSound)
      (onSide_childOf small pathFits oneSound) ?_).trans ?_
    · rw [childOf_side, present]
      rfl
    · rw [limbs_slots]
      cases bit <;> rfl
  have lowerSound := (sound_lower sideSound).1
  have lowerPath : path ++ bit :: (common ++ c :: below) =
      (path ++ bit :: common) ++ c :: below := by
    simp
  have upperFits : ((path ++ bit :: common) ++ rest).length ≤ N := by simpa using fits
  have cut := halves (x := x) small upperFits lowerSound apart
  have zeroSound' : Sound N path false (if bit then zero else .empty) := by
    cases bit
    · exact .empty ..
    · exact zeroSound
  have oneSound' : Sound N path true (if bit then .empty else one) := by
    cases bit
    · exact oneSound
    · exact .empty ..
  have prepended := @insertAt_aside N T x parents (ofBits N (path ++ bit :: (common ++ rest)))
    ⟨ofBits N (bit :: (common ++ c :: below)), path.length,
      limbs (path ++ bit :: (common ++ c :: below)) value' zero' one'⟩ self stops
  have within : path.length + 1 + (common ++ c :: below).length ≤ N := by
    rw [List.length_append, List.length_cons] at width
    omega
  rw [prepend_label small _ fits within apart, lowerPath, cut, children, removed] at prepended
  rw [assignAt, lowerPath, prepended]
  refine congrArg (fun children => Except.ok (rebuild { self with children := children } parents)) ?_
  refine (put_limbs small pathFits zeroSound' oneSound' newSound ?_ ?_).trans ?_
  · subst new
    cases c <;> rfl
  · intro k' children' none
    cases bit <;> simp [childOf] at none
  · cases bit <;> rfl

/-- What `assign` makes of a node. -/
def assigned (self : RadixNode N T) (parents : List (RadixNode N T)) (path : List Bool) :
    Option (Option T × Rewind T × Rewind T) → Except String (RadixNode N T)
  | none => .error "overlapping network detected"
  | some c => .ok (rebuild { self with children := limbs path c.1 c.2.1 c.2.2 } parents)

/-- **Assignment** below a node that a search has passed. -/
theorem assign_limbs (small : N < 2 ^ 31) (t : Rewind T) {edge : Edge} {value : Option T}
    {zero one : Rewind T} (found : t = .node edge value zero one) {path : List Bool}
    {self : RadixNode N T} (root : RadixNode N T) (parents : List (RadixNode N T))
    (keyFits : key.length ≤ N) (pathFits : path.length ≤ N) (nonempty : key ≠ [])
    (under : Under path key) (children : self.children = limbs path value zero one)
    (here : At path (ofBits N key) self) (zeroSound : Sound N path false zero)
    (oneSound : Sound N path true one) :
    assignAt root (ofBits N key) x
      ((limbs path value zero one).findIn (ofBits N key) path.length self parents) =
      assigned self parents path (within key x path.length value zero one) := by
  induction t generalizing path edge value zero one self parents with
  | empty => cases found
  | node edge value zero one zeroIh oneIh =>
    cases found
    by_cases ends : key.length = path.length
    · obtain rfl := under_eq under ends
      rw [assign_ends root small pathFits children here zeroSound oneSound, within, if_pos rfl,
        assigned]
    · have goes : radixLength (ofBits N key) - path.length ≠ 0 := by
        rw [length_key small keyFits]
        omega
      rw [limbs_slots, find_slots self parents goes (onSide_childOf small pathFits zeroSound)
        (onSide_childOf small pathFits oneSound), bit_key keyFits, childOf_side, within,
        if_neg ends]
      generalize turn : key.getD path.length false = bit
      have sideSound : Sound N path bit (if bit then one else zero) := by
        cases bit
        · exact zeroSound
        · exact oneSound
      have inserted : (if bit then (one.insert key x path.length).map fun one => (value, zero, one)
          else (zero.insert key x path.length).map fun zero => (value, zero, one)) =
            ((if bit then one else zero : Rewind T).insert key x path.length).map fun t =>
              (value, if bit then zero else t, if bit then t else one) := by
        cases bit <;> rfl
      rw [inserted]
      cases side : (if bit then one else zero : Rewind T) with
      | empty =>
        exact assign_absent root small keyFits pathFits under ends nonempty turn children here
          zeroSound oneSound side
      | node edge' value' zero' one' =>
        rw [side] at sideSound
        have stored := (sound_put (v := x) sideSound under turn ends nonempty keyFits).1
        have place (k : RadixNetworkEntry N) (children' : RadixChildren N T)
            (same : childOf N path bit (if bit then one else zero) = some (k, children')) :
            k = edgeKey N path.length bit edge' := by
          rw [side] at same
          exact (Prod.mk.inj (Option.some.inj same)).1.symm
        have whole := sideSound
        cases sideSound with
        | node fits returns useful passed zeroSound' oneSound' =>
          have back (depth : Nat) (is : edge' = .back depth) : bit = false ∧ depth < path.length :=
            ⟨(returns depth is).1, (returns depth is).2.2.1⟩
          have matched := radixSubstr_edgeKey small keyFits pathFits fits back turn
          have ended := @radixLength_edgeKey N path bit edge' small pathFits fits
            fun depth is => (back depth is).2
          simp only [childOf]
          by_cases passes : edge'.Passes key path.length
          · rw [if_pos (matched.mpr passes), ended, insert_passes passes, depth_follow returns]
            rw [Rewind.put, insert_passes passes, depth_follow returns] at stored
            have below : assignAt root (ofBits N key) x
                ((limbs (edge'.follow path bit) value' zero' one').findIn (ofBits N key)
                  (edge'.follow path bit).length ⟨edgeKey N path.length bit edge', path.length,
                    limbs (edge'.follow path bit) value' zero' one'⟩ (self :: parents)) =
                assigned ⟨edgeKey N path.length bit edge', path.length,
                  limbs (edge'.follow path bit) value' zero' one'⟩ (self :: parents)
                    (edge'.follow path bit)
                    (within key x (edge'.follow path bit).length value' zero' one') := by
              have under' := under_follow under turn passes returns
              have at' := matched.mpr passes
              cases bit
              · exact zeroIh side (self :: parents) fits under' rfl ⟨ended, at'⟩ zeroSound' oneSound'
              · exact oneIh side (self :: parents) fits under' rfl ⟨ended, at'⟩ zeroSound' oneSound'
            rw [below]
            cases result : within key x (edge'.follow path bit).length value' zero' one' with
            | none => rfl
            | some c =>
              rw [result, Option.map_some, Option.getD_some] at stored
              have put := @put_limbs N T path bit value zero one small pathFits zeroSound oneSound
                _ stored _ _ rfl place
              simp only [Option.map_some, assigned, rebuild]
              rw [children, put]
          · rw [if_neg (mt matched.mp passes)]
            cases edge' with
            | back depth => exact absurd trivial passes
            | down label =>
              by_cases short : key.length ≤ path.length
              · have refused := @insertAt_aside N T x parents (ofBits N key)
                  ⟨edgeKey N path.length bit (.down label), path.length,
                    limbs ((Edge.down label).follow path bit) value' zero' one'⟩ self
                  (mt matched.mp passes)
                have front : radixLength (ofBits N key) - path.length ≤ 0 := by
                  rw [length_key small keyFits]
                  omega
                have error := @prepend_short N T x
                  ⟨edgeKey N path.length bit (.down label), path.length,
                    limbs ((Edge.down label).follow path bit) value' zero' one'⟩ self (ofBits N key)
                  front
                rw [error] at refused
                rw [insert_refused passes short]
                exact refused
              · have key_eq := long_key under turn (by omega)
                have aside : ¬ label <+: key.drop (path.length + 1) := fun start =>
                  passes (passes_drop (by omega) start)
                obtain ⟨common, c, below, rfl, leaves⟩ := Trie.aside_cases aside
                obtain ⟨rest, left, apart⟩ : ∃ rest, key.drop (path.length + 1) = common ++ rest ∧
                    ∀ b s, rest = b :: s → b = !c := by
                  rcases leaves with ends | ⟨rest, leaves⟩
                  · exact ⟨[], by rw [ends, List.append_nil], fun b s none => by cases none⟩
                  · exact ⟨(!c) :: rest, leaves, fun b s same => by cases same; rfl⟩
                rw [left] at key_eq
                subst key_eq
                obtain ⟨t, inserted', made⟩ := @assign_cut N T path bit value zero one x self
                  parents common below rest c value' zero' one' root small keyFits pathFits children
                  zeroSound oneSound side passes apart
                rw [inserted']
                exact made

end

/-! ## Trees -/

/-- The tree that keeps the tries on its two sides. -/
def treeOf : Rewind T × Rewind T → RadixTree N T
  | (.empty, .empty) => {}
  | (zero, one) => ⟨some ⟨nul, 0, limbs [] none zero one⟩⟩

/-- `(*rn)[entry] = value`, if it is not refused. -/
def assignTo (tree : RadixTree N T) (e : RadixNetworkEntry N × T) : RadixTree N T :=
  (tree.assign e.1 e.2).toOption.getD tree

section
variable {s : Rewind T × Rewind T} {tree : RadixTree N T} {entry : RadixNetworkEntry N} {x : T}

theorem root_treeOf (s : Rewind T × Rewind T) :
    (treeOf s : RadixTree N T).root.getD {} = ⟨nul, 0, limbs [] none s.1 s.2⟩ := by
  obtain ⟨zero, one⟩ := s
  cases zero <;> cases one <;> rfl

theorem treeOf_some {zero one : Rewind T} (present : zero ≠ .empty ∨ one ≠ .empty) :
    (treeOf (zero, one) : RadixTree N T) = ⟨some ⟨nul, 0, limbs [] none zero one⟩⟩ := by
  cases zero <;> cases one <;> first | rfl | simp at present

/-- Assignment to a tree stores a key below its root. -/
theorem assign_root (small : N < 2 ^ 31) (sides : Sides N s) {key : List Bool}
    (nonempty : key ≠ []) (fits : key.length ≤ N) (x : T) :
    (treeOf s : RadixTree N T).assign (ofBits N key) x =
      (assigned (⟨nul, 0, limbs [] none s.1 s.2⟩ : RadixNode N T) [] []
        (within key x 0 none s.1 s.2)).map fun root => ⟨some root⟩ := by
  have length : radixLength (nul : RadixNetworkEntry N) = 0 := radixLength_of nul (by simp [nul])
  have matched : radixSubstr (ofBits N key) 0 (radixLength (nul : RadixNetworkEntry N)) = nul := by
    have cut := radixSubstr_inside 0 0 small fits (Nat.zero_le _)
    rw [List.take_zero, ← nul_eq] at cut
    rw [length]
    exact cut
  have assigns := @assign_limbs N T key x small (.node (.down []) none s.1 s.2) _ _ _ _ rfl
    [] ⟨nul, 0, limbs [] none s.1 s.2⟩ ⟨nul, 0, limbs [] none s.1 s.2⟩ [] fits
    (Nat.zero_le N) nonempty (under_nil key) rfl ⟨by simp [length], matched⟩ sides.zero sides.one
  rw [RadixTree.assign, root_treeOf]
  exact congrArg (Except.map fun root => (⟨some root⟩ : RadixTree N T)) assigns

/-- **Assignment** to a tree stores a key on its side. -/
theorem assign_treeOf (small : N < 2 ^ 31) (sides : Sides N s) {key : List Bool}
    (nonempty : key ≠ []) (fits : key.length ≤ N) (x : T) :
    assignTo (treeOf s : RadixTree N T) (ofBits N key, x) = treeOf (store s (key, x)) := by
  have whole := assign_root small sides nonempty fits x
  obtain ⟨zero, one⟩ := s
  have ends : ¬ key.length = 0 := by simpa using nonempty
  rw [assignTo, whole, within, if_neg ends, store]
  cases turn : key.getD 0 false with
  | true =>
    cases stored : one.insert key x 0 with
    | none =>
      simp only [if_true, put, stored, Option.getD_none]
      rfl
    | some t =>
      simp only [if_true, put, stored, Option.getD_some]
      exact (treeOf_some (.inr (insert_ne_empty stored))).symm
  | false =>
    cases stored : zero.insert key x 0 with
    | none =>
      simp only [Bool.false_eq_true, if_false, put, stored, Option.getD_none]
      rfl
    | some t =>
      simp only [Bool.false_eq_true, if_false, put, stored, Option.getD_some]
      exact (treeOf_some (.inl (insert_ne_empty stored))).symm

/-- A network that is not refused is stored on its side. -/
theorem mem_store_of_assign (small : N < 2 ^ 31) (sides : Sides N s) {key : List Bool}
    (nonempty : key ≠ []) (fits : key.length ≤ N)
    (accepted : (treeOf s : RadixTree N T).assign (ofBits N key) x = .ok tree) :
    (key, x) ∈ both (store s (key, x)) := by
  rw [assign_root small sides nonempty fits] at accepted
  have ends : ¬ key.length = 0 := by simpa using nonempty
  rw [within, if_neg ends] at accepted
  cases turn : key.getD 0 false with
  | true =>
    cases stored : s.2.insert key x 0 with
    | none =>
      rw [turn, if_pos rfl, stored] at accepted
      cases accepted
    | some t =>
      have here := mem_insert sides.one (under_nil key) turn stored
      rw [store, turn, if_pos rfl, put, stored, Option.getD_some]
      exact List.mem_append_right _ here
  | false =>
    cases stored : s.1.insert key x 0 with
    | none =>
      rw [turn, if_neg Bool.false_ne_true, stored] at accepted
      cases accepted
    | some t =>
      have here := mem_insert sides.zero (under_nil key) turn stored
      rw [store, turn, if_neg Bool.false_ne_true, put, stored, Option.getD_some]
      exact List.mem_append_left _ here

/-- An entry of a traversal as it stands in the tree. -/
def entryOf (N : Nat) (e : List Bool × T) : RadixNetworkEntry N × T := (ofBits N e.1, e.2)

theorem values_leafOf (path : List Bool) (value : Option T) (rest : RadixChildren N T) :
    (leafOf path value rest).values =
      (value.map fun v => (ofBits N path, v)).toList ++ rest.values := by
  cases value <;> rfl

theorem values_limb (path : List Bool) (bit : Bool) (t : Rewind T) (rest : RadixChildren N T) :
    (limb path bit t rest).values = (t.entries path bit).map (entryOf N) ++ rest.values := by
  induction t generalizing path bit rest with
  | empty => rfl
  | node edge value zero one zeroIh oneIh =>
    rw [limb, RadixChildren.values, values_leafOf, zeroIh, oneIh, entries_node, List.map_append,
      List.map_append, RadixChildren.values, List.append_nil]
    cases value <;> rfl

/-- **Iteration** visits the entries in the order of the traversal. -/
theorem values_treeOf (s : Rewind T × Rewind T) :
    (treeOf s : RadixTree N T).values = (both s).map (entryOf N) := by
  obtain ⟨zero, one⟩ := s
  by_cases present : zero ≠ .empty ∨ one ≠ .empty
  · have visited : (treeOf (zero, one) : RadixTree N T).values = (limbs [] none zero one).values := by
      rw [treeOf_some present]
      rfl
    rw [visited, limbs, values_leafOf, values_limb, values_limb, both, List.map_append,
      RadixChildren.values, List.append_nil]
    rfl
  · obtain ⟨rfl, rfl⟩ : zero = .empty ∧ one = .empty := by simpa [not_or] using present
    rfl

/-! ## Made by assignment -/

/-- A tree that keeps two tries. -/
def Kept (tree : RadixTree N T) : Prop := ∃ s, Sides N s ∧ tree = treeOf s

theorem kept_empty : Kept ({} : RadixTree N T) :=
  ⟨(.empty, .empty), ⟨.empty .., .empty ..⟩, rfl⟩

/-- The entry of a network. -/
def OfNetwork (entry : RadixNetworkEntry N) : Prop :=
  ∃ key, key ≠ [] ∧ key.length ≤ N ∧ entry = ofBits N key

/-- **What assignment keeps.** -/
theorem kept_assignTo (small : N < 2 ^ 31) (kept : Kept tree) (network : OfNetwork entry) (x : T) :
    Kept (assignTo tree (entry, x)) ∧
      ∀ e ∈ (assignTo tree (entry, x)).values, e ∈ tree.values ∨ e = (entry, x) := by
  obtain ⟨s, sides, rfl⟩ := kept
  obtain ⟨key, nonempty, fits, rfl⟩ := network
  obtain ⟨sides', members⟩ := sides_store (e := (key, x)) sides nonempty fits
  rw [assign_treeOf small sides nonempty fits]
  refine ⟨⟨_, sides', rfl⟩, fun e member => ?_⟩
  rw [values_treeOf] at member ⊢
  obtain ⟨e, inside, rfl⟩ := List.mem_map.mp member
  rcases members e inside with old | rfl
  · exact .inl (List.mem_map_of_mem old)
  · exact .inr rfl

/-- Assignment to a network leaves the leaves of the others. -/
theorem kept_values (small : N < 2 ^ 31) (kept : Kept tree) (network : OfNetwork entry)
    {e : RadixNetworkEntry N × T} (other : entry ≠ e.1) (member : e ∈ tree.values) :
    e ∈ (assignTo tree (entry, x)).values := by
  obtain ⟨s, sides, rfl⟩ := kept
  obtain ⟨key, nonempty, fits, rfl⟩ := network
  rw [values_treeOf] at member
  obtain ⟨e, inside, rfl⟩ := List.mem_map.mp member
  have apart : e.1 ≠ key := by
    rintro rfl
    exact other rfl
  rw [assign_treeOf small sides nonempty fits, values_treeOf]
  exact List.mem_map_of_mem (Rewind.kept_store (e := (key, x)) sides inside apart)

/-- A network that is not refused gets a leaf. -/
theorem mem_values_of_assign (small : N < 2 ^ 31) (kept : Kept tree) (network : OfNetwork entry)
    (accepted : (tree.assign entry x).toBool) :
    (entry, x) ∈ (assignTo tree (entry, x)).values := by
  obtain ⟨s, sides, rfl⟩ := kept
  obtain ⟨key, nonempty, fits, rfl⟩ := network
  cases stored : (treeOf s : RadixTree N T).assign (ofBits N key) x with
  | error text =>
    rw [stored] at accepted
    cases accepted
  | ok tree =>
    rw [assign_treeOf small sides nonempty fits, values_treeOf]
    have here := mem_store_of_assign small sides nonempty fits stored
    exact List.mem_map_of_mem (f := entryOf N) here

/-- What is visited are networks. -/
theorem ofNetwork_values (kept : Kept tree) : ∀ e ∈ tree.values, OfNetwork e.1 := by
  obtain ⟨s, sides, rfl⟩ := kept
  intro e member
  rw [values_treeOf] at member
  obtain ⟨e, inside, rfl⟩ := List.mem_map.mp member
  rcases List.mem_append.mp inside with here | there
  · obtain ⟨nonempty, fits⟩ := entries_fit sides.zero e here
    exact ⟨e.1, nonempty, fits, rfl⟩
  · obtain ⟨nonempty, fits⟩ := entries_fit sides.one e there
    exact ⟨e.1, nonempty, fits, rfl⟩

/-- **A tree** in which no network is stored twice is made again by assigning what an
iterator visits. -/
theorem foldl_assignTo_values (small : N < 2 ^ 31) (kept : Kept tree)
    (distinct : (tree.values.map Prod.fst).Nodup) : tree.values.foldl assignTo {} = tree := by
  obtain ⟨s, sides, rfl⟩ := kept
  have fit (e : List Bool × T) (member : e ∈ both s) : e.1 ≠ [] ∧ e.1.length ≤ N := by
    rcases List.mem_append.mp member with here | there
    · exact entries_fit sides.zero e here
    · exact entries_fit sides.one e there
  have stores (es : List (List Bool × T)) (all : ∀ e ∈ es, e.1 ≠ [] ∧ e.1.length ≤ N)
      (s : Rewind T × Rewind T) (sides : Sides N s) :
      (es.map (entryOf N)).foldl assignTo (treeOf s) = treeOf (es.foldl store s) := by
    induction es generalizing s with
    | nil => rfl
    | cons e es ih =>
      obtain ⟨nonempty, fits⟩ := all e (List.mem_cons_self ..)
      rw [List.map_cons, List.foldl_cons, entryOf, assign_treeOf small sides nonempty fits,
        List.foldl_cons]
      exact ih (fun e member => all e (List.mem_cons_of_mem _ member)) _
        (sides_store sides nonempty fits).1
  have distinct' : ((both s).map Prod.fst).Nodup := by
    rw [values_treeOf, List.map_map] at distinct
    have parts : (both s).map (Prod.fst ∘ entryOf N) = ((both s).map Prod.fst).map (ofBits N) := by
      rw [List.map_map]
      rfl
    rw [parts] at distinct
    exact List.Nodup.of_map _ distinct
  rw [values_treeOf]
  exact (stores (both s) fit (.empty, .empty) ⟨.empty .., .empty ..⟩).trans
    (congrArg treeOf (foldl_store_both sides distinct'))

end

end RadixRewinds
end NetifyAgent
