import NetifyAgent.RadixKeys
import NetifyAgent.Lib.Trie

/-! The radix tree keeps a path-compressed trie of the prefixes of its networks.
`assign`, `erase` and `longest_match` are insertion, removal and longest match of
that trie, as long as no search for a network to insert passes an edge that is
longer than what is left of the network's prefix. -/
namespace NetifyAgent.RadixTrie
open NetifyAgent.RadixKeys Trie

variable {N : Nat} {T : Type}

/-! ## How a trie is kept -/

/-- The leaf of a node, in front of its other children. -/
def leafOf (path : List Bool) : Option T → RadixChildren N T → RadixChildren N T
  | none, rest => rest
  | some value, rest => .leaf (ofBits N path, value) rest

/-- The child on the side of a bit, in front of the children behind it. -/
def edge (path : List Bool) (bit : Bool) : Trie T → RadixChildren N T → RadixChildren N T
  | .empty, rest => rest
  | .node label value zero one, rest =>
    let path' := path ++ bit :: label
    .inner (ofBits N (bit :: label)) path.length
      (leafOf path' value (edge path' false zero (edge path' true one .nil))) rest

/-- The children of the node at a path. -/
def kids (path : List Bool) (value : Option T) (zero one : Trie T) : RadixChildren N T :=
  leafOf path value (edge path false zero (edge path true one .nil))

/-- The children of a node, whatever its label. -/
def kidsOf (path : List Bool) : Trie T → RadixChildren N T
  | .empty => .nil
  | .node _ value zero one => kids path value zero one

/-- The node behind an edge. -/
def child (N : Nat) (path : List Bool) (bit : Bool) (label : List Bool) (value : Option T)
    (zero one : Trie T) : RadixNode N T :=
  ⟨ofBits N (bit :: label), path.length, kids (path ++ bit :: label) value zero one⟩

/-- The keys of a subtrie are no longer than the width. -/
def Fits (N : Nat) : Nat → Trie T → Prop
  | _, .empty => True
  | depth, .node label _ zero one =>
    depth + 1 + label.length ≤ N ∧ Fits N (depth + 1 + label.length) zero ∧
      Fits N (depth + 1 + label.length) one

theorem fits_side (bit : Bool) {depth : Nat} {zero one : Trie T} (zeroFits : Fits N depth zero)
    (oneFits : Fits N depth one) : Fits N depth (side zero one bit) := by
  cases bit
  · exact zeroFits
  · exact oneFits

/-! ## Children -/

section
variable {path label : List Bool} {value : Option T} {zero one : Trie T}

theorem edge_node (bit : Bool) (rest : RadixChildren N T) :
    edge path bit (.node label value zero one) rest =
      .inner (ofBits N (bit :: label)) path.length (kids (path ++ bit :: label) value zero one)
        rest := rfl

@[simp] theorem edge_empty (bit : Bool) (rest : RadixChildren N T) :
    edge path bit .empty rest = rest := rfl

theorem putLeaf_kids (v : T) :
    (kids path value zero one : RadixChildren N T).putLeaf (ofBits N path, v) =
      kids path (some v) zero one := by
  cases value with
  | some w => rfl
  | none =>
    cases zero with
    | node label w z o =>
      simp [kids, leafOf, edge, RadixChildren.putLeaf, ofBits_ne_nul]
    | empty =>
      cases one with
      | node label w z o => simp [kids, leafOf, edge, RadixChildren.putLeaf, ofBits_ne_nul]
      | empty => rfl

theorem remove_nul (path : List Bool) (value : Option T) (zero one : Trie T) :
    (kids path value zero one : RadixChildren N T).remove nul =
    kids path none zero one := by
  have edges : (edge path false zero (edge path true one .nil) : RadixChildren N T).remove nul =
      edge path false zero (edge path true one .nil) := by
    cases zero <;> cases one <;> simp [edge, RadixChildren.remove, ofBits_ne_nul]
  cases value with
  | none => exact edges
  | some w => simp [kids, leafOf, RadixChildren.remove]

theorem nulLeaf_kids : (kids path value zero one : RadixChildren N T).nulLeaf =
    value.map fun v => (ofBits N path, v) := by
  cases value with
  | some v => rfl
  | none => cases zero <;> cases one <;> simp [kids, leafOf, edge, RadixChildren.nulLeaf]

/-- The subtrie on a side is absent or is entered through a label. -/
def EntersBy (label : List Bool) (t : Trie T) : Prop :=
  t = .empty ∨ ∃ value zero one, t = .node label value zero one

/-- A child takes the place of the child with its key. -/
theorem put_kids (bit : Bool) {label' : List Bool} (value' : Option T) (zero' one' : Trie T)
    (fits : label'.length < N) (zeroFits : Fits N path.length zero)
    (oneFits : Fits N path.length one) (enters : EntersBy label' (side zero one bit)) :
    (kids path value zero one : RadixChildren N T).put (child N path bit label' value' zero' one') =
      kidsOf path (branch [] value bit (.node label' value' zero' one') (side zero one !bit)) := by
  have edges : (edge path false zero (edge path true one .nil) : RadixChildren N T).put
      (child N path bit label' value' zero' one') =
        edge path false (if bit then zero else .node label' value' zero' one')
          (edge path true (if bit then .node label' value' zero' one' else one) .nil) := by
    cases bit
    · rcases enters with empty | ⟨w, z, o, here⟩
      · simp only [side] at empty
        subst empty
        cases one with
        | empty => rfl
        | node label w z o =>
          have first := (less_of_bits (N := N) (l := label') (m := label) fits
            (by have := oneFits.1; omega)).1
          simp [edge, RadixChildren.put, child, first, kids]
      · simp only [side] at here
        subst here
        simp [edge, RadixChildren.put, child, less_irrefl, kids]
    · rcases enters with empty | ⟨w, z, o, here⟩
      · simp only [side] at empty
        subst empty
        cases zero with
        | empty => rfl
        | node label w z o =>
          have second := less_of_bits (N := N) (l := label) (m := label')
            (by have := zeroFits.1; omega) fits
          simp [edge, RadixChildren.put, child, second, kids]
      · simp only [side] at here
        subst here
        cases zero with
        | empty => simp [edge, RadixChildren.put, child, less_irrefl, kids]
        | node label w z o =>
          have second := less_of_bits (N := N) (l := label) (m := label')
            (by have := zeroFits.1; omega) fits
          simp [edge, RadixChildren.put, child, second, less_irrefl, kids]
  have inner : (child N path bit label' value' zero' one').key ≠ nul := ofBits_ne_nul bit label'
  cases value with
  | none =>
    refine edges.trans ?_
    cases bit <;> rfl
  | some v =>
    simp only [kids, leafOf, RadixChildren.put, if_neg inner, edges]
    cases bit <;> rfl

theorem remove_kids (bit : Bool) {label' : List Bool} {value' : Option T} {zero' one' : Trie T}
    (zeroFits : Fits N path.length zero) (oneFits : Fits N path.length one)
    (here : side zero one bit = .node label' value' zero' one') :
    (kids path value zero one : RadixChildren N T).remove (ofBits N (bit :: label')) =
      kidsOf path (branch [] value bit .empty (side zero one !bit)) := by
  have edges : (edge path false zero (edge path true one .nil) : RadixChildren N T).remove
      (ofBits N (bit :: label')) =
        edge path false (if bit then zero else .empty)
          (edge path true (if bit then .empty else one) .nil) := by
    cases bit
    · simp only [side] at here
      subst here
      simp [edge, RadixChildren.remove]
    · simp only [side] at here
      subst here
      cases zero with
      | empty => simp [edge, RadixChildren.remove]
      | node label w z o =>
        have apart : ofBits N (false :: label) ≠ ofBits N (true :: label') := by
          intro same
          have lists := ofBits_injective
            (by have := zeroFits.1; simp only [List.length_cons]; omega) same
          cases lists
        simp [edge, RadixChildren.remove, apart]
  have inner : ofBits N (bit :: label') ≠ nul := ofBits_ne_nul bit label'
  cases value with
  | none =>
    refine edges.trans ?_
    cases bit <;> rfl
  | some v =>
    simp only [kids, leafOf, RadixChildren.remove, if_neg inner, edges]
    cases bit <;> rfl

end

section
variable {path : List Bool} {value : Option T} {zero one : Trie T}

/-- A child takes the place of a child with another key. -/
theorem replace_kids (bit : Bool) {label label' : List Bool} {v v' : Option T}
    {z o z' o' : Trie T} (fits : label'.length < N) (zeroFits : Fits N path.length zero)
    (oneFits : Fits N path.length one) (here : side zero one bit = .node label v z o) :
    ((kids path value zero one : RadixChildren N T).remove (ofBits N (bit :: label))).put
        (child N path bit label' v' z' o') =
      kidsOf path (branch [] value bit (.node label' v' z' o') (side zero one !bit)) := by
  rw [remove_kids bit zeroFits oneFits here]
  cases bit
  · exact put_kids false v' z' o' fits trivial oneFits (.inl rfl)
  · exact put_kids true v' z' o' fits zeroFits trivial (.inl rfl)

end

/-! ## Searching -/

section
variable {path label rest : List Bool} {value : Option T} {zero one : Trie T} {bit : Bool}
  {self : RadixNode N T} {parents : List (RadixNode N T)}

/-- What is left of a key at a node. -/
theorem left_length (path rest : List Bool) (small : N < 2 ^ 31) (fits : (path ++ rest).length ≤ N) :
    radixLength (ofBits N (path ++ rest)) - path.length = rest.length := by
  rw [radixLength_ofBits (by omega), List.length_append]
  omega

theorem bit_here (fits : (path ++ bit :: rest).length ≤ N) :
    (ofBits N (path ++ bit :: rest)).bit path.length = bit := by
  rw [bit_ofBits fits]
  simp

theorem bit_first (bit : Bool) (label : List Bool) (fits : label.length < N) :
    (ofBits N (bit :: label)).bit 0 = bit := by
  have here := bit_ofBits (N := N) (l := bit :: label) fits 0
  simpa using here

/-- The search for a key ends at its node. -/
theorem find_value (small : N < 2 ^ 31) (fits : path.length ≤ N) (v : T) :
    (kids path (some v) zero one).findIn (ofBits N path) path.length self parents =
      (.leaf (ofBits N path, v), self :: parents) := by
  have left := left_length (N := N) path [] small (by simpa using fits)
  rw [List.append_nil] at left
  simp [kids, leafOf, RadixChildren.findIn, left]

theorem find_no_value (small : N < 2 ^ 31) (fits : path.length ≤ N) :
    (kids path none zero one).findIn (ofBits N path) path.length self parents =
      (.inner self, parents) := by
  have left := left_length (N := N) path [] small (by simpa using fits)
  rw [List.append_nil] at left
  cases zero <;> cases one <;> simp [kids, leafOf, edge, RadixChildren.findIn, left]

/-- A search that goes on stops at a node without a child for its next bit. -/
theorem find_absent (small : N < 2 ^ 31) (fits : (path ++ bit :: rest).length ≤ N)
    (zeroFits : Fits N path.length zero) (oneFits : Fits N path.length one)
    (absent : side zero one bit = .empty) :
    (kids path value zero one).findIn (ofBits N (path ++ bit :: rest)) path.length self parents =
      (.inner self, parents) := by
  have left : radixLength (ofBits N (path ++ bit :: rest)) - path.length ≠ 0 := by
    rw [left_length path (bit :: rest) small fits]
    simp only [List.length_cons]
    omega
  have here := bit_here fits
  cases bit
  · simp only [side] at absent
    subst absent
    cases one with
    | empty => cases value <;> simp [kids, leafOf, edge, RadixChildren.findIn, left]
    | node label w z o =>
      have first := bit_first (N := N) true label
        (by have := oneFits.1; omega)
      cases value <;> simp [kids, leafOf, edge, RadixChildren.findIn, left, here, first]
  · simp only [side] at absent
    subst absent
    cases zero with
    | empty => cases value <;> simp [kids, leafOf, edge, RadixChildren.findIn, left]
    | node label w z o =>
      have first := bit_first (N := N) false label
        (by have := zeroFits.1; omega)
      cases value <;> simp [kids, leafOf, edge, RadixChildren.findIn, left, here, first]

/-- A search that comes to the child for its next bit goes down, if it passes the
whole label. -/
theorem find_edge (small : N < 2 ^ 31) (fits : (path ++ bit :: rest).length ≤ N)
    (within : path.length + 1 + label.length ≤ N) (behind : RadixChildren N T) :
    (edge path bit (.node label value zero one) behind).findIn
      (ofBits N (path ++ bit :: rest)) path.length self parents =
      if radixSubstr (ofBits N (path ++ bit :: rest)) path.length (label.length + 1 : Nat) =
          ofBits N (bit :: label) then
        (kids (path ++ bit :: label) value zero one).findIn (ofBits N (path ++ bit :: rest))
          (path ++ bit :: label).length (child N path bit label value zero one) (self :: parents)
      else (.inner (child N path bit label value zero one), self :: parents) := by
  have left : radixLength (ofBits N (path ++ bit :: rest)) - path.length ≠ 0 := by
    rw [left_length path (bit :: rest) small fits]
    simp only [List.length_cons]
    omega
  have same : (ofBits N (path ++ bit :: rest)).bit path.length = (ofBits N (bit :: label)).bit 0 := by
    rw [bit_here fits, bit_first _ _ (by omega)]
  have width := radixLength_ofBits (N := N) (l := bit :: label)
    (by simp only [List.length_cons]; omega)
  have deeper : (path.length : Int) + ((bit :: label).length : Nat) =
      ((path ++ bit :: label).length : Nat) := by
    rw [List.length_append, Nat.cast_add]
  rw [edge_node, RadixChildren.findIn, if_pos ⟨left, same⟩, width, deeper]
  rfl

/-- A search that goes on comes to the child for its next bit. -/
theorem find_child (value : Option T) (self : RadixNode N T) (parents : List (RadixNode N T))
    (small : N < 2 ^ 31) (fits : (path ++ bit :: rest).length ≤ N)
    (zeroFits : Fits N path.length zero)
    (present : side zero one bit ≠ .empty) : ∃ behind : RadixChildren N T,
    (kids path value zero one).findIn (ofBits N (path ++ bit :: rest)) path.length self parents =
      (edge path bit (side zero one bit) behind).findIn (ofBits N (path ++ bit :: rest))
        path.length self parents := by
  have left : radixLength (ofBits N (path ++ bit :: rest)) - path.length ≠ 0 := by
    rw [left_length path (bit :: rest) small fits]
    simp only [List.length_cons]
    omega
  have edges : ∃ behind : RadixChildren N T, (edge path false zero (edge path true one .nil)).findIn
      (ofBits N (path ++ bit :: rest)) path.length self parents =
        (edge path bit (side zero one bit) behind).findIn (ofBits N (path ++ bit :: rest))
          path.length self parents := by
    cases bit
    · exact ⟨_, rfl⟩
    · cases zero with
      | empty => exact ⟨_, rfl⟩
      | node label w z o =>
        have other := bit_first (N := N) false label
          (by have := zeroFits.1; omega)
        refine ⟨.nil, ?_⟩
        rw [edge_node, RadixChildren.findIn, if_neg (by rw [bit_here fits, other]; simp)]
        rfl
  obtain ⟨behind, edges⟩ := edges
  refine ⟨behind, ?_⟩
  cases value with
  | none => exact edges
  | some v =>
    simp only [kids, leafOf, RadixChildren.findIn, if_neg left]
    exact edges

/-- Whether the search passes a label depends on the bits behind the key, too, if
the label is longer than what is left of the key. -/
theorem passes_iff (small : N < 2 ^ 31) (fits : (path ++ bit :: rest).length ≤ N)
    (within : path.length + 1 + label.length ≤ N) :
    radixSubstr (ofBits N (path ++ bit :: rest)) path.length (label.length + 1 : Nat) =
        ofBits N (bit :: label) ↔
      label <+: rest ++ List.replicate (N - (path ++ bit :: rest).length) false := by
  have cut : ((padded N (path ++ bit :: rest)).drop path.length).take (label.length + 1) =
      bit :: (rest ++ List.replicate (N - (path ++ bit :: rest).length) false).take
        label.length := by
    rw [padded, List.append_assoc, List.drop_left, List.cons_append, List.take_succ_cons]
  rw [radixSubstr_ofBits small fits (by omega), cut, List.prefix_iff_eq_take]
  constructor
  · intro same
    have lists := ofBits_injective ?_ same
    · exact (List.cons.inj lists).2.symm
    · simp only [List.length_cons, List.length_take]
      omega
  · intro same
    rw [← same]

theorem passes_of_start (small : N < 2 ^ 31) (fits : (path ++ bit :: rest).length ≤ N)
    (start : label <+: rest) :
    radixSubstr (ofBits N (path ++ bit :: rest)) path.length (label.length + 1 : Nat) =
      ofBits N (bit :: label) := by
  have short := start.length_le
  simp only [List.length_append, List.length_cons] at fits
  refine (passes_iff small ?_ ?_).mpr (start.trans (List.prefix_append _ _))
  · simpa using fits
  · omega

/-- The zeros that follow the bits of a key. -/
theorem side_cases (label rest : List Bool) (width : Nat) :
    (∃ s, rest = label ++ s) ∨ (∃ m, label = rest ++ List.replicate (m + 1) false) ∨
      ¬ label <+: rest ++ List.replicate width false := by
  by_cases passes : label <+: rest ++ List.replicate width false
  · rcases Nat.lt_or_ge rest.length label.length with beyond | within
    · obtain ⟨zeros, rfl⟩ := List.prefix_of_prefix_length_le (List.prefix_append rest _) passes
        (Nat.le_of_lt beyond)
      rw [List.prefix_append_right_inj, List.prefix_replicate_iff] at passes
      rw [List.length_append] at beyond
      refine .inr (.inl ⟨zeros.length - 1, ?_⟩)
      rw [Nat.sub_add_cancel (by omega), ← passes.2]
    · obtain ⟨s, rfl⟩ := List.prefix_of_prefix_length_le passes (List.prefix_append rest _) within
      exact .inl ⟨s, rfl⟩
  · exact .inr (.inr passes)

variable {label' : List Bool} {value' : Option T} {zero' one' : Trie T}

theorem find_turn (path : List Bool) (value : Option T) (self : RadixNode N T)
    (parents : List (RadixNode N T)) (small : N < 2 ^ 31) (fits : (path ++ bit :: rest).length ≤ N)
    (zeroFits : Fits N path.length zero) (oneFits : Fits N path.length one)
    (present : side zero one bit = .node label' value' zero' one') :
    (kids path value zero one).findIn (ofBits N (path ++ bit :: rest)) path.length self parents =
      if label' <+: rest ++ List.replicate (N - (path ++ bit :: rest).length) false then
        (kids (path ++ bit :: label') value' zero' one').findIn (ofBits N (path ++ bit :: rest))
          (path ++ bit :: label').length (child N path bit label' value' zero' one')
          (self :: parents)
      else (.inner (child N path bit label' value' zero' one'), self :: parents) := by
  have childFits := fits_side bit zeroFits oneFits
  rw [present] at childFits
  obtain ⟨behind, search⟩ := find_child value self parents small fits zeroFits (by rw [present]; simp)
  rw [search, present, find_edge small fits childFits.1]
  simp only [passes_iff small fits childFits.1]

end

end NetifyAgent.RadixTrie
