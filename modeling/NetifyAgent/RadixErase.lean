import NetifyAgent.RadixInsert

/-! `erase` removes from the trie that a radix tree keeps. A node that is left
without children goes, and a node that is left with one edge is joined with the
node behind it; the root is neither. A key that is not stored is not found, also
where the search passes an edge that ends behind the key. -/
namespace NetifyAgent.RadixErase
open NetifyAgent.RadixKeys NetifyAgent.RadixTrie NetifyAgent.RadixInsert Trie RadixNode RadixTree

variable {N : Nat} {T : Type}

/-! ## Exact search -/

/-- A search that has not come to a leaf. -/
def NoLeaf (found : RadixFound N T × List (RadixNode N T)) : Prop :=
  ∃ node parents, found = (.inner node, parents)

/-- The value of the leaf that a search has come to. -/
def leafValue : RadixFound N T × List (RadixNode N T) → Option T
  | (.leaf value, _) => some value.2
  | (.inner _, _) => none

theorem noLeaf_iff (found : RadixFound N T × List (RadixNode N T)) :
    NoLeaf found ↔ leafValue found = none := by
  obtain ⟨last, parents⟩ := found
  cases last with
  | leaf value => simp [NoLeaf, leafValue]
  | inner last => exact ⟨fun _ => rfl, fun _ => ⟨last, parents, rfl⟩⟩

theorem path_length (path label : List Bool) (bit : Bool) :
    (path ++ bit :: label).length = path.length + 1 + label.length := by
  simp only [List.length_append, List.length_cons]
  omega

/-- Behind the end of its key a search comes to no leaf. -/
theorem find_behind (small : N < 2 ^ 31) (t : Trie T) (path : List Bool)
    {key : RadixNetworkEntry N} (fits : Fits N path.length t)
    (behind : radixLength key < path.length) (bit : Bool) (self : RadixNode N T)
    (parents : List (RadixNode N T)) (rest : RadixChildren N T)
    (others : NoLeaf (rest.findIn key path.length self parents)) :
    NoLeaf ((edge path bit t rest).findIn key path.length self parents) := by
  induction t generalizing path bit self parents rest with
  | empty => exact others
  | node label value zero one zeroIh oneIh =>
    obtain ⟨within, zeroFits, oneFits⟩ := fits
    rw [edge_node, RadixChildren.findIn]
    split
    · split
      · have ends := child_ends bit value zero one small within
        have deeper := path_length path label bit
        simp only [child] at ends
        rw [ends]
        rw [← deeper] at zeroFits oneFits
        have behind' : radixLength key < (path ++ bit :: label).length := by omega
        have edges := zeroIh (path ++ bit :: label) zeroFits behind' false
          ⟨ofBits N (bit :: label), path.length, kids (path ++ bit :: label) value zero one⟩
          (self :: parents) _ (oneIh (path ++ bit :: label) oneFits behind' true _ _ .nil ⟨_, _, rfl⟩)
        cases value with
        | none => exact edges
        | some v =>
          rw [kids, leafOf, RadixChildren.findIn, if_neg (by omega)]
          exact edges
      · exact ⟨_, _, rfl⟩
    · exact others

/-- **Exact search**: a leaf is found for the keys that are stored. -/
theorem find_below (small : N < 2 ^ 31) (t : Trie T) (path s label : List Bool)
    {value : Option T} {zero one : Trie T} (found : t = .node label value zero one)
    (self : RadixNode N T) (parents : List (RadixNode N T)) (fits : (path ++ s).length ≤ N)
    (zeroFits : Fits N path.length zero) (oneFits : Fits N path.length one) :
    leafValue ((kids path value zero one).findIn (ofBits N (path ++ s)) path.length self parents) =
      t.lookup (label ++ s) := by
  induction t generalizing path s label value zero one self parents with
  | empty => cases found
  | node label value zero one zeroIh oneIh =>
    cases found
    cases s with
    | nil =>
      rw [List.append_nil] at fits
      rw [List.append_nil, List.append_nil, lookup_here]
      cases value with
      | none => rw [find_no_value small fits, leafValue]
      | some x => rw [find_value small fits, leafValue]
    | cons bit rest =>
      rw [lookup_below]
      cases present : side zero one bit with
      | empty =>
        rw [find_absent small fits zeroFits oneFits present]
        rfl
      | node label' value' zero' one' =>
        have childFits := fits_side bit zeroFits oneFits
        rw [present] at childFits
        have lower := childFits.2
        rw [← path_length path label' bit] at lower
        rw [find_turn path value self parents small fits zeroFits oneFits present]
        obtain ⟨s, rfl⟩ | ⟨m, rfl⟩ | aside :=
          side_cases label' rest (N - (path ++ bit :: rest).length)
        · rw [if_pos ((List.prefix_append _ _).trans (List.prefix_append _ _)), ← present]
          have deeper : path ++ bit :: (label' ++ s) = (path ++ bit :: label') ++ s := by simp
          rw [deeper] at fits ⊢
          cases bit
          · exact zeroIh _ s label' present _ _ fits lower.1 lower.2
          · exact oneIh _ s label' present _ _ fits lower.1 lower.2
        · have missing : (node (rest ++ List.replicate (m + 1) false) value' zero' one').lookup rest =
              none := by
            refine lookup_aside fun passes => ?_
            have longer := passes.length_le
            rw [List.length_append, List.length_replicate] at longer
            omega
          rw [missing, ← noLeaf_iff]
          split
          · have behind : radixLength (ofBits N (path ++ bit :: rest)) <
                (path ++ bit :: (rest ++ List.replicate (m + 1) false)).length := by
              rw [radixLength_ofBits (by omega)]
              simp only [List.length_append, List.length_cons, List.length_replicate]
              omega
            have edges := find_behind small zero' _ lower.1 behind false
              (child N path bit (rest ++ List.replicate (m + 1) false) value' zero' one')
              (self :: parents) _ (find_behind small one' _ lower.2 behind true _ _ .nil ⟨_, _, rfl⟩)
            cases value' with
            | none => exact edges
            | some v =>
              rw [kids, leafOf, RadixChildren.findIn, if_neg (by omega)]
              exact edges
          · exact ⟨_, _, rfl⟩
        · rw [if_neg aside, lookup_aside fun start => aside (start.trans (List.prefix_append _ _))]
          rfl

/-! ## Superfluous nodes -/

section
variable {path label : List Bool} {value : Option T} {zero one here there : Trie T} {bit : Bool}
  {self : RadixNode N T} {up : List (RadixNode N T)}

/-- A node with a child and something else is not joined with the child. -/
theorem merge_useful {below : List Bool} {v : Option T} {z o : Trie T}
    (useful : up = [] ∨ value ≠ none ∨ there ≠ .empty) :
    merge { self with children := kidsOf path (branch [] value bit (.node below v z o) there) } up =
      rebuild
        { self with children := kidsOf path (branch [] value bit (.node below v z o) there) } up := by
  cases up with
  | nil => rfl
  | cons above up =>
    unfold merge
    cases value with
    | some w => cases bit <;> rfl
    | none =>
      obtain ⟨label, w, z', o', rfl⟩ : ∃ label w z' o', there = .node label w z' o' := by
        cases there with
        | empty => simp at useful
        | node label w z' o' => exact ⟨_, _, _, _, rfl⟩
      cases bit <;> rfl

variable {label' below : List Bool} {value' w : Option T} {zero' one' z o : Trie T} {turn : Bool}

theorem rebuild_child (value' : Option T) (zero' one' : Trie T) (up : List (RadixNode N T))
    (fits : label'.length < N) (children : self.children = kids path value zero one)
    (zeroFits : Fits N path.length zero) (oneFits : Fits N path.length one)
    (enters : EntersBy label' (side zero one bit)) :
    rebuild (child N path bit label' value' zero' one') (self :: up) =
      rebuild
        { self with
          children := kidsOf path
            (branch [] value bit (.node label' value' zero' one') (side zero one !bit)) }
        up := by
  rw [rebuild, children]
  refine congrArg (fun children => rebuild { self with children := children } up) ?_
  exact put_kids bit value' zero' one' fits zeroFits oneFits enters

/-- A node with one edge and nothing else is joined with the node behind it. -/
theorem merge_single (up : List (RadixNode N T)) (small : N < 2 ^ 31)
    (children : self.children = kids path value zero one)
    (zeroFits : Fits N path.length zero) (oneFits : Fits N path.length one)
    (present : side zero one bit = .node label' value' zero' one')
    (fits : (path ++ bit :: (label' ++ turn :: below)).length ≤ N) :
    merge ⟨ofBits N (bit :: label'), path.length,
        kidsOf (path ++ bit :: label') (branch [] none turn (.node below w z o) .empty)⟩ (self :: up) =
      rebuild
        { self with
          children := kidsOf path
              (branch [] value bit (.node (label' ++ turn :: below) w z o) (side zero one !bit)) }
        up := by
  have length := path_length path (label' ++ turn :: below) bit
  have joined : radixJoin (ofBits N (bit :: label')) (ofBits N (turn :: below)) =
      ofBits N (bit :: (label' ++ turn :: below)) :=
    radixJoin_ofBits small (by rw [List.cons_append, List.length_cons]; omega)
  have uncle : (⟨radixJoin (ofBits N (bit :: label')) (ofBits N (turn :: below)), path.length,
      kids ((path ++ bit :: label') ++ turn :: below) w z o⟩ : RadixNode N T) =
        child N path bit (label' ++ turn :: below) w z o := by
    rw [joined, child, List.append_assoc, List.cons_append]
  have single : (kidsOf (path ++ bit :: label') (branch [] none turn (.node below w z o) .empty) :
      RadixChildren N T) = .inner (ofBits N (turn :: below)) (path ++ bit :: label').length
        (kids ((path ++ bit :: label') ++ turn :: below) w z o) .nil := by
    cases turn <;> rfl
  rw [single, merge]
  simp only
  rw [uncle, children]
  refine congrArg (fun children => rebuild { self with children := children } up) ?_
  exact replace_kids bit (by omega) zeroFits oneFits present

/-- What is left of a child is joined with the node behind it where `collapse`
joins them. -/
theorem merge_child (small : N < 2 ^ 31) (children : self.children = kids path value zero one)
    (zeroFits : Fits N path.length zero) (oneFits : Fits N path.length one)
    (present : side zero one bit = .node label' value' zero' one')
    (useful : up = [] ∨ value ≠ none ∨ side zero one (!bit) ≠ .empty)
    (leftFits : Fits N path.length (.node label' w z o))
    (left : ¬ (w = none ∧ z = .empty ∧ o = .empty)) :
    merge (child N path bit label' w z o) (self :: up) =
      merge
        { self with
          children := kidsOf path
            (branch [] value bit (collapse label' w z o) (side zero one !bit)) } up := by
  have enters : EntersBy label' (side zero one bit) := .inr ⟨_, _, _, present⟩
  have short : label'.length < N := by
    have within := leftFits.1
    omega
  have kept {w : Option T} {z o : Trie T} :=
    rebuild_child w z o up short children zeroFits oneFits enters
  have deep (turn : Bool) {below : List Bool}
      (fits : path.length + 1 + label'.length + 1 + below.length ≤ N) :
      (path ++ bit :: (label' ++ turn :: below)).length ≤ N := by
    simp only [List.length_append, List.length_cons]
    omega
  have joined {turn : Bool} {below : List Bool} {w : Option T} {z o : Trie T}
      (fits : path.length + 1 + label'.length + 1 + below.length ≤ N) :=
    merge_single (w := w) (z := z) (o := o) up small children zeroFits oneFits present
      (deep turn fits)
  obtain ⟨_, zFits, oFits⟩ := leftFits
  cases w with
  | some v =>
    rw [collapse_useful (.inl (by simp)), merge_useful useful, ← kept]
    rfl
  | none =>
    cases z with
    | empty =>
      cases o with
      | empty => exact absurd ⟨rfl, rfl, rfl⟩ left
      | node below w z o =>
        rw [collapse, merge_useful useful, ← joined oFits.1]
        rfl
    | node below w z' o' =>
      cases o with
      | empty =>
        rw [collapse, merge_useful useful, ← joined zFits.1]
        rfl
      | node _ _ _ _ =>
        rw [collapse_useful (.inr ⟨by simp, by simp⟩), merge_useful useful, ← kept]
        rfl

end

/-! ## Removal -/

theorem fits_collapse {depth : Nat} {label : List Bool} {value : Option T} {zero one : Trie T}
    (fits : Fits N depth (.node label value zero one)) :
    Fits N depth (collapse label value zero one) := by
  obtain ⟨within, zeroFits, oneFits⟩ := fits
  have deeper (turn : Bool) (below : List Bool) :
      depth + 1 + (label ++ turn :: below).length = depth + 1 + label.length + 1 + below.length := by
    simp only [List.length_append, List.length_cons]
    omega
  unfold collapse
  split
  · trivial
  · unfold Fits at zeroFits ⊢
    rwa [deeper]
  · unfold Fits at oneFits ⊢
    rwa [deeper]
  · exact ⟨within, zeroFits, oneFits⟩

theorem fits_erase {depth : Nat} {t : Trie T} (fits : Fits N depth t) (key : List Bool) :
    Fits N depth (t.erase key) := by
  induction t generalizing depth key with
  | empty => trivial
  | node label value zero one zeroIh oneIh =>
    obtain ⟨within, zeroFits, oneFits⟩ := fits
    rcases key_cases label key with rfl | ⟨bit, rest, rfl⟩ | aside
    · rw [erase_here]
      exact fits_collapse ⟨within, zeroFits, oneFits⟩
    · rw [erase_below]
      cases bit
      · exact fits_collapse ⟨within, zeroIh zeroFits rest, oneFits⟩
      · exact fits_collapse ⟨within, zeroFits, oneIh oneFits rest⟩
    · rw [erase_aside aside]
      exact ⟨within, zeroFits, oneFits⟩

section
variable {path label : List Bool} {value : Option T} {zero one : Trie T} {bit : Bool}
  {self : RadixNode N T} {up : List (RadixNode N T)} {label' : List Bool} {x : T}
  {value' : Option T} {zero' one' : Trie T}

/-- The leaf of a node's own network goes. -/
theorem erase_own (small : N < 2 ^ 31) (children : self.children = kids path value zero one)
    (zeroFits : Fits N path.length zero) (oneFits : Fits N path.length one)
    (present : side zero one bit = .node label' (some x) zero' one')
    (useful : up = [] ∨ value ≠ none ∨ side zero one (!bit) ≠ .empty) :
    eraseLeaf (child N path bit label' (some x) zero' one') (self :: up) =
      merge
        { self with
          children := kidsOf path
            (branch [] value bit (collapse label' none zero' one') (side zero one !bit)) } up := by
  have childFits := fits_side bit zeroFits oneFits
  rw [present] at childFits
  have leaf : (child N path bit label' (some x) zero' one').children.remove nul =
      kids (path ++ bit :: label') none zero' one' := by
    exact remove_nul (path ++ bit :: label') (some x) zero' one'
  by_cases left : zero' = .empty ∧ one' = .empty
  · obtain ⟨rfl, rfl⟩ := left
    unfold eraseLeaf
    simp only [leaf]
    have bare : (kids (path ++ bit :: label') none .empty .empty : RadixChildren N T).size = 0 := rfl
    rw [bare, if_neg (by omega), if_pos rfl, children]
    refine congrArg (fun children => merge { self with children := children } up) ?_
    exact remove_kids bit zeroFits oneFits present
  · have noneFits : Fits N path.length (.node label' none zero' one') := childFits
    rw [← merge_child small children zeroFits oneFits present useful noneFits (by simpa using left)]
    unfold eraseLeaf
    simp only [leaf]
    cases zero' <;> cases one'
    · exact absurd ⟨rfl, rfl⟩ left
    all_goals rfl

/-- **Removal** of a key that is stored below a child. -/
theorem erase_child (small : N < 2 ^ 31) (t : Trie T) (path s : List Bool)
    (value : Option T) {zero one : Trie T} {bit : Bool} (self : RadixNode N T)
    (up : List (RadixNode N T)) {label' : List Bool} {value' : Option T} {zero' one' : Trie T}
    {x : T} (found : t = .node label' value' zero' one')
    (fits : ((path ++ bit :: label') ++ s).length ≤ N)
    (children : self.children = kids path value zero one)
    (zeroFits : Fits N path.length zero) (oneFits : Fits N path.length one)
    (compressed : t.Compressed) (present : side zero one bit = t)
    (useful : up = [] ∨ value ≠ none ∨ side zero one (!bit) ≠ .empty)
    (stored : t.lookup (label' ++ s) = some x) :
    ∃ leaf parent above,
      (kids (path ++ bit :: label') value' zero' one').findIn
        (ofBits N ((path ++ bit :: label') ++ s)) (path ++ bit :: label').length
        (child N path bit label' value' zero' one') (self :: up) = (.leaf leaf, parent :: above) ∧
      eraseLeaf parent above = merge
        { self with
          children := kidsOf path
            (branch [] value bit (t.erase (label' ++ s)) (side zero one !bit)) } up := by
  induction t generalizing path s value zero one bit self up label' value' zero' one' with
  | empty => cases found
  | node label₀ value₀ zero₀ one₀ zeroIh oneIh =>
    cases found
    have childFits := fits_side bit zeroFits oneFits
    rw [present] at childFits
    obtain ⟨within, zeroFits', oneFits'⟩ := childFits
    rw [← path_length path label₀ bit] at zeroFits' oneFits'
    cases s with
    | nil =>
      rw [List.append_nil, lookup_here] at stored
      subst stored
      rw [List.append_nil] at fits ⊢
      refine ⟨_, _, _, find_value small fits x, ?_⟩
      rw [List.append_nil, erase_here]
      exact erase_own small children zeroFits oneFits present useful
    | cons bit' rest =>
      rw [lookup_below] at stored
      obtain ⟨ok, zeroOk, oneOk⟩ := compressed
      have childOk := compressed_side bit' zeroOk oneOk
      cases present' : side zero₀ one₀ bit' with
      | empty => simp [present'] at stored
      | node label₁ value₁ zero₁ one₁ =>
        obtain ⟨s, rfl⟩ : label₁ <+: rest := by
          by_contra aside
          rw [present', lookup_aside aside] at stored
          cases stored
        rw [find_turn _ _ _ _ small fits zeroFits' oneFits' present',
          if_pos ((List.prefix_append _ _).trans (List.prefix_append _ _))]
        have deeper : (path ++ bit :: label₀) ++ bit' :: (label₁ ++ s) =
            ((path ++ bit :: label₀) ++ bit' :: label₁) ++ s := by
          simp
        rw [deeper] at fits ⊢
        have others : value₀ ≠ none ∨ side zero₀ one₀ (!bit') ≠ .empty := by
          refine ok.imp_right fun both => ?_
          cases bit'
          · exact both.2
          · exact both.1
        have recursion : ∃ leaf parent above,
            (kids ((path ++ bit :: label₀) ++ bit' :: label₁) value₁ zero₁ one₁).findIn
              (ofBits N (((path ++ bit :: label₀) ++ bit' :: label₁) ++ s))
              ((path ++ bit :: label₀) ++ bit' :: label₁).length
              (child N (path ++ bit :: label₀) bit' label₁ value₁ zero₁ one₁)
              (child N path bit label₀ value₀ zero₀ one₀ :: self :: up) =
                (.leaf leaf, parent :: above) ∧
            eraseLeaf parent above = merge
              { child N path bit label₀ value₀ zero₀ one₀ with
                children := kidsOf (path ++ bit :: label₀)
                  (branch [] value₀ bit' ((side zero₀ one₀ bit').erase (label₁ ++ s))
                    (side zero₀ one₀ !bit')) } (self :: up) := by
          cases bit'
          · exact zeroIh _ s _ _ _ present' fits rfl zeroFits' oneFits' zeroOk rfl (.inr others) stored
          · exact oneIh _ s _ _ _ present' fits rfl zeroFits' oneFits' oneOk rfl (.inr others) stored
        obtain ⟨leaf, parent, above, search, erased⟩ := recursion
        refine ⟨leaf, parent, above, search, erased.trans ?_⟩
        rw [erase_below]
        have leftFits : Fits N path.length (.node label₀ value₀
            (if bit' then zero₀ else zero₀.erase (label₁ ++ s))
            (if bit' then one₀.erase (label₁ ++ s) else one₀)) := by
          rw [← path_length path label₀ bit] at within
          unfold Fits
          rw [← path_length path label₀ bit]
          cases bit'
          · exact ⟨within, fits_erase zeroFits' _, oneFits'⟩
          · exact ⟨within, zeroFits', fits_erase oneFits' _⟩
        rw [← merge_child small children zeroFits oneFits present useful leftFits]
        · cases bit' <;> rfl
        · rintro ⟨none, zero, one⟩
          rcases others with stored | other
          · exact stored none
          · cases bit'
            · exact other one
            · exact other zero

end

end NetifyAgent.RadixErase
