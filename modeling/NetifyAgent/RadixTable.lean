import NetifyAgent.RadixErase

/-! What a radix tree stores, as a map from the prefixes of networks to values:
`assign` updates it, unless the network is eclipsed, `erase` clears one prefix
and `longest_match` finds the value of the longest stored prefix of an address. -/
namespace NetifyAgent.RadixTable
open NetifyAgent.RadixKeys NetifyAgent.RadixTrie NetifyAgent.RadixInsert NetifyAgent.RadixErase
open Trie RadixNode RadixTree

variable {N : Nat} {T : Type}

/-! ## Longest match -/

/-- What `longest_match` makes of the end of a search. -/
def answer (key : RadixNetworkEntry N) :
    RadixFound N T × List (RadixNode N T) → Option (RadixNetworkEntry N × T)
  | (.leaf value, _) => some value
  | (.inner last, parents) =>
    (passed key (.inner last, parents)).findSome? fun above => above.children.nulLeaf

theorem longestMatch_eq (tree : RadixTree N T) (key : RadixNetworkEntry N) :
    tree.longestMatch key = tree.root.bind fun root => answer key (root.findNode key) := by
  unfold longestMatch
  congr 1

/-- The value of the nearest of some nodes. -/
def nearest (nodes : List (RadixNode N T)) : Option T :=
  (nodes.findSome? fun above => above.children.nulLeaf).map Prod.snd

section
variable {path : List Bool} {value : Option T} {zero one : Trie T} {self : RadixNode N T}
  {parents : List (RadixNode N T)}

theorem nearest_cons (children : self.children = kids path value zero one) :
    nearest (self :: parents) = value.or (nearest parents) := by
  unfold nearest
  rw [List.findSome?_cons, children, nulLeaf_kids]
  cases value <;> rfl

theorem answer_matched {key : RadixNetworkEntry N} (here : At path key self) :
    (answer key (.inner self, parents)).map Prod.snd = nearest (self :: parents) := by
  unfold answer passed
  simp only
  rw [if_pos here.matched]
  rfl

end

/-- **Longest match** below a node that a search has passed. -/
theorem match_below (small : N < 2 ^ 31) (t : Trie T) (path s label : List Bool)
    {value : Option T} {zero one : Trie T} (found : t = .node label value zero one)
    {self : RadixNode N T} (parents : List (RadixNode N T)) (full : (path ++ s).length = N)
    (children : self.children = kids path value zero one)
    (here : At path (ofBits N (path ++ s)) self)
    (zeroFits : Fits N path.length zero) (oneFits : Fits N path.length one) :
    (answer (ofBits N (path ++ s)) ((kids path value zero one).findIn (ofBits N (path ++ s))
      path.length self parents)).map Prod.snd =
      (t.longest (label ++ s)).or (nearest parents) := by
  induction t generalizing path s label value zero one self parents with
  | empty => cases found
  | node label value zero one zeroIh oneIh =>
    cases found
    have fits := Nat.le_of_eq full
    cases s with
    | nil =>
      rw [List.append_nil] at fits here ⊢
      rw [List.append_nil, longest_here]
      cases value with
      | some x =>
        rw [find_value small fits]
        rfl
      | none =>
        rw [find_no_value small fits, answer_matched here, nearest_cons children]
    | cons bit rest =>
      rw [longest_below]
      cases present : side zero one bit with
      | empty =>
        rw [find_absent small fits zeroFits oneFits present, answer_matched here,
          nearest_cons children]
        rfl
      | node label' value' zero' one' =>
        have childFits := fits_side bit zeroFits oneFits
        rw [present] at childFits
        obtain ⟨within, lower⟩ := childFits
        rw [← path_length path label' bit] at lower
        rw [find_turn path value self parents small fits zeroFits oneFits present]
        obtain ⟨s, rfl⟩ | ⟨m, rfl⟩ | aside :=
          side_cases label' rest (N - (path ++ bit :: rest).length)
        · rw [if_pos ((List.prefix_append _ _).trans (List.prefix_append _ _))]
          have deeper : path ++ bit :: (label' ++ s) = (path ++ bit :: label') ++ s := by simp
          have matched := (child_matched value' zero' one' small within).mpr
            (passes_of_start small fits (List.prefix_append label' s))
          have ends := child_ends bit value' zero' one' small within
          rw [deeper] at full matched ⊢
          rw [← present, Option.or_assoc, ← nearest_cons children]
          cases bit
          · exact zeroIh _ s label' present _ full rfl ⟨ends, matched⟩ lower.1 lower.2
          · exact oneIh _ s label' present _ full rfl ⟨ends, matched⟩ lower.1 lower.2
        · -- an address is no shorter than a label
          exfalso
          simp only [List.length_append, List.length_cons, List.length_replicate] at within full
          omega
        · have outside : ¬ label' <+: rest := fun start => aside (start.trans (List.prefix_append _ _))
          rw [if_neg aside, longest_aside outside, Option.none_or, ← nearest_cons children, answer,
            passed, if_neg (mt ((child_matched _ _ _ small within).trans
              (passes_iff small fits within)).mp aside)]
          rfl

/-! ## Tables -/

/-- A radix tree keeps a trie, whose two halves hang from the root. -/
structure Keeps (tree : RadixTree N T) (zero one : Trie T) : Prop where
  root : tree.root.getD {} = ⟨nul, 0, kids [] none zero one⟩
  zeroFits : Fits N 0 zero
  oneFits : Fits N 0 one
  zeroOk : zero.Compressed
  oneOk : one.Compressed

/-- What a radix tree stores. -/
def Stores (tree : RadixTree N T) (stored : List Bool → Option T) : Prop :=
  ∃ zero one, Keeps tree zero one ∧ (node [] none zero one).lookup = stored

theorem stores_empty : Stores ({} : RadixTree N T) fun _ => none := by
  refine ⟨.empty, .empty, ⟨rfl, trivial, trivial, trivial, trivial⟩, ?_⟩
  funext key
  cases key with
  | nil => rfl
  | cons bit rest => cases bit <;> rfl

section
variable {tree : RadixTree N T} {zero one : Trie T} {stored : List Bool → Option T}

theorem keeps_none (keeps : Keeps tree zero one) (none : tree.root = none) :
    zero = .empty ∧ one = .empty := by
  have children := congrArg RadixNode.children keeps.root
  rw [none] at children
  cases zero <;> cases one
  · exact ⟨rfl, rfl⟩
  all_goals cases children

theorem keeps_some {root : RadixNode N T} (keeps : Keeps tree zero one)
    (some : tree.root = some root) : root = ⟨nul, 0, kids [] none zero one⟩ := by
  have same := keeps.root
  rwa [some] at same

/-- The root is passed by every search. -/
theorem at_root (small : N < 2 ^ 31) {key : List Bool} (fits : key.length ≤ N)
    (children : RadixChildren N T) : At [] (ofBits N key) (⟨nul, 0, children⟩ : RadixNode N T) := by
  have length : radixLength (nul : RadixNetworkEntry N) = 0 := radixLength_of nul (by simp [nul])
  refine ⟨by simp [length], ?_⟩
  simp only [length]
  have cut := radixSubstr_inside 0 0 small fits (Nat.zero_le _)
  rw [List.take_zero, ← nul_eq] at cut
  exact cut

/-- A network that no edge overruns is stored. -/
theorem stores_clear (small : N < 2 ^ 31) (keeps : Keeps tree zero one) {key : List Bool}
    (nonempty : key ≠ []) (fits : key.length ≤ N) (clear : ¬ Overruns (node [] none zero one) key)
    (x : T) : ∃ tree', tree.assign (ofBits N key) x = .ok tree' ∧
      Stores tree' (Function.update (node [] none zero one).lookup key (some x)) := by
  have assigned := assign_below (x := x) small ⟨nul, 0, kids [] none zero one⟩
    (node [] none zero one) [] key [] rfl [] fits rfl
    (at_root small fits (kids [] none zero one)) keeps.zeroFits keeps.oneFits clear
  obtain ⟨bit, rest, rfl⟩ := List.exists_cons_of_ne_nil nonempty
  have below : (node [] none zero one).insert (bit :: rest) x =
      branch [] none bit ((side zero one bit).insert rest x) (side zero one !bit) :=
    insert_below bit
  rw [List.nil_append] at assigned
  have within : 0 + 1 + rest.length ≤ N := by
    rw [List.length_cons] at fits
    omega
  refine ⟨⟨some ⟨nul, 0, kidsOf [] ((node [] none zero one).insert (bit :: rest) x)⟩⟩, ?_, ?_⟩
  · rw [RadixTree.assign, keeps.root]
    exact congrArg (Except.map fun root => (⟨some root⟩ : RadixTree N T)) assigned
  · rw [below]
    cases bit
    · refine ⟨zero.insert rest x, one, ⟨rfl, ?_, keeps.oneFits, ?_, keeps.oneOk⟩, ?_⟩
      · exact fits_insert keeps.zeroFits within
      · exact compressed_insert keeps.zeroOk rest x
      · exact (congrArg Trie.lookup below).symm.trans (lookup_insert _ _ x)
    · refine ⟨zero, one.insert rest x, ⟨rfl, keeps.zeroFits, ?_, keeps.zeroOk, ?_⟩, ?_⟩
      · exact fits_insert keeps.oneFits within
      · exact compressed_insert keeps.oneOk rest x
      · exact (congrArg Trie.lookup below).symm.trans (lookup_insert _ _ x)

/-- **Assignment**: a network that is not eclipsed is stored. -/
theorem stores_assign (small : N < 2 ^ 31) (stores : Stores tree stored) {key : List Bool}
    (nonempty : key ≠ []) (fits : key.length ≤ N)
    (visible : ¬ Eclipsed fun x => stored (key ++ x)) (x : T) :
    ∃ tree', tree.assign (ofBits N key) x = .ok tree' ∧
      Stores tree' (Function.update stored key (some x)) := by
  obtain ⟨zero, one, keeps, rfl⟩ := stores
  refine stores_clear small keeps nonempty fits (fun overruns => visible ?_) x
  refine eclipsed_of_overruns overruns fun label value z o same => ?_
  cases same
  exact ⟨keeps.zeroOk, keeps.oneOk⟩

/-- **Removal**: the prefix of a network is cleared, and it is reported whether it
was stored. -/
theorem stores_erase (small : N < 2 ^ 31) (stores : Stores tree stored) {key : List Bool}
    (nonempty : key ≠ []) (fits : key.length ≤ N) :
    (tree.erase (ofBits N key)).2 = (stored key).isSome ∧
      Stores (tree.erase (ofBits N key)).1 (Function.update stored key none) := by
  obtain ⟨zero, one, keeps, rfl⟩ := stores
  cases found : (node [] none zero one).lookup key with
  | none =>
    have kept : Function.update (node [] none zero one).lookup key none =
        (node [] none zero one).lookup := Function.update_eq_self_iff.mpr found.symm
    have same : tree.erase (ofBits N key) = (tree, false) := by
      cases root : tree.root with
      | none => simp [RadixTree.erase, root]
      | some root' =>
        obtain rfl := keeps_some keeps root
        have missing := find_below small (node [] none zero one) [] key [] rfl
          (⟨nul, 0, kids [] none zero one⟩ : RadixNode N T) [] fits keeps.zeroFits keeps.oneFits
        obtain ⟨last, parents, search⟩ := (noLeaf_iff _).mpr (missing.trans found)
        have ends : RadixNode.findNode ⟨nul, 0, kids [] none zero one⟩ (ofBits N key) =
            (.inner last, parents) := search
        simp only [RadixTree.erase, root, Option.map_some, ends]
    rw [same, kept]
    exact ⟨rfl, zero, one, keeps, rfl⟩
  | some x =>
    obtain ⟨bit, rest, rfl⟩ := List.exists_cons_of_ne_nil nonempty
    have turned : (node [] none zero one).lookup (bit :: rest) = (side zero one bit).lookup rest :=
      lookup_below bit
    have below := turned.symm.trans found
    cases present : side zero one bit with
    | empty => simp [present] at below
    | node label value zero' one' =>
      obtain ⟨s, rfl⟩ : label <+: rest := by
        by_contra aside
        rw [present, lookup_aside aside] at below
        cases below
      cases root : tree.root with
      | none =>
        obtain ⟨rfl, rfl⟩ := keeps_none keeps root
        cases bit <;> cases present
      | some root' =>
        obtain rfl := keeps_some keeps root
        have childOk := compressed_side bit keeps.zeroOk keeps.oneOk
        obtain ⟨leaf, parent, above, search, erased⟩ := erase_child small
          (side zero one bit) [] s none (⟨nul, 0, kids [] none zero one⟩ : RadixNode N T) [] present
          (by simpa using fits) rfl keeps.zeroFits keeps.oneFits childOk
          rfl (.inl rfl) below
        have ends : RadixNode.findNode ⟨nul, 0, kids [] none zero one⟩
            (ofBits N (bit :: (label ++ s))) = (.leaf leaf, parent :: above) := by
          have turn := find_turn [] none (⟨nul, 0, kids [] none zero one⟩ : RadixNode N T) [] small
            fits keeps.zeroFits keeps.oneFits present
          rw [if_pos ((List.prefix_append _ _).trans (List.prefix_append _ _))] at turn
          exact turn.trans search
        simp only [RadixTree.erase, root, Option.map_some, ends, erased]
        refine ⟨rfl, ?_⟩
        have cleared : (branch [] none bit ((side zero one bit).erase (label ++ s))
            (side zero one !bit)).lookup = Function.update (branch [] none bit (side zero one bit)
              (side zero one !bit)).lookup (bit :: (label ++ s)) none :=
          lookup_side bit _ (lookup_erase _ (label ++ s))
        cases bit
        · refine ⟨zero.erase (label ++ s), one, ⟨rfl, ?_, keeps.oneFits, ?_, keeps.oneOk⟩, ?_⟩
          · exact fits_erase keeps.zeroFits _
          · exact compressed_erase keeps.zeroOk _
          · exact cleared
        · refine ⟨zero, one.erase (label ++ s), ⟨rfl, keeps.zeroFits, ?_, keeps.zeroOk, ?_⟩, ?_⟩
          · exact fits_erase keeps.oneFits _
          · exact compressed_erase keeps.oneOk _
          · exact cleared

/-- A subtrie stores no keys that are longer than the width. -/
theorem lookup_fits {depth : Nat} {t : Trie T} (fits : Fits N depth t) {key : List Bool}
    (here : t.lookup key ≠ none) : depth + 1 + key.length ≤ N := by
  induction t generalizing depth key with
  | empty => exact absurd rfl here
  | node label value zero one zeroIh oneIh =>
    obtain ⟨within, zeroFits, oneFits⟩ := fits
    rcases key_cases label key with rfl | ⟨bit, rest, rfl⟩ | aside
    · exact within
    · rw [lookup_below] at here
      have below : depth + 1 + label.length + 1 + rest.length ≤ N := by
        cases bit
        · exact zeroIh zeroFits here
        · exact oneIh oneFits here
      simp only [List.length_append, List.length_cons]
      omega
    · exact absurd (lookup_aside aside) here

theorem stores_short (stores : Stores tree stored) {key : List Bool} (here : stored key ≠ none) :
    key.length ≤ N := by
  obtain ⟨zero, one, keeps, rfl⟩ := stores
  cases key with
  | nil => exact Nat.zero_le _
  | cons bit rest =>
    have turned : (node [] none zero one).lookup (bit :: rest) = (side zero one bit).lookup rest :=
      lookup_below bit
    rw [turned] at here
    have within := lookup_fits (fits_side bit keeps.zeroFits keeps.oneFits) here
    rw [List.length_cons]
    omega

/-- **Exact search**: the value of a stored network. -/
theorem stores_find (small : N < 2 ^ 31) (stores : Stores tree stored) {key : List Bool}
    (fits : key.length ≤ N) :
    (tree.find (ofBits N key)).map Prod.snd = stored key := by
  obtain ⟨zero, one, keeps, rfl⟩ := stores
  rw [RadixTree.find]
  cases root : tree.root with
  | none =>
    obtain ⟨rfl, rfl⟩ := keeps_none keeps root
    cases key with
    | nil => rfl
    | cons bit rest => cases bit <;> rfl
  | some root' =>
    obtain rfl := keeps_some keeps root
    have found := find_below small (node [] none zero one) [] key [] rfl
      (⟨nul, 0, kids [] none zero one⟩ : RadixNode N T) [] fits keeps.zeroFits keeps.oneFits
    rw [List.nil_append] at found
    have ends : RadixNode.findNode ⟨nul, 0, kids [] none zero one⟩ (ofBits N key) =
        (kids [] none zero one).findIn (ofBits N key) ([] : List Bool).length
          ⟨nul, 0, kids [] none zero one⟩ [] := rfl
    rw [← found, Option.bind_some, ends]
    generalize RadixChildren.findIn _ _ _ _ _ = search
    obtain ⟨last, parents⟩ := search
    cases last <;> rfl

/-- **Longest match**: the value of the longest stored network that contains an
address. -/
theorem stores_longest (small : N < 2 ^ 31) (stores : Stores tree stored) {key : List Bool}
    (full : key.length = N) :
    IsLongest stored key ((tree.longestMatch (ofBits N key)).map Prod.snd) := by
  obtain ⟨zero, one, keeps, rfl⟩ := stores
  have spec := longest_spec (node [] none zero one) key
  rw [longestMatch_eq]
  cases root : tree.root with
  | none =>
    obtain ⟨rfl, rfl⟩ := keeps_none keeps root
    refine .inl ⟨rfl, fun start _ => ?_⟩
    cases start with
    | nil => rfl
    | cons bit rest => cases bit <;> rfl
  | some root' =>
    obtain rfl := keeps_some keeps root
    have found := match_below small (node [] none zero one) [] key [] rfl [] full rfl
      (at_root small (Nat.le_of_eq full) (kids [] none zero one))
      keeps.zeroFits keeps.oneFits
    rw [List.nil_append] at found
    have same : (answer (ofBits N key) (RadixNode.findNode ⟨nul, 0, kids [] none zero one⟩
        (ofBits N key))).map Prod.snd = (node [] none zero one).longest key := by
      refine found.trans ?_
      cases (node [] none zero one).longest key <;> rfl
    rw [Option.bind_some, same]
    exact spec

/-- Trees that store the same answer the same. -/
theorem longestMatch_same (small : N < 2 ^ 31) {tree' : RadixTree N T} (stores : Stores tree stored)
    (stores' : Stores tree' stored) {key : List Bool} (full : key.length = N) :
    (tree.longestMatch (ofBits N key)).map Prod.snd =
      (tree'.longestMatch (ofBits N key)).map Prod.snd :=
  (stores_longest small stores full).unique (stores_longest small stores' full)

end

end NetifyAgent.RadixTable
