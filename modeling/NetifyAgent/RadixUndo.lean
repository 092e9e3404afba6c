import NetifyAgent.RadixRewinds
import NetifyAgent.RadixTable

/-! What `assign` adds to a radix tree `erase` takes away again, also where the network is
not stored where it belongs: a network that is eclipsed is refused, or it hangs from a
child without bits, which goes with it. -/
namespace NetifyAgent.RadixUndo
open NetifyAgent.RadixKeys NetifyAgent.RadixInsert NetifyAgent.RadixErase NetifyAgent.RadixRewinds
open RadixTrie Trie RadixNode RadixTree RadixTable

variable {N : Nat} {T : Type}

/-- With other children a node finds the key, and erasing it leaves the node as it was. -/
def Restores (key : RadixNetworkEntry N) (depth : Int) (self : RadixNode N T)
    (children : RadixChildren N T) : Prop :=
  ∀ parents, ∃ leaf parent above,
    children.findIn key depth { self with children } parents = (.leaf leaf, parent :: above) ∧
      eraseLeaf parent above = rebuild self parents

/-- A key is refused at a node, or its children change so that erasing restores them. -/
def Undone (key : RadixNetworkEntry N) (depth : Int) (self : RadixNode N T)
    (parents : List (RadixNode N T)) (assigned : Except String (RadixNode N T)) : Prop :=
  assigned = .error "overlapping network detected" ∨
    ∃ children, assigned = .ok (rebuild { self with children } parents) ∧
      Restores key depth self children

/-! ## Nodes -/

/-- The child that a subtrie is kept as. -/
def kidOf (N : Nat) (path : List Bool) (bit : Bool) : Trie T → Option (Child N T)
  | .empty => none
  | .node label value zero one =>
    some (ofBits N (bit :: label), kids (path ++ bit :: label) value zero one)

section
variable {path : List Bool} {value : Option T} {bit : Bool} {self : RadixNode N T}
  {parents : List (RadixNode N T)} {key : RadixNetworkEntry N}

theorem kids_slots (path : List Bool) (value : Option T) (zero one : Trie T) :
    kids path value zero one =
      slots path value (kidOf N path false zero) (kidOf N path true one) := by
  cases zero <;> cases one <;> rfl

theorem onSide_kidOf {t : Trie T} (fits : Fits N path.length t) :
    OnSide bit (kidOf N path bit t) := by
  cases t with
  | empty =>
    intro key children none
    cases none
  | node label value zero one =>
    have within := fits.1
    refine onSide_some ?_ (ofBits_ne_nul bit label) _
    rw [BitVec.msb_eq_getMsbD_zero, getMsbD_ofBits (by rw [List.length_cons]; omega)]
    rfl

variable {zero one : Option (Child N T)}

/-- What is undone below a child is undone at its node. -/
theorem undone_child {k : RadixNetworkEntry N} {children : RadixChildren N T}
    {assigned : Except String (RadixNode N T)}
    (kept : self.children = slots path value zero one) (zeroSide : OnSide false zero)
    (oneSide : OnSide true one) (here : (if bit then one else zero) = some (k, children))
    (goes : radixLength key - path.length ≠ 0) (turn : key.bit path.length = bit)
    (matched : radixSubstr key path.length (radixLength k) = k)
    (below : Undone key (path.length + radixLength k) ⟨k, path.length, children⟩
      (self :: parents) assigned) : Undone key path.length self parents assigned := by
  have side : k.addr.msb = bit ∧ k ≠ nul := by
    cases bit
    · exact zeroSide k children here
    · exact oneSide k children here
  have place (k' : RadixNetworkEntry N) (children' : RadixChildren N T)
      (same : (if bit then one else zero) = some (k', children')) : k' = k := by
    rw [here] at same
    exact (Prod.mk.inj (Option.some.inj same)).1.symm
  have put (children' : RadixChildren N T) :=
    @put_slots N T path value zero one bit k children' side.1 side.2 zeroSide oneSide place
  rcases below with refused | ⟨children', assigned, restores⟩
  · exact .inl refused
  · refine .inr ⟨slots path value (if bit then zero else some (k, children'))
      (if bit then some (k, children') else one), assigned.trans ?_, fun parents' => ?_⟩
    · rw [rebuild, kept, put]
    · have zeroSide' : OnSide false (if bit then zero else some (k, children')) := by
        cases bit
        · exact onSide_some side.1 side.2 children'
        · exact zeroSide
      have oneSide' : OnSide true (if bit then some (k, children') else one) := by
        cases bit
        · exact oneSide
        · exact onSide_some side.1 side.2 children'
      have chosen : (if bit then (if bit then some (k, children') else one)
          else if bit then zero else some (k, children')) = some (k, children') := by
        cases bit <;> rfl
      obtain ⟨leaf, parent, above, search, erased⟩ := restores
        ({ self with
          children := slots path value (if bit then zero else some (k, children'))
            (if bit then some (k, children') else one) } :: parents')
      refine ⟨leaf, parent, above, ?_, erased.trans ?_⟩
      · rw [find_slots _ _ goes zeroSide' oneSide', turn, chosen]
        simp only [if_pos matched]
        exact search
      · have again := @put_slots N T path value _ _ bit k children side.1 side.2 zeroSide' oneSide'
          (by
            intro k' children'' same
            rw [chosen] at same
            exact (Prod.mk.inj (Option.some.inj same)).1.symm)
        have whole : slots path value
            (if bit then (if bit then zero else some (k, children')) else some (k, children))
            (if bit then some (k, children) else if bit then some (k, children') else one) =
              self.children := by
          rw [kept]
          cases bit
          · rw [← here]
            rfl
          · rw [← here]
            rfl
        rw [rebuild, again, whole]

end

/-! ## Behind the end of a key -/

section
variable {path key label : List Bool} {value : Option T} {zero one : Trie T} {bit : Bool}
  {self : RadixNode N T} {x : T}

/-- A node that is left with its leaf or with two children is not joined with one. -/
theorem merge_whole (useful : value ≠ none ∨ (zero ≠ .empty ∧ one ≠ .empty))
    (children : self.children = kids path value zero one) (parents : List (RadixNode N T)) :
    merge self parents = rebuild self parents := by
  cases parents with
  | nil => rfl
  | cons above up =>
    unfold merge
    rw [children]
    cases value with
    | some v => rfl
    | none =>
      obtain none | ⟨left, right⟩ := useful
      · exact absurd rfl none
      · cases zero with
        | empty => exact absurd rfl left
        | node label w z o =>
          cases one with
          | empty => exact absurd rfl right
          | node label' w' z' o' => rfl

/-- A network hangs from a node behind its end by a child without bits. -/
theorem undone_hung (small : N < 2 ^ 31) (root : RadixNode N T) (pathFits : path.length ≤ N)
    (behind : key.length < path.length) (stored : value ≠ none)
    (children : self.children = kids path value .empty one)
    (here : At path (ofBits N key) self) (oneFits : Fits N path.length one)
    (parents : List (RadixNode N T)) :
    Undone (ofBits N key) path.length self parents
      (assignAt root (ofBits N key) x (.inner self, parents)) := by
  have length : radixLength (ofBits N key) = key.length := radixLength_ofBits (by omega)
  have left : radixLength (ofBits N key) - path.length = (key.length : Int) - path.length := by
    rw [length]
  have goes : (key.length : Int) - path.length ≠ 0 := by omega
  have turn : (ofBits N key).bit path.length = false := by
    rw [bit_key (by omega), List.getD_eq_getElem?_getD, List.getElem?_eq_none (by omega)]
    rfl
  -- the key of the new child and where it leads
  have returns (depth : Nat) (is : Edge.back key.length = .back depth) :
      false = false ∧ depth < path.length := by
    cases is
    exact ⟨rfl, behind⟩
  have followed : ((Edge.back key.length).follow path false).length = key.length := by
    rw [Edge.follow, List.length_take]
    omega
  have ended := @radixLength_edgeKey N path false (.back key.length) small pathFits (by omega)
    fun depth is => (returns depth is).2
  rw [followed] at ended
  have matched := (@radixSubstr_edgeKey N path key false (.back key.length) small (by omega)
    pathFits (by omega) returns
    (by rw [List.getD_eq_getElem?_getD, List.getElem?_eq_none (by omega)]; rfl)).mpr trivial
  generalize named : edgeKey N path.length false (.back key.length) = k at ended matched
  have cut : radixSubstr (ofBits N key) path.length ((key.length : Int) - path.length) = k := by
    rw [← named]
    exact radixSubstr_back small _ behind pathFits
  have side := @onSide_edgeKey N T path false (.back key.length) small pathFits (by omega) returns
    (.leaf (ofBits N key, x) .nil)
  rw [named] at side
  obtain ⟨first, inner⟩ := side k _ rfl
  have oneSide : OnSide true (kidOf N path true one) := onSide_kidOf oneFits
  have free : OnSide false (none : Option (Child N T)) := fun k' children' none => by cases none
  have sides := children
  rw [kids_slots, kidOf] at sides
  have put := @put_slots N T path value none (kidOf N path true one) false k
    (.leaf (ofBits N key, x) .nil) first inner free oneSide (fun k' children' none => by cases none)
  have removed := @remove_slots N T path value (some (k, .leaf (ofBits N key, x) .nil))
    (kidOf N path true one) false k _ first inner side oneSide rfl
  refine .inr ⟨slots path value (some (k, .leaf (ofBits N key, x) .nil)) (kidOf N path true one),
    ?_, fun parents' => ⟨(ofBits N key, x), ⟨k, path.length, .leaf (ofBits N key, x) .nil⟩,
      { self with
        children := slots path value (some (k, .leaf (ofBits N key, x) .nil))
          (kidOf N path true one) } :: parents', ?_, ?_⟩⟩
  · rw [assignAt, insertAt_matched here.matched, append, here.ends]
    simp only
    rw [left, if_neg goes, cut, sides, put]
    rfl
  · rw [find_slots _ _ (by rwa [left]) (by exact side) (by exact oneSide), turn]
    simp only [Bool.false_eq_true, if_false, if_pos matched, ended]
    rw [RadixChildren.findIn, if_pos (by omega)]
  · have bare : (RadixChildren.leaf (ofBits N key, x) .nil : RadixChildren N T).remove nul =
        .nil := rfl
    simp only [Bool.false_eq_true, if_false] at removed
    unfold eraseLeaf
    simp only [bare]
    rw [RadixChildren.size, if_neg (by omega), if_pos rfl, removed]
    have same : ({ self with children := slots path value none (kidOf N path true one) } :
        RadixNode N T) = self := by
      rw [← sides]
    rw [same]
    exact merge_whole (.inl stored) children parents'

/-- Behind the end of a network a search goes on along the zeros: where it stops, the
network is refused or hangs from the node. -/
theorem undone_behind (small : N < 2 ^ 31) (root : RadixNode N T) (t : Trie T)
    (found : t = .node label value zero one) (pathFits : path.length ≤ N)
    (behind : key.length < path.length) (zeroFits : Fits N path.length zero)
    (oneFits : Fits N path.length one) (compressed : t.Compressed)
    (children : self.children = kids path value zero one) (here : At path (ofBits N key) self)
    (parents : List (RadixNode N T)) :
    Undone (ofBits N key) path.length self parents (assignAt root (ofBits N key) x
      ((kids path value zero one).findIn (ofBits N key) path.length self parents)) := by
  induction t generalizing path label value zero one self parents with
  | empty => cases found
  | node label value zero one zeroIh _ =>
    cases found
    obtain ⟨useful, zeroOk, oneOk⟩ := compressed
    have length : radixLength (ofBits N key) = key.length := radixLength_ofBits (by omega)
    have goes : radixLength (ofBits N key) - path.length ≠ 0 := by omega
    have turn : (ofBits N key).bit path.length = false := by
      rw [bit_key (by omega), List.getD_eq_getElem?_getD, List.getElem?_eq_none (by omega)]
      rfl
    have zeroSide : OnSide false (kidOf N path false zero) := onSide_kidOf zeroFits
    have oneSide : OnSide true (kidOf N path true one) := onSide_kidOf oneFits
    have search := @find_slots N T path value _ _ _ self parents goes zeroSide oneSide
    rw [turn] at search
    rw [kids_slots, search]
    cases zero with
    | empty =>
      have stored : value ≠ none := useful.resolve_right fun both => both.1 rfl
      exact undone_hung small root pathFits behind stored children here oneFits parents
    | node label' value' zero' one' =>
      obtain ⟨within, lower⟩ := zeroFits
      have ends := child_ends false value' zero' one' small within
      rw [← path_length path label' false] at within lower
      have behind' : key.length < (path ++ false :: label').length := by
        rw [path_length]
        omega
      have depth : (child N path false label' value' zero' one').depth = path.length := rfl
      simp only [kidOf, Bool.false_eq_true, if_false]
      split
      case isTrue matched =>
        refine @undone_child N T path value false self parents _ _ _ _ _ _
          (children.trans (kids_slots path value _ one)) zeroSide oneSide rfl goes turn matched ?_
        have next : (path.length : Int) + radixLength (ofBits N (false :: label')) =
            (path ++ false :: label').length := ends
        rw [next]
        have kept : (child N path false label' value' zero' one').children =
            kids (path ++ false :: label') value' zero' one' := rfl
        exact zeroIh rfl within behind' lower.1 lower.2 zeroOk kept ⟨ends, matched⟩
          (self :: parents)
      case isFalse aside =>
        have refused := @prepend_short N T x (child N path false label' value' zero' one') self
          (ofBits N key) (by rw [depth]; omega)
        have stops := @insertAt_aside N T x parents (ofBits N key)
          (child N path false label' value' zero' one') self aside
        rw [refused] at stops
        exact .inl stops

/-- What is undone at the child that a search turns to is undone at the node. -/
theorem undone_turn (small : N < 2 ^ 31) (root : RadixNode N T) {rest label' : List Bool}
    {value' : Option T} {zero' one' : Trie T} {parents : List (RadixNode N T)}
    (present : side zero one bit = .node label' value' zero' one')
    (passes : label' <+: rest ++ List.replicate (N - (path ++ bit :: rest).length) false)
    (fits : (path ++ bit :: rest).length ≤ N) (zeroFits : Fits N path.length zero)
    (oneFits : Fits N path.length one) (children : self.children = kids path value zero one)
    (below : At (path ++ bit :: label') (ofBits N (path ++ bit :: rest))
        (child N path bit label' value' zero' one') →
      Undone (ofBits N (path ++ bit :: rest)) (path ++ bit :: label').length
        (child N path bit label' value' zero' one') (self :: parents)
        (assignAt root (ofBits N (path ++ bit :: rest)) x
          ((kids (path ++ bit :: label') value' zero' one').findIn (ofBits N (path ++ bit :: rest))
            (path ++ bit :: label').length (child N path bit label' value' zero' one')
            (self :: parents)))) :
    Undone (ofBits N (path ++ bit :: rest)) path.length self parents
      (assignAt root (ofBits N (path ++ bit :: rest)) x
        ((kids path value zero one).findIn (ofBits N (path ++ bit :: rest)) path.length self
          parents)) := by
  have childFits := fits_side bit zeroFits oneFits
  rw [present] at childFits
  have within := childFits.1
  have ends := child_ends bit value' zero' one' small within
  have cut := (passes_iff small fits within).mpr passes
  have matched := (child_matched value' zero' one' small within).mpr cut
  have next : (path.length : Int) + radixLength (ofBits N (bit :: label')) =
      (path ++ bit :: label').length := ends
  have here : (if bit then kidOf N path true one else kidOf N path false zero) =
      some (ofBits N (bit :: label'), kids (path ++ bit :: label') value' zero' one') := by
    cases bit
    · rw [side] at present
      rw [present]
      rfl
    · rw [side] at present
      rw [present]
      rfl
  have goes : radixLength (ofBits N (path ++ bit :: rest)) - path.length ≠ 0 := by
    rw [left_length path (bit :: rest) small fits, List.length_cons]
    omega
  rw [find_turn path value self parents small fits zeroFits oneFits present, if_pos passes]
  refine undone_child (children.trans (kids_slots path value zero one)) (onSide_kidOf zeroFits)
    (onSide_kidOf oneFits) here goes (bit_here fits) matched ?_
  rw [next]
  exact below ⟨ends, matched⟩

/-- **A network that an edge overruns** is refused, or what it changes is restored. -/
theorem undone_overruns (small : N < 2 ^ 31) (root : RadixNode N T) {t : Trie T}
    {whole s : List Bool} (overruns : Overruns t whole) (found : t = .node label value zero one)
    (follows : whole = label ++ s) (fits : (path ++ s).length ≤ N)
    (zeroFits : Fits N path.length zero) (oneFits : Fits N path.length one)
    (zeroOk : zero.Compressed) (oneOk : one.Compressed)
    (children : self.children = kids path value zero one) (parents : List (RadixNode N T)) :
    Undone (ofBits N (path ++ s)) path.length self parents
      (assignAt root (ofBits N (path ++ s)) x
        ((kids path value zero one).findIn (ofBits N (path ++ s)) path.length self parents)) := by
  induction overruns generalizing path s label value zero one self parents with
  | @here label₀ rest value₀ value' zero₀ one₀ zero' one' bit m present =>
    cases found
    obtain rfl := List.append_cancel_left follows
    have childFits := fits_side bit zeroFits oneFits
    have childOk := compressed_side bit zeroOk oneOk
    rw [present] at childFits childOk
    obtain ⟨within, lower⟩ := childFits
    rw [← path_length path _ bit] at within lower
    have passes : rest ++ List.replicate (m + 1) false <+:
        rest ++ List.replicate (N - (path ++ bit :: rest).length) false := by
      rw [List.prefix_append_right_inj, List.prefix_replicate_iff, List.length_replicate]
      simp only [List.length_append, List.length_cons, List.length_replicate] at within ⊢
      exact ⟨by omega, trivial⟩
    have behind : (path ++ bit :: rest).length <
        (path ++ bit :: (rest ++ List.replicate (m + 1) false)).length := by
      simp only [List.length_append, List.length_cons, List.length_replicate]
      omega
    exact undone_turn small root present passes fits zeroFits oneFits children fun here =>
      undone_behind small root _ rfl within behind lower.1 lower.2 childOk rfl here (self :: parents)
  | @further label₀ rest value₀ zero₀ one₀ bit deeper ih =>
    cases found
    obtain rfl := List.append_cancel_left follows
    have childFits := fits_side bit zeroFits oneFits
    have childOk := compressed_side bit zeroOk oneOk
    cases present : side zero₀ one₀ bit with
    | empty =>
      rw [present] at deeper
      cases deeper
    | node label' value' zero' one' =>
      rw [present] at childFits childOk deeper
      obtain ⟨s, rfl⟩ : ∃ s, rest = label' ++ s := by
        cases deeper with
        | here present' => exact ⟨_, rfl⟩
        | further deeper' => exact ⟨_, rfl⟩
      have lower := childFits.2
      rw [← path_length path label' bit] at lower
      have passes := (List.prefix_append label' s).trans
        (List.prefix_append _ (List.replicate (N - (path ++ bit :: (label' ++ s)).length) false))
      have along : path ++ bit :: (label' ++ s) = (path ++ bit :: label') ++ s := by simp
      refine undone_turn small root present passes fits zeroFits oneFits children fun _ => ?_
      rw [along] at fits ⊢
      exact ih present rfl fits lower.1 lower.2 childOk.2.1 childOk.2.2 rfl (self :: parents)

end

/-! ## Trees -/

/-- **Adding and removing.** A network that is not stored and is assigned to is erased
again, and what was stored before is stored then. -/
theorem stores_undone (small : N < 2 ^ 31) {tree tree' : RadixTree N T}
    {stored : List Bool → Option T} (stores : Stores tree stored) {key : List Bool}
    (nonempty : key ≠ []) (fits : key.length ≤ N) (absent : stored key = none) {x : T}
    (assigned : tree.assign (ofBits N key) x = .ok tree') :
    (tree'.erase (ofBits N key)).2 = true ∧ Stores (tree'.erase (ofBits N key)).1 stored := by
  obtain ⟨zero, one, keeps, rfl⟩ := stores
  by_cases overruns : Overruns (node [] none zero one) key
  · have undone := @undone_overruns N T [] [] none zero one ⟨nul, 0, kids [] none zero one⟩ x
      small ⟨nul, 0, kids [] none zero one⟩ _ key key overruns rfl rfl fits keeps.zeroFits keeps.oneFits
      keeps.zeroOk keeps.oneOk rfl []
    rw [List.nil_append] at undone
    rw [RadixTree.assign, keeps.root] at assigned
    have search : RadixNode.findNode (⟨nul, 0, kids [] none zero one⟩ : RadixNode N T)
        (ofBits N key) = (kids [] none zero one).findIn (ofBits N key) ([] : List Bool).length
          ⟨nul, 0, kids [] none zero one⟩ [] := rfl
    rw [search] at assigned
    rcases undone with refused | ⟨children, changed, restores⟩
    · rw [refused] at assigned
      cases assigned
    · rw [changed] at assigned
      cases assigned
      obtain ⟨leaf, parent, above, found, erased⟩ := restores []
      have again : (⟨some ⟨nul, 0, children⟩⟩ : RadixTree N T).erase (ofBits N key) =
          (⟨some (eraseLeaf parent above)⟩, true) := by
        have ends : RadixNode.findNode (⟨nul, 0, children⟩ : RadixNode N T) (ofBits N key) =
            (.leaf leaf, parent :: above) := found
        simp only [RadixTree.erase, Option.map_some, ends]
      refine ⟨congrArg Prod.snd again, ?_⟩
      have left := congrArg Prod.fst again
      rw [erased] at left
      exact left ▸ ⟨zero, one, ⟨rfl, keeps.zeroFits, keeps.oneFits, keeps.zeroOk, keeps.oneOk⟩, rfl⟩
  · obtain ⟨tree'', made, stores⟩ := stores_clear small keeps nonempty fits overruns x
    obtain rfl := Except.ok.inj (made.symm.trans assigned)
    obtain ⟨removed, erased⟩ := stores_erase small stores nonempty fits
    rw [Function.update_self] at removed
    rw [Function.update_idem, Function.update_eq_self_iff.mpr absent.symm] at erased
    exact ⟨removed, erased⟩

end NetifyAgent.RadixUndo
