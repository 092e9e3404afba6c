import NetifyAgent.RadixTrie

/-! `assign` inserts into the trie that a radix tree keeps. A new network ends at
a node, below it, or inside the label of a child, which `prepend` cuts in two. -/
namespace NetifyAgent.RadixInsert
open NetifyAgent.RadixKeys NetifyAgent.RadixTrie Trie RadixNode RadixTree

variable {N : Nat} {T : Type}

/-- What is stored inside a network that is not stored itself, by the bits behind
its prefix: all of it lies in one longer network of the same address, which is
stored or where the networks inside divide. The search for such a network passes
the edge of the longer one. -/
def Eclipsed {V : Type} (inside : List Bool → Option V) : Prop :=
  inside [] = none ∧ ∃ m, (∀ x, inside x ≠ none → List.replicate (m + 1) false <+: x) ∧
    (inside (List.replicate (m + 1) false) ≠ none ∨
      ∀ bit, ∃ x, inside (List.replicate (m + 1) false ++ bit :: x) ≠ none)

/-- A network inside which nothing is stored is not eclipsed. -/
theorem not_eclipsed {V : Type} {inside : List Bool → Option V} (free : ∀ x, inside x = none) :
    ¬ Eclipsed inside := by
  rintro ⟨-, m, -, stored | divided⟩
  · exact stored (free _)
  · obtain ⟨x, stored⟩ := divided false
    exact stored (free _)

/-- The search for a key comes to an edge that goes on with zeros where the key ends. -/
inductive Overruns : Trie T → List Bool → Prop where
  | here {label rest : List Bool} {value value' : Option T} {zero one zero' one' : Trie T}
      {bit : Bool} {m : Nat}
      (present : side zero one bit = .node (rest ++ List.replicate (m + 1) false) value' zero' one') :
      Overruns (.node label value zero one) (label ++ bit :: rest)
  | further {label rest : List Bool} {value : Option T} {zero one : Trie T} {bit : Bool}
      (deeper : Overruns (side zero one bit) rest) :
      Overruns (.node label value zero one) (label ++ bit :: rest)

/-- A node at a path, whose key the search for a network passes. -/
structure At (path : List Bool) (key : RadixNetworkEntry N) (node : RadixNode N T) : Prop where
  ends : node.depth + radixLength node.key = path.length
  matched : radixSubstr key node.depth (radixLength node.key) = node.key

section
variable {path label rest common below : List Bool} {value : Option T} {zero one : Trie T}
  {bit c : Bool} {self : RadixNode N T} {parents : List (RadixNode N T)}
  {key : RadixNetworkEntry N} {x : T}

/-- A node that is passed gets its new child. -/
theorem insertAt_matched
    (matched : radixSubstr key self.depth (radixLength self.key) = self.key) :
    insertAt (key, x) self parents = .ok ((self.append (key, x)).rebuild parents) := by
  cases parents with
  | nil => rfl
  | cons parent up => exact if_pos matched

theorem child_ends (bit : Bool) (value : Option T) (zero one : Trie T) (small : N < 2 ^ 31)
    (fits : path.length + 1 + label.length ≤ N) :
    (child N path bit label value zero one).depth +
      radixLength (child N path bit label value zero one).key = (path ++ bit :: label).length := by
  unfold child
  rw [radixLength_ofBits (by simp only [List.length_cons]; omega), List.length_append,
    Nat.cast_add]

theorem child_matched (value : Option T) (zero one : Trie T) (small : N < 2 ^ 31)
    (fits : path.length + 1 + label.length ≤ N) :
    radixSubstr key (child N path bit label value zero one).depth
        (radixLength (child N path bit label value zero one).key) =
          (child N path bit label value zero one).key ↔
      radixSubstr key path.length (label.length + 1 : Nat) = ofBits N (bit :: label) := by
  unfold child
  rw [radixLength_ofBits (by simp only [List.length_cons]; omega), List.length_cons]

/-! ## New children -/

theorem kidsOf_branch (label : List Bool) (here there : Trie T) :
    kidsOf (N := N) path (branch label value bit here there) =
      kidsOf path (branch [] value bit here there) := by
  cases bit <;> rfl

/-- Below a node without a child for its next bit a network gets a child. -/
theorem append_absent (small : N < 2 ^ 31) (fits : (path ++ bit :: rest).length ≤ N)
    (children : self.children = kids path value zero one)
    (here : At path (ofBits N (path ++ bit :: rest)) self)
    (zeroFits : Fits N path.length zero) (oneFits : Fits N path.length one)
    (absent : side zero one bit = .empty) :
    self.append (ofBits N (path ++ bit :: rest), x) =
      { self with
        children := kidsOf path ((node label value zero one).insert (label ++ bit :: rest) x) } := by
  have left := left_length path (bit :: rest) small fits
  have short : rest.length < N := by
    simp only [List.length_append, List.length_cons] at fits
    omega
  have cut := radixSubstr_inside path.length (bit :: rest).length small fits (by simp)
  rw [List.drop_left, List.take_length] at cut
  have new : (⟨ofBits N (bit :: rest), path.length,
      .leaf (ofBits N (path ++ bit :: rest), x) .nil⟩ : RadixNode N T) =
        child N path bit rest (some x) .empty .empty := rfl
  unfold append
  simp only
  rw [here.ends, left, if_neg (by simp only [List.length_cons]; omega), cut, new, children,
    put_kids bit _ _ _ short zeroFits oneFits (.inl absent), insert_below, absent, kidsOf_branch label]
  rfl

/-! ## Labels cut in two -/

/-- The bits on which a label and what is left of a key agree. -/
theorem agree_common {w u s : List Bool} (fits : (w ++ u).length ≤ N)
    (fits' : (path ++ (w ++ s)).length ≤ N)
    (apart : ∀ a u' b s', u = a :: u' → s = b :: s' → a ≠ b) (left count : Nat)
    (bound : left + count = min (w ++ u).length (w ++ s).length) (inside : count ≤ w.length) :
    agree (ofBits N (w ++ u)) (ofBits N (path ++ (w ++ s))) path.length left count = w.length := by
  induction left generalizing count with
  | zero =>
    simp only [List.length_append] at bound
    simp only [agree]
    omega
  | succ left ih =>
    have behind : (path ++ (w ++ s)).getD (count + path.length) false = (w ++ s).getD count false := by
      simp only [List.getD_eq_getElem?_getD]
      rw [List.getElem?_append_right (Nat.le_add_left _ _), Nat.add_sub_cancel]
    have second := bit_ofBits fits' (count + path.length)
    rw [Nat.cast_add, behind] at second
    unfold agree
    rw [bit_ofBits fits, second]
    simp only [List.length_append, List.getD_eq_getElem?_getD] at bound ⊢
    rcases Nat.lt_or_eq_of_le inside with before | rfl
    · rw [List.getElem?_append_left before, List.getElem?_append_left before, if_pos rfl]
      exact ih (count + 1) (by simp only [List.length_append]; omega) before
    · rw [List.getElem?_append_right (Nat.le_refl _), List.getElem?_append_right (Nat.le_refl _)]
      cases u with
      | nil => simp only [List.length_nil] at bound; omega
      | cons a u =>
        cases s with
        | nil => simp only [List.length_nil] at bound; omega
        | cons b s =>
          rw [if_neg]
          simpa using apart a u b s rfl rfl

/-- The lower half of a label that is cut in two fits, too. -/
theorem fits_below (bit : Bool)
    (fits : Fits N path.length (.node (common ++ c :: below) value zero one)) :
    Fits N (path ++ bit :: common).length (.node below value zero one) := by
  have depth : path.length + 1 + (common ++ c :: below).length =
      (path ++ bit :: common).length + 1 + below.length := by
    simp only [List.length_append, List.length_cons]
    omega
  unfold Fits at fits ⊢
  rwa [depth] at fits

/-- The children of the new node between the halves of a label: the lower half,
and the network, which ends at the new node or goes the other way. -/
theorem fork_children (common : List Bool) (small : N < 2 ^ 31) (fits : (path ++ rest).length ≤ N)
    (belowFits : Fits N path.length (.node below value zero one))
    (apart : ∀ b s, rest = b :: s → b = !c) :
    (if rest.length = 0 then
      (kidsOf path (branch [] none c (.node below value zero one) .empty)).putLeaf
        (ofBits N (path ++ rest), x)
    else (kidsOf path (branch [] none c (.node below value zero one) .empty)).put
      ⟨radixSubstr (ofBits N (path ++ rest)) path.length rest.length, path.length,
        .leaf (ofBits N (path ++ rest), x) .nil⟩) =
      (kidsOf path (fork common c (.node below value zero one) rest x) : RadixChildren N T) := by
  cases rest with
  | nil =>
    rw [if_pos List.length_nil, List.append_nil]
    cases c <;> exact putLeaf_kids x
  | cons b rest =>
    obtain rfl := apart b rest rfl
    have short : rest.length < N := by
      simp only [List.length_append, List.length_cons] at fits
      omega
    have cut := radixSubstr_inside path.length ((!c) :: rest).length small fits
      (by simp only [List.length_append]; omega)
    rw [List.drop_left, List.take_length] at cut
    have new : (⟨ofBits N ((!c) :: rest), path.length,
        .leaf (ofBits N (path ++ (!c) :: rest), x) .nil⟩ : RadixNode N T) =
          child N path (!c) rest (some x) .empty .empty := rfl
    rw [if_neg (by simp), cut, new]
    cases c
    · exact put_kids true _ _ _ short belowFits trivial (.inl rfl)
    · exact put_kids false _ _ _ short trivial belowFits (.inl rfl)

/-- `prepend` of a child whose label is cut in two, whatever hangs below it. -/
theorem prepend_label (small : N < 2 ^ 31) (inner : RadixChildren N T)
    (fits : (path ++ bit :: (common ++ rest)).length ≤ N)
    (width : path.length + 1 + (common ++ c :: below).length ≤ N)
    (apart : ∀ b s, rest = b :: s → b = !c) :
    (⟨ofBits N (bit :: (common ++ c :: below)), path.length, inner⟩ : RadixNode N T).prepend self
        (ofBits N (path ++ bit :: (common ++ rest)), x) =
      .ok { self with
        children := (self.children.remove (ofBits N (bit :: (common ++ c :: below)))).put
          ⟨ofBits N (bit :: common), path.length,
            if rest.length = 0 then
              (RadixChildren.nil.put ⟨ofBits N (c :: below), ((path ++ bit :: common).length : Nat),
                inner⟩).putLeaf (ofBits N ((path ++ bit :: common) ++ rest), x)
            else
              (RadixChildren.nil.put ⟨ofBits N (c :: below), ((path ++ bit :: common).length : Nat),
                inner⟩).put ⟨radixSubstr (ofBits N ((path ++ bit :: common) ++ rest))
                  ((path ++ bit :: common).length : Nat) rest.length,
                    ((path ++ bit :: common).length : Nat),
                      .leaf (ofBits N ((path ++ bit :: common) ++ rest), x) .nil⟩⟩ } := by
  have upperPath : path ++ bit :: (common ++ rest) = (path ++ bit :: common) ++ rest := by simp
  have label : (bit :: (common ++ c :: below)).length = common.length + below.length + 2 := by
    simp only [List.length_append, List.length_cons]
    omega
  have long : radixLength (ofBits N (bit :: (common ++ c :: below))) =
      (common.length + below.length + 2 : Nat) := by
    rw [radixLength_ofBits, label]
    simp only [List.length_cons]
    omega
  have left : radixLength (ofBits N (path ++ bit :: (common ++ rest))) - path.length =
      (common.length + rest.length + 1 : Nat) := by
    rw [left_length path _ small fits]
    simp only [List.length_cons, List.length_append]
  -- how far they agree, and the two halves of the label
  have count : agree (ofBits N (bit :: (common ++ c :: below)))
      (ofBits N (path ++ bit :: (common ++ rest))) path.length
      (min ((common.length + below.length + 2 : Nat) : Int)
        ((common.length + rest.length + 1 : Nat) : Int)).toNat 0 = common.length + 1 := by
    refine agree_common (w := bit :: common) (u := c :: below) (s := rest) ?_ fits ?_ _ _ ?_ ?_
    · simp only [List.length_append, List.length_cons] at width ⊢
      omega
    · intro a u b s first second
      cases first
      rw [apart b s second]
      cases c <;> simp
    · simp only [List.length_append, List.length_cons]
      omega
    · exact Nat.zero_le _
  have upper : radixSubstr (ofBits N (bit :: (common ++ c :: below))) 0
      (common.length + 1 : Nat) = ofBits N (bit :: common) := by
    have cut := radixSubstr_inside 0 (common.length + 1) small (N := N)
      (l := bit :: (common ++ c :: below)) (by rw [List.length_cons]; omega) (by omega)
    rw [List.drop_zero, List.take_succ_cons, List.take_left] at cut
    exact cut
  have lower : radixSubstr (ofBits N (bit :: (common ++ c :: below))) (common.length + 1 : Nat)
      (below.length + 1 : Nat) = ofBits N (c :: below) := by
    have cut := radixSubstr_inside (common.length + 1) (below.length + 1) small (N := N)
      (l := bit :: (common ++ c :: below)) (by rw [List.length_cons]; omega) (by omega)
    rw [List.drop_succ_cons, List.drop_left, List.take_of_length_le (by simp)] at cut
    exact cut
  have lengths : ((common.length + below.length + 2 : Nat) : Int) - (common.length + 1 : Nat) =
        (below.length + 1 : Nat) ∧
      ((common.length + rest.length + 1 : Nat) : Int) - (common.length + 1 : Nat) = rest.length ∧
      (path.length : Int) + (common.length + 1 : Nat) = ((path ++ bit :: common).length : Nat) := by
    simp only [List.length_append, List.length_cons]
    omega
  have ends : (((common.length + 1 : Nat) : Int) = (common.length + rest.length + 1 : Nat)) =
      (rest.length = 0) := by
    rw [eq_iff_iff]
    omega
  unfold prepend
  simp only [long, left, count, lengths, upper, lower, ends]
  rw [if_neg (Nat.succ_ne_zero _), upperPath]

/-- A child whose label is cut in two leaves its place to the new node. -/
theorem prepend_child (rest : List Bool) (small : N < 2 ^ 31)
    (fits : (path ++ bit :: (common ++ rest)).length ≤ N)
    (children : self.children = kids path value zero one)
    (zeroFits : Fits N path.length zero) (oneFits : Fits N path.length one)
    {value' : Option T} {zero' one' : Trie T}
    (present : side zero one bit = .node (common ++ c :: below) value' zero' one')
    (apart : ∀ b s, rest = b :: s → b = !c) :
    (child N path bit (common ++ c :: below) value' zero' one').prepend self
        (ofBits N (path ++ bit :: (common ++ rest)), x) =
      .ok { self with
        children := kidsOf path (branch [] value bit
          (fork common c (.node below value' zero' one') rest x) (side zero one !bit)) } := by
  have childFits := fits_side bit zeroFits oneFits
  rw [present] at childFits
  have width := childFits.1
  have belowFits := fits_below bit childFits
  have upperFits : ((path ++ bit :: common) ++ rest).length ≤ N := by simpa using fits
  have lowerPath : path ++ bit :: (common ++ c :: below) =
      (path ++ bit :: common) ++ c :: below := by
    simp
  have half : (RadixChildren.nil.put
      ⟨ofBits N (c :: below), ((path ++ bit :: common).length : Nat),
        kids ((path ++ bit :: common) ++ c :: below) value' zero' one'⟩ : RadixChildren N T) =
      kidsOf (path ++ bit :: common) (branch [] none c (.node below value' zero' one') .empty) := by
    cases c <;> rfl
  have halves := fork_children (x := x) common small upperFits belowFits apart
  unfold child
  rw [prepend_label small _ fits width apart, lowerPath, half, halves, children]
  obtain ⟨v, z, o, cut⟩ : ∃ v z o,
      fork common c (.node below value' zero' one') rest x = .node common v z o := by
    cases rest <;> cases c <;> exact ⟨_, _, _, rfl⟩
  rw [cut]
  refine congrArg (fun children => Except.ok { self with children := children })
    (replace_kids bit ?_ zeroFits oneFits present)
  simp only [List.length_append] at width
  omega

/-! ## Assignment -/

/-- A node keeps its label when a longer key is stored. -/
theorem insert_label (label s : List Bool) (value : Option T) (zero one : Trie T) (x : T) :
    ∃ v z o, (node label value zero one).insert (label ++ s) x = .node label v z o := by
  cases s with
  | nil =>
    rw [List.append_nil, insert_here]
    exact ⟨_, _, _, rfl⟩
  | cons bit s =>
    rw [insert_below]
    cases bit <;> exact ⟨_, _, _, rfl⟩

/-- The network of a node that a search has passed is assigned to. -/
theorem assign_here (small : N < 2 ^ 31) (root : RadixNode N T) (fits : path.length ≤ N)
    (children : self.children = kids path value zero one) (here : At path (ofBits N path) self) :
    assignAt root (ofBits N path) x
      ((kids path value zero one).findIn (ofBits N path) path.length self parents) =
      .ok (rebuild { self with children := kids path (some x) zero one } parents) := by
  cases value with
  | some w =>
    rw [find_value small fits, assignAt, children, putLeaf_kids]
  | none =>
    have left := left_length path [] small (by simpa using fits)
    rw [List.append_nil, List.length_nil, Nat.cast_zero] at left
    rw [find_no_value small fits, assignAt, insertAt_matched here.matched, append, here.ends]
    simp only
    rw [if_pos left, children, putLeaf_kids]

/-- A trie without superfluous nodes stores something. -/
theorem compressed_stores {t : Trie T} (compressed : t.Compressed) (present : t ≠ .empty) :
    ∃ key, t.lookup key ≠ none := by
  induction t with
  | empty => exact absurd rfl present
  | node label value zero one zeroIh oneIh =>
    obtain ⟨stored | ⟨zeroPresent, _⟩, zeroOk, _⟩ := compressed
    · exact ⟨label, lookup_here ▸ stored⟩
    · obtain ⟨key, stored⟩ := zeroIh zeroOk zeroPresent
      exact ⟨label ++ false :: key, by rwa [lookup_below]⟩

/-- A key that ends inside the zeros of a label is eclipsed. -/
theorem eclipsed_label {m : Nat}
    (compressed : (node (rest ++ List.replicate (m + 1) false) value zero one).Compressed) :
    Eclipsed fun x =>
      (node (rest ++ List.replicate (m + 1) false) value zero one).lookup (rest ++ x) := by
  obtain ⟨useful, zeroOk, oneOk⟩ := compressed
  refine ⟨lookup_aside fun passes => ?_, m, fun x stored => ?_, ?_⟩
  · have longer := passes.length_le
    rw [List.length_append, List.length_append, List.length_replicate, List.length_nil] at longer
    omega
  · by_contra aside
    exact stored (lookup_aside (by rwa [List.prefix_append_right_inj]))
  · simp only [← List.append_assoc, lookup_below, lookup_here]
    refine useful.imp_right fun both bit => ?_
    cases bit
    · exact compressed_stores zeroOk both.1
    · exact compressed_stores oneOk both.2

/-- A key that an edge overruns is eclipsed. -/
theorem eclipsed_of_overruns {t : Trie T} {key : List Bool} (overruns : Overruns t key)
    (compressed : ∀ label value zero one, t = .node label value zero one →
      zero.Compressed ∧ one.Compressed) : Eclipsed fun x => t.lookup (key ++ x) := by
  induction overruns with
  | @here label rest value value' zero one zero' one' bit m present =>
    obtain ⟨zeroOk, oneOk⟩ := compressed label value zero one rfl
    have childOk := compressed_side bit zeroOk oneOk
    rw [present] at childOk
    simp only [List.append_assoc, List.cons_append, lookup_below, present]
    exact eclipsed_label childOk
  | @further label rest value zero one bit _ ih =>
    obtain ⟨zeroOk, oneOk⟩ := compressed label value zero one rfl
    have sideOk := compressed_side bit zeroOk oneOk
    simp only [List.append_assoc, List.cons_append, lookup_below]
    refine ih fun label' value' zero' one' same => ?_
    rw [same] at sideOk
    exact ⟨sideOk.2.1, sideOk.2.2⟩

/-- A child whose label a network leaves, or in which it ends, is cut in two. -/
theorem assign_aside (small : N < 2 ^ 31) (root : RadixNode N T)
    (fits : (path ++ bit :: rest).length ≤ N)
    (children : self.children = kids path value zero one)
    (zeroFits : Fits N path.length zero) (oneFits : Fits N path.length one)
    {label' : List Bool} {value' : Option T} {zero' one' : Trie T}
    (present : side zero one bit = .node label' value' zero' one')
    (aside : ¬ label' <+: rest ++ List.replicate (N - (path ++ bit :: rest).length) false) :
    assignAt root (ofBits N (path ++ bit :: rest)) x
      (.inner (child N path bit label' value' zero' one'), self :: parents) =
      .ok (rebuild { self with
        children := kidsOf path ((node label value zero one).insert (label ++ bit :: rest) x) }
        parents) := by
  have childFits := fits_side bit zeroFits oneFits
  rw [present] at childFits
  have stops := mt (passes_iff small fits childFits.1).mp aside
  rw [assignAt, insertAt, if_neg (mt (child_matched _ _ _ small childFits.1).mp stops), insert_below,
    present, kidsOf_branch label]
  have outside : ¬ label' <+: rest := fun start => aside (start.trans (List.prefix_append _ _))
  obtain ⟨common, c, below, rfl, leaves⟩ := aside_cases outside
  rcases leaves with rfl | ⟨rest, rfl⟩
  · have cut := prepend_child (x := x) [] small (by simpa using fits) children zeroFits
      oneFits present (by simp)
    rw [List.append_nil] at cut
    rw [cut, insert_inside]
    rfl
  · rw [prepend_child _ small fits children zeroFits oneFits present, insert_aside]
    · rfl
    · intro b s same
      cases same
      rfl

/-- **Assignment** below a node that a search has passed is insertion into its
trie. -/
theorem assign_below (small : N < 2 ^ 31) (root : RadixNode N T) (t : Trie T)
    (path s label : List Bool) {value : Option T} {zero one : Trie T}
    (found : t = .node label value zero one) {self : RadixNode N T} (parents : List (RadixNode N T))
    (fits : (path ++ s).length ≤ N) (children : self.children = kids path value zero one)
    (here : At path (ofBits N (path ++ s)) self)
    (zeroFits : Fits N path.length zero) (oneFits : Fits N path.length one)
    (clear : ¬ Overruns t (label ++ s)) :
    assignAt root (ofBits N (path ++ s)) x
      ((kids path value zero one).findIn (ofBits N (path ++ s)) path.length self parents) =
      .ok (rebuild { self with children := kidsOf path (t.insert (label ++ s) x) } parents) := by
  induction t generalizing path s label value zero one self parents with
  | empty => cases found
  | node label value zero one zeroIh oneIh =>
    cases found
    cases s with
    | nil =>
      rw [List.append_nil] at fits here ⊢
      rw [List.append_nil, insert_here, assign_here small root fits children here]
      rfl
    | cons bit rest =>
      cases present : side zero one bit with
      | empty =>
        rw [find_absent small fits zeroFits oneFits present, assignAt,
          insertAt_matched here.matched,
          append_absent small fits children here zeroFits oneFits present]
      | node label' value' zero' one' =>
        have childFits := fits_side bit zeroFits oneFits
        rw [present] at childFits
        rw [find_turn path value self parents small fits zeroFits oneFits present]
        obtain ⟨s, rfl⟩ | ⟨m, rfl⟩ | aside :=
          side_cases label' rest (N - (path ++ bit :: rest).length)
        · -- the search goes on below the child
          rw [if_pos ((List.prefix_append _ _).trans (List.prefix_append _ _))]
          have deeper : path ++ bit :: (label' ++ s) = (path ++ bit :: label') ++ s := by simp
          have matched := (child_matched value' zero' one' small
            childFits.1).mpr (passes_of_start small fits (List.prefix_append label' s))
          have ends := child_ends bit value' zero' one' small childFits.1
          have lower := childFits.2
          have pathLength : (path ++ bit :: label').length = path.length + 1 + label'.length := by
            simp only [List.length_append, List.length_cons]
            omega
          have short : label'.length < N := by
            have within := childFits.1
            omega
          rw [← pathLength] at lower
          rw [deeper] at fits matched ⊢
          have recursion : assignAt root (ofBits N ((path ++ bit :: label') ++ s)) x
              ((kids (path ++ bit :: label') value' zero' one').findIn
                (ofBits N ((path ++ bit :: label') ++ s)) (path ++ bit :: label').length
                (child N path bit label' value' zero' one') (self :: parents)) =
              .ok (rebuild
                { child N path bit label' value' zero' one' with
                  children := kidsOf (path ++ bit :: label')
                    ((side zero one bit).insert (label' ++ s) x) } (self :: parents)) := by
            cases bit
            · exact zeroIh _ s label' present (self :: parents) fits rfl ⟨ends, matched⟩ lower.1
                lower.2 fun overruns => clear (.further overruns)
            · exact oneIh _ s label' present (self :: parents) fits rfl ⟨ends, matched⟩ lower.1
                lower.2 fun overruns => clear (.further overruns)
          obtain ⟨v, z, o, kept⟩ := insert_label label' s value' zero' one' x
          rw [recursion, present, kept, rebuild, insert_below, present, kept, children,
            kidsOf_branch label]
          refine congrArg (fun children => Except.ok (rebuild { self with children := children } _))
            (put_kids bit v z o short zeroFits oneFits (.inr ?_))
          exact ⟨_, _, _, present⟩
        · exact absurd (.here present) clear
        · rw [if_neg aside]
          exact assign_aside small root fits children zeroFits oneFits present aside

theorem fits_branch {depth : Nat} {here there : Trie T} (within : depth + 1 + label.length ≤ N)
    (hereFits : Fits N (depth + 1 + label.length) here)
    (thereFits : Fits N (depth + 1 + label.length) there) :
    Fits N depth (branch label value bit here there) := by
  cases bit
  · exact ⟨within, hereFits, thereFits⟩
  · exact ⟨within, thereFits, hereFits⟩

theorem fits_insert {depth : Nat} {t : Trie T} (fits : Fits N depth t) {s : List Bool}
    (within : depth + 1 + s.length ≤ N) : Fits N depth (t.insert s x) := by
  induction t generalizing depth s with
  | empty => exact ⟨within, trivial, trivial⟩
  | node label value zero one zeroIh oneIh =>
    obtain ⟨inside, zeroFits, oneFits⟩ := fits
    rcases key_cases label s with rfl | ⟨bit, rest, rfl⟩ | aside
    · rw [insert_here]
      exact ⟨inside, zeroFits, oneFits⟩
    · have below : depth + 1 + label.length + 1 + rest.length ≤ N := by
        simp only [List.length_append, List.length_cons] at within
        omega
      rw [insert_below]
      cases bit
      · exact fits_branch inside (zeroIh zeroFits below) oneFits
      · exact fits_branch inside (oneIh oneFits below) zeroFits
    · obtain ⟨common, bit, below, rfl, leaves⟩ := aside_cases aside
      have deeper : depth + 1 + (common ++ bit :: below).length =
          depth + 1 + common.length + 1 + below.length := by
        simp only [List.length_append, List.length_cons]
        omega
      rw [deeper] at inside zeroFits oneFits
      rcases leaves with rfl | ⟨rest, rfl⟩
      · rw [insert_inside]
        exact fits_branch within ⟨inside, zeroFits, oneFits⟩ trivial
      · rw [insert_aside]
        simp only [List.length_append, List.length_cons] at within
        exact fits_branch (by omega) ⟨inside, zeroFits, oneFits⟩ ⟨by omega, trivial, trivial⟩

end

end NetifyAgent.RadixInsert
