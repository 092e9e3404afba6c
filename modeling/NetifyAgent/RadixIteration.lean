import NetifyAgent.RadixRewinds

/-! The iterator of `radix_tree_it.hpp`. It stands at a leaf, and goes on by looking
the key of the node up among the children of its parent, so that it comes to the next
child and down to its first leaf, or up if there is none. -/
namespace NetifyAgent
open RadixKeys RadixRewinds
open RadixTrie (leafOf)

variable {N : Nat} {T : Type}

/-- `radix_tree_it` at a leaf: its value, and its ancestors from the parent on. -/
structure RadixIt (N : Nat) (T : Type) where
  value : RadixNetworkEntry N × T
  parents : List (RadixNode N T)

namespace RadixChildren

/-- `++it` for the `it` that `m_children.find(key)` returns: the children from there
on. It is `none` if no child has the key, which is asserted not to happen. -/
def after (found : RadixNetworkEntry N) : RadixChildren N T → Option (RadixChildren N T)
  | nil => none
  | leaf _ rest => if found = nul then some rest else rest.after found
  | inner key _ _ rest => if key = found then some rest else rest.after found

/-- `descend` to the first of these children, and on to a leaf. It is `none` if a node
has no children, which is asserted not to happen. -/
def descend (parents : List (RadixNode N T)) : RadixChildren N T → Option (RadixIt N T)
  | nil => none
  | leaf value _ => some ⟨value, parents⟩
  | inner key depth children _ => children.descend (⟨key, depth, children⟩ :: parents)

end RadixChildren

/-- `increment` of a node with this key and these ancestors; the result is the end
where no node is left. It is `none` where an assertion fails. -/
def increment (key : RadixNetworkEntry N) : List (RadixNode N T) → Option (Option (RadixIt N T))
  | [] => some none
  | parent :: up =>
    match parent.children.after key with
    | none => none
    | some .nil => increment parent.key up
    | some rest => (rest.descend (parent :: up)).map some

/-- `operator++`; the key of a leaf is empty. -/
def RadixIt.next (it : RadixIt N T) : Option (Option (RadixIt N T)) := increment nul it.parents

/-- `radix_tree` with `m_size`. -/
structure SizedTree (N : Nat) (T : Type) where
  tree : RadixTree N T := {}
  size : Nat := 0

namespace SizedTree

/-- `begin`. -/
def begin_ (s : SizedTree N T) : Option (Option (RadixIt N T)) :=
  match s.tree.root with
  | none => some none
  | some root => if s.size = 0 then some none else (root.children.descend [root]).map some

/-- `operator[]` and the assignment to what it returns. `insert` counts before
`prepend` may refuse the network. -/
def assign (s : SizedTree N T) (e : RadixNetworkEntry N × T) : SizedTree N T where
  tree := assignTo s.tree e
  size := if (s.tree.find e.1).isSome then s.size else s.size + 1

end SizedTree

/-- From a position on, incrementing visits these entries and comes to the end. -/
inductive Visits : Option (RadixIt N T) → List (RadixNetworkEntry N × T) → Prop
  | done : Visits none []
  | go {it : RadixIt N T} {next : Option (RadixIt N T)} {later : List (RadixNetworkEntry N × T)}
      (goes : it.next = some next) (rest : Visits next later) : Visits (some it) (it.value :: later)

namespace RadixIteration

/-! ## Children with different keys -/

/-- The keys of `m_children`. -/
def keys : RadixChildren N T → List (RadixNetworkEntry N)
  | .nil => []
  | .leaf _ rest => nul :: keys rest
  | .inner key _ _ rest => key :: keys rest

/-- The keys of every node's children are different, and inner nodes have children. -/
def Sound : RadixChildren N T → Prop
  | .nil => True
  | .leaf _ rest => nul ∉ keys rest ∧ Sound rest
  | .inner key _ children rest =>
    key ∉ keys rest ∧ children ≠ .nil ∧ Sound children ∧ Sound rest

/-- The children of a node from one of them on. -/
def Tail : RadixChildren N T → RadixChildren N T → Prop
  | .nil, rest => rest = .nil
  | .leaf value later, rest => rest = .leaf value later ∨ Tail later rest
  | .inner key depth below later, rest => rest = .inner key depth below later ∨ Tail later rest

/-- The first of some children, by its key, and those behind it. -/
def First (key : RadixNetworkEntry N) (behind rest : RadixChildren N T) : Prop :=
  (∃ value, rest = .leaf value behind ∧ key = nul) ∨
    ∃ depth below, rest = .inner key depth below behind

section
variable {children rest behind : RadixChildren N T} {key : RadixNetworkEntry N}

theorem tail_refl (children : RadixChildren N T) : Tail children children := by
  cases children with
  | nil => rfl
  | leaf => exact .inl rfl
  | inner => exact .inl rfl

theorem First.key_mem (first : First key behind rest) : key ∈ keys rest := by
  rcases first with ⟨value, rfl, rfl⟩ | ⟨depth, below, rfl⟩ <;> exact List.mem_cons_self

theorem tail_keys (tail : Tail children rest) : ∀ key ∈ keys rest, key ∈ keys children := by
  induction children with
  | nil => rw [show rest = .nil from tail]; exact fun _ none => none
  | leaf value later ih =>
    rcases tail with rfl | tail
    · exact fun _ here => here
    · exact fun key here => List.mem_cons_of_mem _ (ih tail key here)
  | inner k d below later _ ih =>
    rcases tail with rfl | tail
    · exact fun _ here => here
    · exact fun key here => List.mem_cons_of_mem _ (ih tail key here)

theorem tail_sound (sound : Sound children) (tail : Tail children rest) : Sound rest := by
  induction children with
  | nil => rw [show rest = .nil from tail]; trivial
  | leaf value later ih =>
    rcases tail with rfl | tail
    · exact sound
    · exact ih sound.2 tail
  | inner k d below later _ ih =>
    rcases tail with rfl | tail
    · exact sound
    · exact ih sound.2.2.2 tail

/-- The children behind one of them. -/
theorem tail_behind (tail : Tail children rest) (first : First key behind rest) :
    Tail children behind := by
  induction children with
  | nil =>
    rw [show rest = .nil from tail] at first
    rcases first with ⟨_, none, _⟩ | ⟨_, _, none⟩ <;> cases none
  | leaf value later ih =>
    rcases tail with rfl | tail
    · rcases first with ⟨_, same, _⟩ | ⟨_, _, same⟩
      · cases same
        exact .inr (tail_refl _)
      · cases same
    · exact .inr (ih tail)
  | inner k d below later _ ih =>
    rcases tail with rfl | tail
    · rcases first with ⟨_, same, _⟩ | ⟨_, _, same⟩
      · cases same
      · cases same
        exact .inr (tail_refl _)
    · exact .inr (ih tail)

/-- A child is found by its key. -/
theorem after_of_tail (sound : Sound children) (tail : Tail children rest)
    (first : First key behind rest) : children.after key = some behind := by
  induction children with
  | nil =>
    rw [show rest = .nil from tail] at first
    rcases first with ⟨_, none, _⟩ | ⟨_, _, none⟩ <;> cases none
  | leaf value later ih =>
    rcases tail with rfl | tail
    · rcases first with ⟨_, same, rfl⟩ | ⟨_, _, same⟩
      · cases same
        exact if_pos rfl
      · cases same
    · have other : key ≠ nul := by
        rintro rfl
        exact sound.1 (tail_keys tail _ first.key_mem)
      rw [RadixChildren.after, if_neg other]
      exact ih sound.2 tail
  | inner k d below later _ ih =>
    rcases tail with rfl | tail
    · rcases first with ⟨_, same, _⟩ | ⟨_, _, same⟩
      · cases same
      · cases same
        exact if_pos rfl
    · have other : k ≠ key := by
        rintro rfl
        exact sound.1 (tail_keys tail _ first.key_mem)
      rw [RadixChildren.after, if_neg other]
      exact ih sound.2.2.2 tail

end

/-! ## Where an iterator stands -/

/-- Each ancestor is one of the children of the next, and the node with the key is one
of the children of the first. -/
def Linked : RadixNetworkEntry N → List (RadixNode N T) → Prop
  | _, [] => True
  | key, parent :: up =>
    Sound parent.children ∧ (∃ rest behind, Tail parent.children rest ∧ First key behind rest) ∧
      Linked parent.key up

/-- What is left behind a node with this key and these ancestors. -/
def left : RadixNetworkEntry N → List (RadixNode N T) → List (RadixNetworkEntry N × T)
  | _, [] => []
  | key, parent :: up =>
    ((parent.children.after key).getD .nil).values ++ left parent.key up

/-- The first leaf below some children of a node. -/
theorem descend_spec {children : RadixChildren N T} {parent : RadixNode N T}
    {up : List (RadixNode N T)} (sound : Sound parent.children)
    (tail : Tail parent.children children) (some : children ≠ .nil)
    (linked : Linked parent.key up) :
    ∃ it, children.descend (parent :: up) = Option.some it ∧ Linked nul it.parents ∧
      it.value :: left nul it.parents = children.values ++ left parent.key up := by
  induction children generalizing parent up with
  | nil => exact absurd rfl some
  | leaf value rest ih =>
    have first : First nul rest (.leaf value rest) := .inl ⟨value, rfl, rfl⟩
    refine ⟨⟨value, parent :: up⟩, rfl, ⟨sound, ⟨_, rest, tail, first⟩, linked⟩, ?_⟩
    simp only [left, after_of_tail sound tail first, Option.getD_some]
    rfl
  | inner key depth below rest belowIh _ =>
    have here := tail_sound sound tail
    have first : First key rest (.inner key depth below rest) := .inr ⟨depth, below, rfl⟩
    obtain ⟨it, found, itLinked, visits⟩ := @belowIh ⟨key, depth, below⟩
      (parent :: up) here.2.2.1 (tail_refl _) here.2.1
      ⟨sound, ⟨_, rest, tail, first⟩, linked⟩
    refine ⟨it, found, itLinked, ?_⟩
    rw [visits, left, after_of_tail sound tail first, RadixChildren.values, List.append_assoc]
    rfl

/-- Incrementing comes to what is left. -/
theorem increment_spec {key : RadixNetworkEntry N} {parents : List (RadixNode N T)}
    (linked : Linked key parents) :
    (left key parents = [] ∧ increment key parents = some none) ∨
      ∃ it, increment key parents = some (some it) ∧ Linked nul it.parents ∧
        left key parents = it.value :: left nul it.parents := by
  induction parents generalizing key with
  | nil => exact .inl ⟨rfl, rfl⟩
  | cons parent up ih =>
    obtain ⟨sound, ⟨rest, behind, tail, first⟩, above⟩ := linked
    have found := after_of_tail sound tail first
    have tail := tail_behind tail first
    by_cases last : behind = .nil
    · subst last
      have climbs : increment key (parent :: up) = increment parent.key up := by
        rw [increment, found]
      have same : left key (parent :: up) = left parent.key up := by
        rw [left, found]
        rfl
      rw [climbs, same]
      exact ih above
    · obtain ⟨it, down, itLinked, visits⟩ := descend_spec sound tail last above
      refine .inr ⟨it, ?_, itLinked, ?_⟩
      · rw [increment, found]
        cases behind with
        | nil => exact absurd rfl last
        | leaf => simp only [down, Option.map_some]
        | inner => simp only [down, Option.map_some]
      · rw [visits, left, found, Option.getD_some]

/-- From an iterator on, its leaf and what is left are visited. -/
theorem visits_left {n : Nat} {it : RadixIt N T} (linked : Linked nul it.parents)
    (length : (left nul it.parents).length = n) :
    Visits (some it) (it.value :: left nul it.parents) := by
  induction n generalizing it with
  | zero =>
    rcases increment_spec linked with ⟨none, goes⟩ | ⟨next, -, -, more⟩
    · rw [none]
      exact .go goes .done
    · rw [more] at length
      cases length
  | succ n ih =>
    rcases increment_spec linked with ⟨none, -⟩ | ⟨next, goes, nextLinked, more⟩
    · rw [none] at length
      cases length
    · rw [more] at length ⊢
      exact .go goes (ih nextLinked (Nat.succ.inj length))

/-! ## Trees that are made by assignment -/

section
variable {path : List Bool} {bit : Bool} {value : Option T} {t zero one : Rewind T}

theorem limbs_ne_nil (present : value ≠ none ∨ zero ≠ .empty ∨ one ≠ .empty) :
    (limbs path value zero one : RadixChildren N T) ≠ .nil := by
  cases value <;> cases zero <;> cases one <;> simp [limbs, limb, leafOf] at present ⊢

/-- A child with children of its own, all of them sound. -/
def Grown (child : Option (Child N T)) : Prop :=
  ∀ key children, child = some (key, children) → children ≠ .nil ∧ Sound children

/-- The leaf and the two sides of a node have different keys. -/
theorem sound_slots {zero one : Option (Child N T)} (zeroSide : OnSide false zero)
    (oneSide : OnSide true one) (zeroGrown : Grown zero) (oneGrown : Grown one) :
    Sound (slots path value zero one) := by
  have last : Sound (slot path one .nil) := by
    cases one with
    | none => trivial
    | some child =>
      obtain ⟨some, sound⟩ := oneGrown _ _ rfl
      exact ⟨List.not_mem_nil, some, sound, trivial⟩
  have both : Sound (slot path zero (slot path one .nil)) := by
    cases zero with
    | none => exact last
    | some child =>
      obtain ⟨some, sound⟩ := zeroGrown _ _ rfl
      refine ⟨?_, some, sound, last⟩
      cases one with
      | none => exact List.not_mem_nil
      | some other =>
        have low := (zeroSide _ _ rfl).1
        have high := (oneSide _ _ rfl).1
        rintro here
        rw [show child.1 = other.1 from List.mem_singleton.mp here, high] at low
        cases low
  cases value with
  | none => exact both
  | some v =>
    refine ⟨?_, both⟩
    cases zero with
    | none =>
      cases one with
      | none => exact List.not_mem_nil
      | some other => exact fun here => (oneSide _ _ rfl).2 (List.mem_singleton.mp here).symm
    | some child =>
      intro here
      rcases List.mem_cons.mp here with here | here
      · exact (zeroSide _ _ rfl).2 here.symm
      · cases one with
        | none => cases here
        | some other => exact (oneSide _ _ rfl).2 (List.mem_singleton.mp here).symm

/-- What a trie is kept as. -/
theorem grown_childOf (small : N < 2 ^ 31) (pathFits : path.length ≤ N)
    (sound : Rewind.Sound N path bit t) : Grown (childOf N path bit t) := by
  induction sound with
  | empty => exact fun key children none => by cases none
  | @node path bit edge value zero one fits returns useful passed zeroSound oneSound zeroIh
      oneIh =>
    intro key children same
    cases same
    refine ⟨limbs_ne_nil ?_, ?_⟩
    · cases value with
      | some v => exact .inl (Option.some_ne_none v)
      | none =>
        obtain ⟨⟨_, _, _, _, rfl⟩, -⟩ := useful rfl
        exact .inr (.inl (fun none => by cases none))
    · rw [limbs_slots]
      exact sound_slots (onSide_childOf small fits zeroSound) (onSide_childOf small fits oneSound)
        (zeroIh fits) (oneIh fits)

/-- The children of the root. -/
theorem sound_limbs (small : N < 2 ^ 31) {sides : Rewind T × Rewind T}
    (sound : Rewind.Sides N sides) :
    Sound (limbs [] none sides.1 sides.2 : RadixChildren N T) := by
  rw [limbs_slots]
  exact sound_slots (onSide_childOf small (Nat.zero_le N) sound.zero)
    (onSide_childOf small (Nat.zero_le N) sound.one)
    (grown_childOf small (Nat.zero_le N) sound.zero)
    (grown_childOf small (Nat.zero_le N) sound.one)

end

/-- A tree that keeps two tries and is empty where it counts none. -/
structure Counted (s : SizedTree N T) : Prop where
  kept : RadixRewinds.Kept s.tree
  counts : s.size = 0 → s.tree = {}

theorem counted_assign (small : N < 2 ^ 31) {s : SizedTree N T} (counted : Counted s)
    {entry : RadixNetworkEntry N} (network : OfNetwork entry) (x : T) :
    Counted (s.assign (entry, x)) := by
  refine ⟨(kept_assignTo small counted.kept network x).1, fun nothing => ?_⟩
  simp only [SizedTree.assign] at nothing
  split at nothing
  · -- only a tree that is not empty finds the network
    next found =>
    rw [counted.counts nothing] at found
    cases found
  · cases nothing

/-- **Iteration** of a tree that is made by assignment comes to every leaf, one after
the other. -/
theorem visits_values (small : N < 2 ^ 31) {s : SizedTree N T} (counted : Counted s) :
    ∃ start, s.begin_ = some start ∧ Visits start s.tree.values := by
  obtain ⟨sides, sound, same⟩ := counted.kept
  obtain ⟨tree, size⟩ := s
  subst same
  obtain ⟨zero, one⟩ := sides
  by_cases present : zero ≠ .empty ∨ one ≠ .empty
  · have root := treeOf_some (N := N) present
    have positive : size ≠ 0 := by
      intro nothing
      have none := (root.symm.trans (counted.counts nothing))
      cases none
    have some : (limbs [] none zero one : RadixChildren N T) ≠ .nil := limbs_ne_nil (.inr present)
    obtain ⟨it, down, linked, visits⟩ := @descend_spec N T (limbs [] none zero one)
      ⟨nul, 0, limbs [] none zero one⟩ [] (sound_limbs small sound) (tail_refl _) some trivial
    refine ⟨Option.some it, ?_, ?_⟩
    · simp only [SizedTree.begin_, root, if_neg positive]
      rw [down, Option.map_some]
    · have values : (treeOf (zero, one) : RadixTree N T).values = it.value :: left nul it.parents := by
        rw [visits, root]
        exact (List.append_nil _).symm
      rw [values]
      exact visits_left linked rfl
  · obtain ⟨rfl, rfl⟩ : zero = .empty ∧ one = .empty := by simpa [not_or] using present
    exact ⟨none, rfl, .done⟩

/-- What a run of assignments keeps, and where its leaves are from. -/
theorem foldl_assign (small : N < 2 ^ 31) {es : List (RadixNetworkEntry N × T)}
    (networks : ∀ e ∈ es, OfNetwork e.1) {s : SizedTree N T} (counted : Counted s) :
    Counted (es.foldl SizedTree.assign s) ∧
      ∀ e ∈ (es.foldl SizedTree.assign s).tree.values, e ∈ s.tree.values ∨ e ∈ es := by
  induction es generalizing s with
  | nil => exact ⟨counted, fun e member => .inl member⟩
  | cons e es ih =>
    have network := networks e List.mem_cons_self
    obtain ⟨counted', members⟩ := ih (fun e member => networks e (List.mem_cons_of_mem _ member))
      (counted_assign small counted network e.2)
    refine ⟨counted', fun e' member => ?_⟩
    rcases members e' member with before | after
    · rcases (kept_assignTo small counted.kept network e.2).2 e' before with old | rfl
      · exact .inl old
      · exact .inr List.mem_cons_self
    · exact .inr (List.mem_cons_of_mem _ after)

/-- Assignments to other networks leave a leaf. -/
theorem mem_foldl_assign (small : N < 2 ^ 31) {es : List (RadixNetworkEntry N × T)}
    (networks : ∀ e ∈ es, OfNetwork e.1) {s : SizedTree N T} (counted : Counted s)
    {e : RadixNetworkEntry N × T} (member : e ∈ s.tree.values)
    (others : ∀ e' ∈ es, e'.1 ≠ e.1) : e ∈ (es.foldl SizedTree.assign s).tree.values := by
  induction es generalizing s with
  | nil => exact member
  | cons e' es ih =>
    have network := networks e' List.mem_cons_self
    refine ih (fun e member => networks e (List.mem_cons_of_mem _ member))
      (counted_assign small counted network e'.2) ?_
      (fun e member => others e (List.mem_cons_of_mem _ member))
    exact kept_values small counted.kept network (others e' List.mem_cons_self) member

end RadixIteration
end NetifyAgent
