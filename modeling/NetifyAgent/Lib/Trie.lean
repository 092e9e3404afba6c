import Mathlib.Data.List.Infix
import Mathlib.Logic.Function.Basic

/-! Path-compressed tries over bit strings. Each node is entered through a bit
and then spells the bits of its label; a stored key ends at a node with a value.
Insertion and removal are updates of the map from keys to values, and a search
for the longest match finds the longest stored prefix of a string. -/
namespace NetifyAgent

inductive Trie (V : Type) where
  | empty
  | node (label : List Bool) (value : Option V) (zero one : Trie V)
  deriving Repr

namespace Trie
variable {V : Type}

/-- The subtrie behind a bit. -/
def side (zero one : Trie V) : Bool → Trie V
  | false => zero
  | true => one

/-- A node with one subtrie on the side of a bit and one on the other. -/
def branch (label : List Bool) (value : Option V) (bit : Bool) (here there : Trie V) : Trie V :=
  if bit then node label value there here else node label value here there

/-- The value stored for exactly this key. -/
def lookup : Trie V → List Bool → Option V
  | empty, _ => none
  | node label value zero one, key =>
    match label.isPrefixOf? key with
    | none => none
    | some [] => value
    | some (false :: rest) => zero.lookup rest
    | some (true :: rest) => one.lookup rest

/-- The value stored for the longest prefix of a string. -/
def longest : Trie V → List Bool → Option V
  | empty, _ => none
  | node label value zero one, key =>
    match label.isPrefixOf? key with
    | none => none
    | some [] => value
    | some (false :: rest) => (zero.longest rest).or value
    | some (true :: rest) => (one.longest rest).or value

/-- What two strings begin with, and what is left of each. -/
def split : List Bool → List Bool → List Bool × List Bool × List Bool
  | a :: l, b :: k =>
    if a = b then
      let rest := split l k
      (a :: rest.1, rest.2)
    else ([], a :: l, b :: k)
  | l, k => ([], l, k)

/-- A node cut in two, where a new key ends or leaves it. -/
def fork (common : List Bool) (bit : Bool) (below : Trie V) (rest : List Bool) (v : V) : Trie V :=
  match rest with
  | [] => branch common (some v) bit below empty
  | _ :: rest => branch common none bit below (node rest (some v) empty empty)

def insert : Trie V → List Bool → V → Trie V
  | empty, key, v => node key (some v) empty empty
  | node label value zero one, key, v =>
    match split label key with
    | (_, [], []) => node label (some v) zero one
    | (_, [], false :: rest) => node label value (zero.insert rest v) one
    | (_, [], true :: rest) => node label value zero (one.insert rest v)
    | (common, bit :: below, rest) => fork common bit (node below value zero one) rest v

/-- A node that may have become superfluous: without a value and without
subtries it goes, and with one subtrie only it is joined with it. -/
def collapse (label : List Bool) : Option V → Trie V → Trie V → Trie V
  | none, empty, empty => empty
  | none, node below value zero one, empty => node (label ++ false :: below) value zero one
  | none, empty, node below value zero one => node (label ++ true :: below) value zero one
  | value, zero, one => node label value zero one

def erase : Trie V → List Bool → Trie V
  | empty, _ => empty
  | node label value zero one, key =>
    match label.isPrefixOf? key with
    | none => node label value zero one
    | some [] => collapse label none zero one
    | some (false :: rest) => collapse label value (zero.erase rest) one
    | some (true :: rest) => collapse label value zero (one.erase rest)

/-- Every node has a value or two subtries. -/
def Compressed : Trie V → Prop
  | empty => True
  | node _ value zero one =>
    (value ≠ none ∨ (zero ≠ empty ∧ one ≠ empty)) ∧ zero.Compressed ∧ one.Compressed

/-! ## One node -/

section
variable {label key common rest : List Bool} {value : Option V} {zero one : Trie V} {v : V}

@[simp] theorem isPrefixOf?_append (label rest : List Bool) :
    label.isPrefixOf? (label ++ rest) = some rest :=
  List.isPrefixOf?_eq_some_iff_append_eq.mpr rfl

@[simp] theorem lookup_empty (key : List Bool) : (empty : Trie V).lookup key = none := rfl

theorem lookup_here : (node label value zero one).lookup label = value := by
  have stripped : label.isPrefixOf? label = some [] :=
    List.isPrefixOf?_eq_some_iff_append_eq.mpr (List.append_nil label)
  simp [lookup, stripped]

theorem lookup_below (bit : Bool) :
    (node label value zero one).lookup (label ++ bit :: rest) =
      (side zero one bit).lookup rest := by
  cases bit <;> simp [lookup, side]

theorem lookup_aside (aside : ¬ label <+: key) : (node label value zero one).lookup key = none := by
  have stripped : label.isPrefixOf? key = none := by
    cases stripped : label.isPrefixOf? key with
    | none => rfl
    | some rest => exact absurd ⟨rest, List.append_eq_of_isPrefixOf?_eq_some stripped⟩ aside
  simp [lookup, stripped]

/-- A key ends at a node, goes on below it or leaves its label. -/
theorem key_cases (label key : List Bool) :
    key = label ∨ (∃ bit rest, key = label ++ bit :: rest) ∨ ¬ label <+: key := by
  by_cases inside : label <+: key
  · obtain ⟨rest, rfl⟩ := inside
    cases rest with
    | nil => exact .inl (List.append_nil label)
    | cons bit rest => exact .inr (.inl ⟨bit, rest, rfl⟩)
  · exact .inr (.inr inside)

theorem lookup_branch_here (bit : Bool) (here there : Trie V) :
    (branch label value bit here there).lookup label = value := by
  unfold branch
  split <;> exact lookup_here

theorem lookup_branch (bit bit' : Bool) (here there : Trie V) :
    (branch label value bit here there).lookup (label ++ bit' :: rest) =
      if bit' = bit then here.lookup rest else there.lookup rest := by
  unfold branch
  cases bit <;> cases bit' <;> simp [lookup_below, side]

theorem lookup_branch_aside (bit : Bool) (here there : Trie V) (aside : ¬ label <+: key) :
    (branch label value bit here there).lookup key = none := by
  unfold branch
  split <;> exact lookup_aside aside

theorem branch_sides (bit : Bool) :
    branch label value bit (side zero one bit) (side zero one !bit) = node label value zero one := by
  cases bit <;> rfl

theorem branch_swap (bit : Bool) (here there : Trie V) :
    branch label value (!bit) here there = branch label value bit there here := by
  cases bit <;> rfl

/-- A node with another value. -/
theorem lookup_value (w : Option V) : (node label w zero one).lookup =
    Function.update (node label value zero one).lookup label w := by
  funext probe
  rcases key_cases label probe with rfl | ⟨bit, rest, rfl⟩ | aside
  · rw [lookup_here, Function.update_self]
  · rw [Function.update_of_ne (by simp), lookup_below, lookup_below]
  · rw [Function.update_of_ne, lookup_aside aside, lookup_aside aside]
    rintro rfl
    exact aside (List.prefix_refl probe)

/-- A node with another subtrie. -/
theorem lookup_side {here here' : Trie V} {w : Option V} (bit : Bool) (there : Trie V)
    (changed : here'.lookup = Function.update here.lookup rest w) :
    (branch label value bit here' there).lookup =
      Function.update (branch label value bit here there).lookup (label ++ bit :: rest) w := by
  funext probe
  by_cases same : probe = label ++ bit :: rest
  · subst same
    rw [Function.update_self, lookup_branch, if_pos rfl, changed, Function.update_self]
  · rw [Function.update_of_ne same]
    rcases key_cases label probe with rfl | ⟨bit', rest', rfl⟩ | aside
    · rw [lookup_branch_here, lookup_branch_here]
    · rw [lookup_branch, lookup_branch]
      by_cases turn : bit' = bit
      · rw [if_pos turn, if_pos turn, changed, Function.update_of_ne]
        rintro rfl
        exact same (by rw [turn])
      · rw [if_neg turn, if_neg turn]
    · rw [lookup_branch_aside _ _ _ aside, lookup_branch_aside _ _ _ aside]

/-- Below a bit of its label a node is the node with the rest of the label. -/
theorem lookup_cut (common below rest : List Bool) (bit : Bool) (value : Option V)
    (zero one : Trie V) :
    (node (common ++ bit :: below) value zero one).lookup (common ++ bit :: rest) =
      (node below value zero one).lookup rest := by
  have shared (rest : List Bool) : common ++ bit :: rest = (common ++ [bit]) ++ rest := by simp
  rw [shared below, shared rest]
  rcases key_cases below rest with rfl | ⟨bit', rest', rfl⟩ | aside
  · rw [lookup_here, lookup_here]
  · rw [← List.append_assoc, lookup_below, lookup_below]
  · rw [lookup_aside aside, lookup_aside]
    rwa [List.prefix_append_right_inj]

/-- A node with a long label stores what it would below a node of its own. -/
theorem lookup_join (common below : List Bool) (bit : Bool) (value : Option V)
    (zero one : Trie V) : (node (common ++ bit :: below) value zero one).lookup =
      (branch common none bit (node below value zero one) empty).lookup := by
  have off {probe : List Bool} (off : ¬ common ++ [bit] <+: probe) :
      (node (common ++ bit :: below) value zero one).lookup probe = none := by
    refine lookup_aside fun inside => off (List.IsPrefix.trans ?_ inside)
    exact ⟨below, by simp⟩
  funext probe
  rcases key_cases common probe with rfl | ⟨bit', rest, rfl⟩ | aside
  · rw [lookup_branch_here, off]
    exact fun inside => Nat.not_succ_le_self probe.length (by simpa using inside.length_le)
  · rw [lookup_branch]
    by_cases turn : bit' = bit
    · rw [if_pos turn, turn, lookup_cut]
    · rw [if_neg turn, lookup_empty, off]
      rw [List.prefix_append_right_inj, List.cons_prefix_cons]
      exact fun same => turn same.1.symm
  · rw [lookup_branch_aside _ _ _ aside, off]
    exact fun inside => aside (List.IsPrefix.trans (List.prefix_append _ _) inside)

end

/-! ## Insertion -/

theorem split_append (common label key : List Bool) :
    split (common ++ label) (common ++ key) =
      (common ++ (split label key).1, (split label key).2) := by
  induction common with
  | nil => rfl
  | cons bit common ih =>
    have step : split (bit :: (common ++ label)) (bit :: (common ++ key)) =
        (bit :: (split (common ++ label) (common ++ key)).1,
          (split (common ++ label) (common ++ key)).2) := if_pos rfl
    rw [List.cons_append, List.cons_append, step, ih]
    rfl

/-- A key that does not pass a label ends inside it or leaves it. -/
theorem aside_cases {label key : List Bool} (aside : ¬ label <+: key) :
    ∃ common bit below, label = common ++ bit :: below ∧
      (key = common ∨ ∃ rest, key = common ++ (!bit) :: rest) := by
  induction label generalizing key with
  | nil => exact absurd (List.nil_prefix) aside
  | cons a label ih =>
    cases key with
    | nil => exact ⟨[], a, label, rfl, .inl rfl⟩
    | cons b key =>
      by_cases same : b = a
      · subst same
        rw [List.cons_prefix_cons, and_iff_right rfl] at aside
        obtain ⟨common, bit, below, rfl, rfl | ⟨rest, rfl⟩⟩ := ih aside
        · exact ⟨b :: key, bit, below, rfl, .inl rfl⟩
        · exact ⟨b :: common, bit, below, rfl, .inr ⟨rest, rfl⟩⟩
      · have other : b = !a := Bool.eq_not.mpr same
        exact ⟨[], a, label, rfl, .inr ⟨key, by rw [other]; rfl⟩⟩

section
variable {label key rest : List Bool} {value : Option V} {zero one : Trie V} {v : V}

theorem insert_here : (node label value zero one).insert label v = node label (some v) zero one := by
  have cut := split_append label [] []
  rw [List.append_nil] at cut
  rw [insert, cut]
  rfl

theorem insert_below (bit : Bool) : (node label value zero one).insert (label ++ bit :: rest) v =
    branch label value bit ((side zero one bit).insert rest v) (side zero one !bit) := by
  have cut := split_append label [] (bit :: rest)
  rw [List.append_nil] at cut
  rw [insert, cut]
  cases bit <;> rfl

theorem insert_inside (common below : List Bool) (bit : Bool) :
    (node (common ++ bit :: below) value zero one).insert common v =
      branch common (some v) bit (node below value zero one) empty := by
  have cut := split_append common (bit :: below) []
  rw [List.append_nil] at cut
  rw [insert, cut]
  simp [split, fork]

theorem insert_aside (common below : List Bool) (bit : Bool) :
    (node (common ++ bit :: below) value zero one).insert (common ++ (!bit) :: rest) v =
      branch common none bit (node below value zero one) (node rest (some v) empty empty) := by
  rw [insert, split_append]
  cases bit <;> simp [split, fork]

end

theorem lookup_single (key : List Bool) (v : V) :
    (node key (some v) empty empty).lookup = Function.update (fun _ => none) key (some v) := by
  funext probe
  rcases key_cases key probe with rfl | ⟨bit, rest, rfl⟩ | aside
  · rw [lookup_here, Function.update_self]
  · rw [lookup_below, Function.update_of_ne (by simp)]
    cases bit <;> rfl
  · rw [lookup_aside aside, Function.update_of_ne]
    rintro rfl
    exact aside (List.prefix_refl probe)

/-- **Insertion** is an update of the stored values. -/
theorem lookup_insert (t : Trie V) (key : List Bool) (v : V) :
    (t.insert key v).lookup = Function.update t.lookup key (some v) := by
  induction t generalizing key with
  | empty => exact lookup_single key v
  | node label value zero one zeroIh oneIh =>
    rcases key_cases label key with rfl | ⟨bit, rest, rfl⟩ | aside
    · rw [insert_here]
      exact lookup_value (some v)
    · rw [insert_below, ← branch_sides bit]
      refine lookup_side bit _ ?_
      cases bit
      · exact zeroIh rest
      · exact oneIh rest
    · obtain ⟨common, bit, below, rfl, rfl | ⟨rest, rfl⟩⟩ := aside_cases aside
      · rw [insert_inside, lookup_join]
        cases bit <;> exact lookup_value (some v)
      · rw [insert_aside, lookup_join, ← branch_swap bit, ← branch_swap bit]
        exact lookup_side (!bit) _ (lookup_single rest v)

/-! ## Removal -/

section
variable {label key rest : List Bool} {value : Option V} {zero one : Trie V}

theorem erase_here : (node label value zero one).erase label = collapse label none zero one := by
  have stripped : label.isPrefixOf? label = some [] :=
    List.isPrefixOf?_eq_some_iff_append_eq.mpr (List.append_nil label)
  rw [erase, stripped]

theorem erase_below (bit : Bool) : (node label value zero one).erase (label ++ bit :: rest) =
    collapse label value (if bit then zero else zero.erase rest)
      (if bit then one.erase rest else one) := by
  rw [erase, isPrefixOf?_append]
  cases bit <;> rfl

theorem erase_aside (aside : ¬ label <+: key) :
    (node label value zero one).erase key = node label value zero one := by
  have stripped : label.isPrefixOf? key = none := by
    cases stripped : label.isPrefixOf? key with
    | none => rfl
    | some rest => exact absurd ⟨rest, List.append_eq_of_isPrefixOf?_eq_some stripped⟩ aside
  rw [erase, stripped]

/-- Joining nodes keeps what is stored. -/
theorem lookup_collapse (label : List Bool) (value : Option V) (zero one : Trie V) :
    (collapse label value zero one).lookup = (node label value zero one).lookup := by
  unfold collapse
  split
  · funext probe
    rcases key_cases label probe with rfl | ⟨bit, rest, rfl⟩ | aside
    · rw [lookup_here, lookup_empty]
    · rw [lookup_below]
      cases bit <;> rfl
    · rw [lookup_aside aside, lookup_empty]
  · exact lookup_join label _ false _ _ _
  · exact lookup_join label _ true _ _ _
  · rfl

end

/-- **Removal** is an update of the stored values. -/
theorem lookup_erase (t : Trie V) (key : List Bool) :
    (t.erase key).lookup = Function.update t.lookup key none := by
  induction t generalizing key with
  | empty => exact (Function.update_eq_self_iff.mpr rfl).symm
  | node label value zero one zeroIh oneIh =>
    rcases key_cases label key with rfl | ⟨bit, rest, rfl⟩ | aside
    · rw [erase_here, lookup_collapse]
      exact lookup_value none
    · rw [erase_below, lookup_collapse]
      cases bit
      · exact lookup_side false one (zeroIh rest)
      · exact lookup_side true zero (oneIh rest)
    · rw [erase_aside aside]
      rw [eq_comm, Function.update_eq_self_iff]
      exact (lookup_aside aside).symm

/-! ## Compression -/

theorem insert_ne_empty (t : Trie V) (key : List Bool) (v : V) : t.insert key v ≠ empty := by
  cases t with
  | empty => simp [insert]
  | node label value zero one =>
    rcases key_cases label key with rfl | ⟨bit, rest, rfl⟩ | aside
    · simp [insert_here]
    · rw [insert_below]
      cases bit <;> simp [branch]
    · obtain ⟨common, bit, below, rfl, rfl | ⟨rest, rfl⟩⟩ := aside_cases aside
      · rw [insert_inside]
        cases bit <;> simp [branch]
      · rw [insert_aside]
        cases bit <;> simp [branch]

theorem compressed_branch {label : List Bool} {value : Option V} (bit : Bool) {here there : Trie V}
    (useful : value ≠ none ∨ (here ≠ empty ∧ there ≠ empty)) (hereIh : here.Compressed)
    (thereIh : there.Compressed) : (branch label value bit here there).Compressed := by
  cases bit
  · exact ⟨useful, hereIh, thereIh⟩
  · exact ⟨useful.imp_right And.symm, thereIh, hereIh⟩

theorem compressed_side (bit : Bool) {zero one : Trie V} (zeroOk : zero.Compressed)
    (oneOk : one.Compressed) : (side zero one bit).Compressed := by
  cases bit
  · exact zeroOk
  · exact oneOk

theorem compressed_insert {t : Trie V} (compressed : t.Compressed) (key : List Bool) (v : V) :
    (t.insert key v).Compressed := by
  induction t generalizing key with
  | empty => exact ⟨.inl (by simp), trivial, trivial⟩
  | node label value zero one zeroIh oneIh =>
    obtain ⟨useful, zeroOk, oneOk⟩ := compressed
    rcases key_cases label key with rfl | ⟨bit, rest, rfl⟩ | aside
    · rw [insert_here]
      exact ⟨.inl (by simp), zeroOk, oneOk⟩
    · rw [insert_below]
      cases bit
      · exact ⟨useful.imp_right fun both => ⟨insert_ne_empty _ _ _, both.2⟩, zeroIh zeroOk rest, oneOk⟩
      · exact ⟨useful.imp_right fun both => ⟨both.1, insert_ne_empty _ _ _⟩, zeroOk, oneIh oneOk rest⟩
    · obtain ⟨common, bit, below, rfl, rfl | ⟨rest, rfl⟩⟩ := aside_cases aside
      · rw [insert_inside]
        exact compressed_branch bit (.inl (by simp)) ⟨useful, zeroOk, oneOk⟩ trivial
      · rw [insert_aside]
        exact compressed_branch bit (.inr ⟨by simp, by simp⟩) ⟨useful, zeroOk, oneOk⟩
          ⟨.inl (by simp), trivial, trivial⟩

/-- A node that is useful stays. -/
theorem collapse_useful {label : List Bool} {value : Option V} {zero one : Trie V}
    (useful : value ≠ none ∨ (zero ≠ empty ∧ one ≠ empty)) :
    collapse label value zero one = node label value zero one := by
  unfold collapse
  split <;> simp_all

theorem compressed_collapse {label : List Bool} {value : Option V} {zero one : Trie V}
    (zeroOk : zero.Compressed) (oneOk : one.Compressed) :
    (collapse label value zero one).Compressed := by
  cases value with
  | some v =>
    rw [collapse_useful (.inl (by simp))]
    exact ⟨.inl (by simp), zeroOk, oneOk⟩
  | none =>
    cases zero <;> cases one
    · trivial
    · exact oneOk
    · exact zeroOk
    · exact ⟨.inr ⟨by simp, by simp⟩, zeroOk, oneOk⟩

theorem compressed_erase {t : Trie V} (compressed : t.Compressed) (key : List Bool) :
    (t.erase key).Compressed := by
  induction t generalizing key with
  | empty => trivial
  | node label value zero one zeroIh oneIh =>
    obtain ⟨useful, zeroOk, oneOk⟩ := compressed
    rcases key_cases label key with rfl | ⟨bit, rest, rfl⟩ | aside
    · rw [erase_here]
      exact compressed_collapse zeroOk oneOk
    · rw [erase_below]
      cases bit
      · exact compressed_collapse (zeroIh zeroOk rest) oneOk
      · exact compressed_collapse zeroOk (oneIh oneOk rest)
    · rw [erase_aside aside]
      exact ⟨useful, zeroOk, oneOk⟩

/-! ## The longest match -/

/-- A value is the one stored for the longest prefix of a string, if there is
one at all. -/
def IsLongest (stored : List Bool → Option V) (key : List Bool) (found : Option V) : Prop :=
  (found = none ∧ ∀ start, start <+: key → stored start = none) ∨
    ∃ start, start <+: key ∧ stored start = found ∧ found ≠ none ∧
      ∀ longer, longer <+: key → stored longer ≠ none → longer.length ≤ start.length

section
variable {label key rest : List Bool} {value : Option V} {zero one : Trie V}

theorem longest_here : (node label value zero one).longest label = value := by
  have stripped : label.isPrefixOf? label = some [] :=
    List.isPrefixOf?_eq_some_iff_append_eq.mpr (List.append_nil label)
  rw [longest, stripped]

theorem longest_below (bit : Bool) : (node label value zero one).longest (label ++ bit :: rest) =
    ((side zero one bit).longest rest).or value := by
  rw [longest, isPrefixOf?_append]
  cases bit <;> rfl

theorem longest_aside (aside : ¬ label <+: key) :
    (node label value zero one).longest key = none := by
  have stripped : label.isPrefixOf? key = none := by
    cases stripped : label.isPrefixOf? key with
    | none => rfl
    | some rest => exact absurd ⟨rest, List.append_eq_of_isPrefixOf?_eq_some stripped⟩ aside
  rw [longest, stripped]

/-- In front of its label a node stores nothing. -/
theorem lookup_before {start : List Bool} (before : start <+: key) (aside : ¬ label <+: key) :
    (node label value zero one).lookup start = none :=
  lookup_aside fun inside => aside (inside.trans before)

/-- What stands for the prefixes of a string below a node. -/
theorem lookup_start (value : Option V) (zero one : Trie V) {bit : Bool} {start : List Bool}
    (before : start <+: label ++ bit :: rest) :
    (start = label ∧ (node label value zero one).lookup start = value) ∨
    (∃ start', start = label ++ bit :: start' ∧ start' <+: rest ∧
      (node label value zero one).lookup start = (side zero one bit).lookup start') ∨
    (node label value zero one).lookup start = none := by
  rcases key_cases label start with rfl | ⟨bit', start', rfl⟩ | aside
  · exact .inl ⟨rfl, lookup_here⟩
  · rw [List.prefix_append_right_inj, List.cons_prefix_cons] at before
    obtain ⟨rfl, before⟩ := before
    exact .inr (.inl ⟨start', rfl, before, lookup_below _⟩)
  · exact .inr (.inr (lookup_aside aside))

theorem isLongest_node {bit : Bool} {found : Option V}
    (below : IsLongest (side zero one bit).lookup rest found) :
    IsLongest (node label value zero one).lookup (label ++ bit :: rest) (found.or value) := by
  rcases below with ⟨rfl, absent⟩ | ⟨start, before, stored, some, longer⟩
  · have only {start : List Bool} (before : start <+: label ++ bit :: rest) :
        start = label ∨ (node label value zero one).lookup start = none := by
      rcases lookup_start value zero one before with ⟨rfl, _⟩ | ⟨start', rfl, before', here⟩ | gone
      · exact .inl rfl
      · exact .inr (here.trans (absent start' before'))
      · exact .inr gone
    rw [Option.none_or]
    cases value with
    | none =>
      refine .inl ⟨rfl, fun start before => ?_⟩
      rcases only before with rfl | gone
      · exact lookup_here
      · exact gone
    | some v =>
      refine .inr ⟨label, List.prefix_append _ _, lookup_here, by simp, fun start before here => ?_⟩
      rcases only before with rfl | gone
      · exact Nat.le_refl _
      · exact absurd gone here
  · have kept : found.or value = found := by
      cases found with
      | none => exact absurd rfl some
      | some _ => rfl
    rw [kept]
    refine .inr ⟨label ++ bit :: start, ?_, (lookup_below bit).trans stored, some, ?_⟩
    · rwa [List.prefix_append_right_inj, List.cons_prefix_cons, and_iff_right rfl]
    · intro start' before' here
      rcases lookup_start value zero one before' with ⟨rfl, _⟩ | ⟨start'', rfl, inside, below⟩ | gone
      · simp
      · have shorter := longer start'' inside (below ▸ here)
        simpa using shorter
      · exact absurd gone here

end

/-- **Longest match.** -/
theorem longest_spec (t : Trie V) (key : List Bool) : IsLongest t.lookup key (t.longest key) := by
  induction t generalizing key with
  | empty => exact .inl ⟨rfl, fun _ _ => rfl⟩
  | node label value zero one zeroIh oneIh =>
    rcases key_cases label key with rfl | ⟨bit, rest, rfl⟩ | aside
    · rw [longest_here]
      have only {start : List Bool} (before : start <+: key) :
          start = key ∨ (node key value zero one).lookup start = none := by
        by_cases inside : key <+: start
        · exact .inl (before.eq_of_length_le inside.length_le)
        · exact .inr (lookup_aside inside)
      cases value with
      | none =>
        refine .inl ⟨rfl, fun start before => ?_⟩
        rcases only before with rfl | gone
        · exact lookup_here
        · exact gone
      | some v =>
        refine .inr ⟨key, List.prefix_refl key, lookup_here, by simp, fun start before here => ?_⟩
        exact before.length_le
    · rw [longest_below]
      apply isLongest_node
      cases bit
      · exact zeroIh rest
      · exact oneIh rest
    · rw [longest_aside aside]
      exact .inl ⟨rfl, fun start before => lookup_before before aside⟩

/-- There is one longest match. -/
theorem IsLongest.unique {stored : List Bool → Option V} {key : List Bool} {found other : Option V}
    (first : IsLongest stored key found) (second : IsLongest stored key other) : found = other := by
  rcases first with ⟨rfl, absent⟩ | ⟨start, before, here, some, longer⟩
  · rcases second with ⟨rfl, _⟩ | ⟨start', before', here', some', _⟩
    · rfl
    · exact absurd (here'.symm.trans (absent start' before')) some'
  · rcases second with ⟨rfl, absent'⟩ | ⟨start', before', here', some', longer'⟩
    · exact absurd (here.symm.trans (absent' start before)) some
    · have le := longer' start before (here ▸ some)
      have ge := longer start' before' (here' ▸ some')
      have same := (List.prefix_of_prefix_length_le before before' le).eq_of_length_le ge
      rw [← here, ← here', same]

end Trie

end NetifyAgent
