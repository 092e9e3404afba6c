import NetifyAgent.Lib.Trie

/-! Path-compressed tries over bit strings whose edges may go back. A search reads
zeros behind the end of its key, so that it can pass the node at which the key
should be stored; the key is then hung below the node that the search reaches, on
an edge that goes back to where it ends. A trie without two copies of one key is
made again by storing its entries in the order of a traversal. -/
namespace NetifyAgent

/-- How a node is entered from the one above it: by a bit and the bits of a label, or
back to a depth. -/
inductive Edge where
  | down (label : List Bool)
  | back (depth : Nat)
  deriving DecidableEq, Repr

inductive Rewind (V : Type) where
  | empty
  | node (edge : Edge) (value : Option V) (zero one : Rewind V)
  deriving DecidableEq, Repr

/-! ## Windows -/

/-- The bits of a key from a depth on, with zeros behind its end. -/
def window (key : List Bool) : Nat → Nat → List Bool
  | _, 0 => []
  | depth, n + 1 => key.getD depth false :: window key (depth + 1) n

section
variable {key path : List Bool}

@[simp] theorem length_window (key : List Bool) (depth n : Nat) :
    (window key depth n).length = n := by
  induction n generalizing depth with
  | zero => rfl
  | succ n ih => rw [window, List.length_cons, ih]

theorem window_add (key : List Bool) (depth m n : Nat) :
    window key depth (m + n) = window key depth m ++ window key (depth + m) n := by
  induction m generalizing depth with
  | zero => simp [window]
  | succ m ih =>
    have shift : depth + 1 + m = depth + (m + 1) := by omega
    rw [Nat.succ_add, window, window, ih, shift, List.cons_append]

/-- Inside its bits a window is a piece of the key. -/
theorem window_inside {depth n : Nat} (inside : depth + n ≤ key.length) :
    window key depth n = (key.drop depth).take n := by
  induction n generalizing depth with
  | zero => simp [window]
  | succ n ih =>
    have here : depth < key.length := by omega
    rw [window, ih (by omega), List.getD_eq_getElem?_getD, List.getElem?_eq_getElem here,
      Option.getD_some, List.drop_eq_getElem_cons here, List.take_succ_cons]

/-- The key begins with the path, if zeros are read behind its end. -/
def Under (path key : List Bool) : Prop := window key 0 path.length = path

theorem under_nil (key : List Bool) : Under [] key := rfl

theorem under_append (path rest : List Bool) : Under path (path ++ rest) := by
  unfold Under
  rw [window_inside (by simp), List.drop_zero, List.take_left]

/-- A key that ends at the path or in front of it begins the path. -/
theorem under_short (under : Under path key) (short : key.length ≤ path.length) :
    path.take key.length = key := by
  obtain ⟨more, length⟩ := Nat.exists_eq_add_of_le short
  unfold Under at under
  rw [length, window_add, window_inside (by omega), List.drop_zero, List.take_length] at under
  rw [← under, List.take_left]

/-- A key that goes on behind the path begins with it. -/
theorem under_long (under : Under path key) (long : path.length ≤ key.length) :
    path ++ key.drop path.length = key := by
  unfold Under at under
  rw [window_inside (by omega), List.drop_zero] at under
  have parts := List.take_append_drop path.length key
  rwa [under] at parts

theorem under_take (under : Under path key) {depth : Nat} (inside : depth ≤ path.length) :
    Under (path.take depth) key := by
  obtain ⟨more, length⟩ := Nat.exists_eq_add_of_le inside
  have whole := under
  unfold Under at whole ⊢
  rw [length, window_add] at whole
  rw [List.length_take, Nat.min_eq_left inside, ← whole, List.take_left' (length_window ..)]

theorem under_down (under : Under path key) {bit : Bool} {label : List Bool}
    (turn : key.getD path.length false = bit)
    (passes : window key (path.length + 1) label.length = label) :
    Under (path ++ bit :: label) key := by
  have length : (path ++ bit :: label).length = path.length + (label.length + 1) := by
    simp
  unfold Under at under ⊢
  rw [length, window_add, under, Nat.zero_add, window, turn, passes]

end

/-! ## Edges -/

namespace Edge

/-- The depth of a node that hangs from one of this depth. -/
def depth (above : Nat) : Edge → Nat
  | down label => above + 1 + label.length
  | back depth => depth

/-- The path of a node on a side of the one above it. -/
def follow (path : List Bool) (bit : Bool) : Edge → List Bool
  | down label => path ++ bit :: label
  | back depth => path.take depth

/-- A search for the key takes the edge, once it has turned to its side. -/
def Passes (key : List Bool) (above : Nat) : Edge → Prop
  | down label => window key (above + 1) label.length = label
  | back _ => True

instance (key : List Bool) (above : Nat) (edge : Edge) : Decidable (edge.Passes key above) :=
  match edge with
  | down label => inferInstanceAs (Decidable (window key (above + 1) label.length = label))
  | back _ => inferInstanceAs (Decidable True)

/-- The edge from a depth to the end of a key. -/
def reaching (key : List Bool) (above : Nat) : Edge :=
  if above < key.length then down (key.drop (above + 1)) else back key.length

end Edge

namespace Rewind
variable {V : Type}

/-! ## Storing -/

/-- A node cut in two, where a key ends or leaves its label. -/
def cut (key : List Bool) (v : V) (above : Nat) (label : List Bool) (value : Option V)
    (zero one : Rewind V) : Rewind V :=
  match Trie.split label (key.drop (above + 1)) with
  | (common, bit :: below, rest) =>
    let lower := node (.down below) value zero one
    let upper := if rest = [] then empty else node (.down rest.tail) (some v) empty empty
    let here := if rest = [] then some v else none
    if bit then node (.down common) here upper lower else node (.down common) here lower upper
  | (_, [], _) => node (.down label) value zero one

/-- A key is stored below a node of the given depth. It is refused where it ends in
front of an edge that it does not pass. -/
def insert (key : List Bool) (v : V) : Rewind V → Nat → Option (Rewind V)
  | empty, above => some (node ((.reaching key above)) (some v) empty empty)
  | node edge value zero one, above =>
    if edge.Passes key above then
      let depth := edge.depth above
      if key.length = depth then some (node edge (some v) zero one)
      else if key.getD depth false then
        (one.insert key v depth).map fun one => node edge value zero one
      else (zero.insert key v depth).map fun zero => node edge value zero one
    else if key.length ≤ above then none
    else
      match edge with
      | .down label => some (cut key v above label value zero one)
      | .back _ => none

/-- A key is stored at a node of the given depth or below it. -/
def within (key : List Bool) (v : V) (depth : Nat) (value : Option V) (zero one : Rewind V) :
    Option (Option V × Rewind V × Rewind V) :=
  if key.length = depth then some (some v, zero, one)
  else if key.getD depth false then (one.insert key v depth).map fun one => (value, zero, one)
  else (zero.insert key v depth).map fun zero => (value, zero, one)

/-- A key that is refused changes nothing. -/
def put (above : Nat) (t : Rewind V) (e : List Bool × V) : Rewind V :=
  (t.insert e.1 e.2 above).getD t

/-! ## Traversal -/

/-- The entries below a side of the node at a path: those of a node in front of those
on its sides. -/
def entries (path : List Bool) (bit : Bool) : Rewind V → List (List Bool × V)
  | empty => []
  | node edge value zero one =>
    let path := edge.follow path bit
    (value.map fun v => (path, v)).toList ++
      (zero.entries path false ++ one.entries path true)

/-- A node that is entered downwards. -/
def Down (t : Rewind V) : Prop := ∃ label value zero one, t = node (.down label) value zero one

/-- What the keys of a trie and the searches for them agree on: an edge goes back from
a node without a child on the side of zero, a node without a value has a child on each
side, and the search for a key that is stored passes the edges to it. -/
inductive Sound (N : Nat) : List Bool → Bool → Rewind V → Prop
  | empty (path : List Bool) (bit : Bool) : Sound N path bit empty
  | node {path : List Bool} {bit : Bool} {edge : Edge} {value : Option V} {zero one : Rewind V}
      (fits : (edge.follow path bit).length ≤ N)
      (returns : ∀ depth, edge = .back depth →
        bit = false ∧ 0 < depth ∧ depth < path.length ∧ value ≠ none)
      (useful : value = none → zero.Down ∧ one.Down)
      (passed : ∀ e ∈ (node edge value zero one).entries path bit,
        e.1.getD path.length false = bit ∧ edge.Passes e.1 path.length)
      (zeroSound : Sound N (edge.follow path bit) false zero)
      (oneSound : Sound N (edge.follow path bit) true one) :
      Sound N path bit (node edge value zero one)

/-! ## One node -/

section
variable {key path label : List Bool} {v : V} {above : Nat} {edge : Edge} {value : Option V}
  {zero one : Rewind V} {e : List Bool × V}

@[simp] theorem entries_empty (path : List Bool) (bit : Bool) :
    (empty : Rewind V).entries path bit = [] := rfl

theorem entries_node (edge : Edge) (value : Option V) (zero one : Rewind V) (path : List Bool)
    (bit : Bool) : (node edge value zero one).entries path bit =
      (value.map fun v => (edge.follow path bit, v)).toList ++
        (zero.entries (edge.follow path bit) false ++ one.entries (edge.follow path bit) true) :=
  rfl

theorem insert_passes (passes : edge.Passes key above) :
    (node edge value zero one).insert key v above =
      (within key v (edge.depth above) value zero one).map fun c => node edge c.1 c.2.1 c.2.2 := by
  simp only [insert, if_pos passes, within]
  split
  · rfl
  · split <;> rw [Option.map_map] <;> rfl

theorem insert_refused (aside : ¬ edge.Passes key above) (short : key.length ≤ above) :
    (node edge value zero one).insert key v above = none := by
  simp only [insert, if_neg aside, if_pos short]

theorem insert_cut (aside : ¬ (Edge.down label).Passes key above) (long : above < key.length) :
    (node (.down label) value zero one).insert key v above =
      some (cut key v above label value zero one) := by
  simp only [insert, if_neg aside, if_neg (Nat.not_le.mpr long)]

@[simp] theorem put_empty (above : Nat) (e : List Bool × V) :
    put above empty e = node (.reaching e.1 above) (some e.2) empty empty := rfl

theorem put_here (passes : edge.Passes e.1 above) (ends : e.1.length = edge.depth above) :
    put above (node edge value zero one) e = node edge (some e.2) zero one := by
  simp only [put, insert, if_pos passes, if_pos ends, Option.getD_some]

theorem put_zero (passes : edge.Passes e.1 above) (goes : e.1.length ≠ edge.depth above)
    (turn : e.1.getD (edge.depth above) false = false) :
    put above (node edge value zero one) e =
      node edge value (put (edge.depth above) zero e) one := by
  simp only [put, insert, if_pos passes, if_neg goes, turn, Bool.false_eq_true, if_false]
  cases zero.insert e.1 e.2 (edge.depth above) <;> rfl

theorem put_one (passes : edge.Passes e.1 above) (goes : e.1.length ≠ edge.depth above)
    (turn : e.1.getD (edge.depth above) false = true) :
    put above (node edge value zero one) e =
      node edge value zero (put (edge.depth above) one e) := by
  simp only [put, insert, if_pos passes, if_neg goes, turn, if_true]
  cases one.insert e.1 e.2 (edge.depth above) <;> rfl

/-- Keys that go on to the side of zero. -/
theorem foldl_put_zero {es : List (List Bool × V)}
    (all : ∀ e ∈ es, edge.Passes e.1 above ∧ e.1.length ≠ edge.depth above ∧
      e.1.getD (edge.depth above) false = false) (zero : Rewind V) :
    es.foldl (put above) (node edge value zero one) =
      node edge value (es.foldl (put (edge.depth above)) zero) one := by
  induction es generalizing zero with
  | nil => rfl
  | cons e es ih =>
    obtain ⟨passes, goes, turn⟩ := all e (List.mem_cons_self ..)
    rw [List.foldl_cons, put_zero passes goes turn]
    exact ih (fun e member => all e (List.mem_cons_of_mem _ member)) _

/-- Keys that go on to the side of one. -/
theorem foldl_put_one {es : List (List Bool × V)}
    (all : ∀ e ∈ es, edge.Passes e.1 above ∧ e.1.length ≠ edge.depth above ∧
      e.1.getD (edge.depth above) false = true) (one : Rewind V) :
    es.foldl (put above) (node edge value zero one) =
      node edge value zero (es.foldl (put (edge.depth above)) one) := by
  induction es generalizing one with
  | nil => rfl
  | cons e es ih =>
    obtain ⟨passes, goes, turn⟩ := all e (List.mem_cons_self ..)
    rw [List.foldl_cons, put_one passes goes turn]
    exact ih (fun e member => all e (List.mem_cons_of_mem _ member)) _

/-- A key that leaves a label where it turns to the side of one. -/
theorem put_aside {below : List Bool}
    (start : window e.1 (above + 1) label.length = label)
    (turn : e.1.getD (above + 1 + label.length) false = true) :
    put above (node (.down (label ++ false :: below)) value zero one) e =
      node (.down label) none (node (.down below) value zero one)
        (put (above + 1 + label.length) empty e) := by
  have long : above + 1 + label.length < e.1.length := by
    by_contra short
    rw [List.getD_eq_getElem?_getD, List.getElem?_eq_none (by omega)] at turn
    cases turn
  have rest : e.1.drop (above + 1) =
      label ++ true :: e.1.drop (above + 1 + label.length + 1) := by
    have parts := List.take_append_drop label.length (e.1.drop (above + 1))
    rw [List.getD_eq_getElem?_getD, List.getElem?_eq_getElem long, Option.getD_some] at turn
    rw [← window_inside (by omega), start, List.drop_drop, List.drop_eq_getElem_cons long,
      turn] at parts
    exact parts.symm
  have aside : ¬ (Edge.down (label ++ false :: below)).Passes e.1 above := by
    intro passes
    have whole : window e.1 (above + 1) (label.length + (below.length + 1)) =
        label ++ false :: below := by
      simpa [Edge.Passes] using passes
    rw [window_add, start] at whole
    have other := List.append_cancel_left whole
    rw [window, turn] at other
    cases other
  have down : Edge.reaching e.1 (above + 1 + label.length) =
      .down (e.1.drop (above + 1 + label.length + 1)) := if_pos long
  have further : ¬ e.1.length ≤ above := by omega
  simp only [put, insert, if_neg aside, if_neg further, Option.getD_some, down]
  rw [cut, rest, Trie.split_append]
  simp [Trie.split]

end

/-! ## Storing in the order of a traversal -/

section
variable {N : Nat} {path : List Bool} {bit : Bool} {t : Rewind V}

theorem turns (sound : Sound N path bit t) :
    ∀ e ∈ t.entries path bit, e.1.getD path.length false = bit := by
  cases sound with
  | empty => exact fun e none => by cases none
  | node _ _ _ passed _ _ => exact fun e member => (passed e member).1

theorem node_passed {edge : Edge} {value : Option V} {zero one : Rewind V}
    (sound : Sound N path bit (node edge value zero one)) :
    ∀ e ∈ (node edge value zero one).entries path bit, edge.Passes e.1 path.length := by
  cases sound with
  | node _ _ _ passed _ _ => exact fun e member => (passed e member).2

/-- A node stores something. -/
theorem entries_ne_nil (sound : Sound N path bit t) (present : t ≠ empty) :
    t.entries path bit ≠ [] := by
  induction sound with
  | empty => exact absurd rfl present
  | @node path bit edge value zero one _ _ useful _ _ _ zeroIh _ =>
    rw [entries_node]
    cases value with
    | some v => simp
    | none =>
      obtain ⟨⟨label, value, zero', one', rfl⟩, -⟩ := useful rfl
      have stored := zeroIh (by simp)
      intro none
      have both : _ ++ _ = [] := none
      exact stored (List.append_eq_nil_iff.mp (List.append_eq_nil_iff.mp both).2).1

/-- An edge that leads from a depth to the node at a path. -/
def Leads (edge : Edge) (above : Nat) (path : List Bool) (value : Option V) : Prop :=
  edge.depth above = path.length ∧ ∀ depth, edge = .back depth → depth ≤ above ∧ value ≠ none

theorem leads_child {edge : Edge} {value : Option V}
    (returns : ∀ depth, edge = .back depth →
      bit = false ∧ 0 < depth ∧ depth < path.length ∧ value ≠ none) :
    Leads edge path.length (edge.follow path bit) value := by
  cases edge with
  | down label =>
    refine ⟨?_, fun depth back => by cases back⟩
    simp only [Edge.depth, Edge.follow, List.length_append, List.length_cons]
    omega
  | back depth =>
    obtain ⟨-, -, above, stored⟩ := returns depth rfl
    refine ⟨?_, fun depth' same => ?_⟩
    · simp only [Edge.depth, Edge.follow, List.length_take]
      omega
    · cases same
      exact ⟨Nat.le_of_lt above, stored⟩

theorem under_follow {edge : Edge} {value : Option V} {key : List Bool} (under : Under path key)
    (turn : key.getD path.length false = bit) (passes : edge.Passes key path.length)
    (returns : ∀ depth, edge = .back depth →
      bit = false ∧ 0 < depth ∧ depth < path.length ∧ value ≠ none) :
    Under (edge.follow path bit) key := by
  cases edge with
  | down label => exact under_down under turn passes
  | back depth => exact under_take under (Nat.le_of_lt (returns depth rfl).2.2.1)

/-- The edge to the node at a path is the edge to its key. -/
theorem reaching_of_leads {edge : Edge} {above : Nat} {value : Option V}
    (leads : Leads edge above path value) (passes : edge.Passes path above) :
    Edge.reaching path above = edge := by
  obtain ⟨depth, returns⟩ := leads
  cases edge with
  | down label =>
    simp only [Edge.depth] at depth
    have whole : window path (above + 1) label.length = label := passes
    rw [window_inside (by omega), List.take_of_length_le] at whole
    · rw [Edge.reaching, if_pos (by omega), whole]
    · rw [List.length_drop]
      omega
  | back depth' =>
    have behind := (returns depth' rfl).1
    simp only [Edge.depth] at depth
    rw [Edge.reaching, if_neg (by omega), depth]

/-- The node on another edge. -/
def hang (edge : Edge) : Rewind V → Rewind V
  | empty => empty
  | node _ value zero one => node edge value zero one

/-- An edge that leads to the node from a depth. -/
def LeadsTo (edge : Edge) (above : Nat) (path : List Bool) (bit : Bool) : Rewind V → Prop
  | empty => True
  | node edge' value _ _ => Leads edge above (edge'.follow path bit) value

/-- A subtrie that a traversal makes again on any edge is made again on its own. -/
theorem foldl_put_side (sound : Sound N path bit t)
    (again : ∀ edge above, LeadsTo edge above path bit t →
      (∀ e ∈ t.entries path bit, edge.Passes e.1 above) →
        (t.entries path bit).foldl (put above) empty = t.hang edge) :
    (t.entries path bit).foldl (put path.length) empty = t := by
  cases sound with
  | empty => rfl
  | @node _ _ edge value zero one fits returns useful passed zeroSound oneSound =>
    exact again edge path.length (leads_child returns) fun e member => (passed e member).2

/-- **A traversal** of a node without two copies of one key makes it again, on whatever
edge it is to hang. -/
theorem foldl_put_entries (sound : Sound N path bit t)
    (distinct : ((t.entries path bit).map Prod.fst).Nodup)
    (under : ∀ e ∈ t.entries path bit, Under path e.1) {edge : Edge} {above : Nat}
    (leads : LeadsTo edge above path bit t)
    (passes : ∀ e ∈ t.entries path bit, edge.Passes e.1 above) :
    (t.entries path bit).foldl (put above) empty = t.hang edge := by
  induction sound generalizing edge above with
  | empty => rfl
  | @node path bit edge' value zero one fits returns useful passed zeroSound oneSound zeroIh
      oneIh =>
    have follows (e : List Bool × V) (member : e ∈ (node edge' value zero one).entries path bit) :
        Under (edge'.follow path bit) e.1 :=
      under_follow (under e member) (passed e member).1 (passed e member).2 returns
    rw [entries_node] at distinct passes follows ⊢
    obtain ⟨depth, returns'⟩ := leads
    generalize edge'.follow path bit = path' at *
    rw [List.map_append, List.map_append] at distinct
    obtain ⟨-, distinct', -⟩ := List.nodup_append.mp distinct
    have zeroAgain := foldl_put_side zeroSound fun edge above leads passes =>
      zeroIh (List.nodup_append.mp distinct').1 (fun e member => follows e (by simp [member])) leads
        passes
    have oneAgain := foldl_put_side oneSound fun edge above leads passes =>
      oneIh (List.nodup_append.mp distinct').2.1 (fun e member => follows e (by simp [member]))
        leads passes
    have zeroTurns := turns zeroSound
    have oneTurns := turns oneSound
    -- a longer key that turns to the side of one goes on behind the path
    have oneGoes (e : List Bool × V) (member : e ∈ one.entries path' true) :
        e.1.length ≠ path'.length := by
      intro ends
      have turn := oneTurns e member
      rw [List.getD_eq_getElem?_getD, List.getElem?_eq_none (by omega)] at turn
      cases turn
    rw [← depth] at zeroAgain oneAgain zeroTurns oneTurns oneGoes
    cases value with
    | some v =>
      have zeroGoes (e : List Bool × V) (member : e ∈ zero.entries path' false) :
          e.1.length ≠ edge.depth above := by
        intro ends
        rw [depth] at ends
        have same := under_short (follows e (by simp [member])) (Nat.le_of_eq ends)
        rw [ends, List.take_length] at same
        have first := (List.nodup_append.mp distinct).2.2 path' (by simp) e.1
          (List.mem_append_left _ (List.mem_map_of_mem member))
        exact first same
      have own : edge.Passes path' above := passes (path', v) (by simp)
      rw [Option.map_some, Option.toList_some, List.singleton_append, List.foldl_cons, put_empty,
        reaching_of_leads ⟨depth, returns'⟩ own, List.foldl_append]
      rw [foldl_put_zero fun e member =>
        ⟨passes e (by simp [member]), zeroGoes e member, zeroTurns e member⟩]
      rw [foldl_put_one fun e member =>
        ⟨passes e (by simp [member]), oneGoes e member, oneTurns e member⟩, zeroAgain, oneAgain]
      rfl
    | none =>
      obtain ⟨⟨below, value, zero', one', rfl⟩, -⟩ := useful rfl
      cases edge with
      | back depth' => exact absurd rfl (returns' depth' rfl).2
      | down label =>
        simp only [Edge.depth] at depth oneAgain zeroTurns oneTurns oneGoes
        have matched (e : List Bool × V) (member : e ∈ (node (.down below) value zero' one').entries
            path' false ++ one.entries path' true) :
            window e.1 (above + 1) label.length = label :=
          passes e (by simpa using member)
        -- the label runs on to the node on the side of zero until a key leaves it
        have zeroPassed : ∀ e ∈ (node (.down below) value zero' one').entries path' false,
            (Edge.down (label ++ false :: below)).Passes e.1 above := by
          intro e member
          have start := matched e (List.mem_append_left _ member)
          have turn := zeroTurns e member
          have last : window e.1 (path'.length + 1) below.length = below :=
            node_passed zeroSound e member
          simp only [Edge.Passes, List.length_append, List.length_cons]
          rw [window_add, start, window, turn, depth, last]
        have zeroLeads : LeadsTo (.down (label ++ false :: below)) above path' false
            (node (.down below) value zero' one') := by
          refine ⟨?_, fun depth' back => by cases back⟩
          simp only [Edge.depth, Edge.follow, List.length_append, List.length_cons]
          omega
        have first := zeroIh (List.nodup_append.mp distinct').1
          (fun e member => follows e (by simp [member])) zeroLeads zeroPassed
        obtain ⟨e, rest, split⟩ := List.exists_cons_of_ne_nil
          (entries_ne_nil oneSound (by obtain ⟨_, _, _, _, rfl⟩ := (useful rfl).2; simp))
        rw [Option.map_none, Option.toList_none, List.nil_append, List.foldl_append, first, hang]
        rw [split] at oneAgain oneTurns oneGoes matched ⊢
        have here : e ∈ e :: rest := List.mem_cons_self ..
        rw [List.foldl_cons, put_aside (matched e (List.mem_append_right _ here)) (oneTurns e here)]
        rw [foldl_put_one fun e' member => ?_]
        · rw [List.foldl_cons] at oneAgain
          simp only [Edge.depth]
          rw [oneAgain]
          rfl
        · have later : e' ∈ e :: rest := List.mem_cons_of_mem e member
          exact ⟨matched _ (List.mem_append_right _ later), oneGoes _ later, oneTurns _ later⟩

end

/-! ## What storing keeps -/

/-- A node with one subtrie on the side of a bit and one on the other. -/
def branch (edge : Edge) (value : Option V) (bit : Bool) (here there : Rewind V) : Rewind V :=
  if bit then node edge value there here else node edge value here there

section
variable {N : Nat} {path key : List Bool} {bit c : Bool} {edge : Edge} {value : Option V}
  {zero one here there t : Rewind V} {v : V} {e : List Bool × V}

theorem mem_entries_branch : e ∈ (branch edge value c here there).entries path bit ↔
    (∃ w, value = some w ∧ e = (edge.follow path bit, w)) ∨
      e ∈ here.entries (edge.follow path bit) c ∨ e ∈ there.entries (edge.follow path bit) !c := by
  cases c <;> cases value <;> simp [branch, entries_node, or_comm]

theorem mem_entries_node : e ∈ (node edge value zero one).entries path bit ↔
    (∃ w, value = some w ∧ e = (edge.follow path bit, w)) ∨
      e ∈ zero.entries (edge.follow path bit) false ∨
        e ∈ one.entries (edge.follow path bit) true :=
  mem_entries_branch (c := false)

theorem sound_branch (fits : (edge.follow path bit).length ≤ N)
    (returns : ∀ depth, edge = .back depth →
      bit = false ∧ 0 < depth ∧ depth < path.length ∧ value ≠ none)
    (useful : value = none → here.Down ∧ there.Down)
    (passed : ∀ e ∈ (branch edge value c here there).entries path bit,
      e.1.getD path.length false = bit ∧ edge.Passes e.1 path.length)
    (hereSound : Sound N (edge.follow path bit) c here)
    (thereSound : Sound N (edge.follow path bit) (!c) there) :
    Sound N path bit (branch edge value c here there) := by
  cases c
  · exact .node fits returns useful passed hereSound thereSound
  · exact .node fits returns (fun none => (useful none).symm) passed thereSound hereSound

theorem cut_inside {above : Nat} {common below : List Bool}
    (ends : key.drop (above + 1) = common) :
    cut key v above (common ++ c :: below) value zero one =
      branch (.down common) (some v) c (node (.down below) value zero one) empty := by
  have split := Trie.split_append common (c :: below) []
  rw [List.append_nil] at split
  rw [cut, ends, split]
  simp [Trie.split, branch]

theorem cut_leaves {above : Nat} {common below rest : List Bool}
    (leaves : key.drop (above + 1) = common ++ (!c) :: rest) :
    cut key v above (common ++ c :: below) value zero one =
      branch (.down common) none c (node (.down below) value zero one)
        (node (.down rest) (some v) empty empty) := by
  rw [cut, leaves, Trie.split_append]
  cases c <;> simp [Trie.split, branch]

theorem insert_halves {above : Nat} {common below rest : List Bool}
    (aside : ¬ (Edge.down (common ++ c :: below)).Passes key above) (long : above < key.length)
    (left : key.drop (above + 1) = common ++ rest) (apart : ∀ b s, rest = b :: s → b = !c) :
    (node (.down (common ++ c :: below)) value zero one).insert key v above =
      some (branch (.down common) (if rest = [] then some v else none) c
        (node (.down below) value zero one)
        (if rest = [] then empty else node (.down rest.tail) (some v) empty empty)) := by
  rw [insert_cut aside long]
  cases rest with
  | nil =>
    rw [List.append_nil] at left
    rw [cut_inside left]
    rfl
  | cons b s =>
    obtain rfl := apart b s rfl
    rw [cut_leaves left]
    rfl

/-- What a key does at a node. -/
theorem put_cases (above : Nat) (edge : Edge) (value : Option V) (zero one : Rewind V)
    (key : List Bool) (v : V) :
    (edge.Passes key above ∧ key.length = edge.depth above ∧
      put above (node edge value zero one) (key, v) = node edge (some v) zero one) ∨
    (edge.Passes key above ∧ key.length ≠ edge.depth above ∧
      key.getD (edge.depth above) false = false ∧ put above (node edge value zero one) (key, v) =
        node edge value (put (edge.depth above) zero (key, v)) one) ∨
    (edge.Passes key above ∧ key.length ≠ edge.depth above ∧
      key.getD (edge.depth above) false = true ∧ put above (node edge value zero one) (key, v) =
        node edge value zero (put (edge.depth above) one (key, v))) ∨
    put above (node edge value zero one) (key, v) = node edge value zero one ∨
    ∃ common c below, edge = .down (common ++ c :: below) ∧ above < key.length ∧
      ((key.drop (above + 1) = common ∧ put above (node edge value zero one) (key, v) =
        branch (.down common) (some v) c (node (.down below) value zero one) empty) ∨
      ∃ rest, key.drop (above + 1) = common ++ (!c) :: rest ∧
        put above (node edge value zero one) (key, v) =
          branch (.down common) none c (node (.down below) value zero one)
            (node (.down rest) (some v) empty empty)) := by
  by_cases passes : edge.Passes key above
  · by_cases ends : key.length = edge.depth above
    · exact .inl ⟨passes, ends, put_here passes ends⟩
    · cases turn : key.getD (edge.depth above) false with
      | false => exact .inr (.inl ⟨passes, ends, rfl, put_zero passes ends turn⟩)
      | true => exact .inr (.inr (.inl ⟨passes, ends, rfl, put_one passes ends turn⟩))
  · refine .inr (.inr (.inr ?_))
    by_cases short : key.length ≤ above
    · left
      simp only [put, insert, if_neg passes, if_pos short, Option.getD_none]
    · right
      cases edge with
      | back depth => exact absurd trivial passes
      | down label =>
        have stored : put above (node (.down label) value zero one) (key, v) =
            cut key v above label value zero one := by
          simp only [put, insert, if_neg passes, if_neg short, Option.getD_some]
        have aside : ¬ label <+: key.drop (above + 1) := by
          intro start
          apply passes
          have length := start.length_le
          rw [List.length_drop] at length
          have whole := List.prefix_iff_eq_take.mp start
          show window key (above + 1) label.length = label
          by_cases none : label = []
          · subst none
            rfl
          · have positive := List.length_pos_iff.mpr none
            rw [window_inside (by omega), ← whole]
        obtain ⟨common, c, below, rfl, ends | ⟨rest, leaves⟩⟩ := Trie.aside_cases aside
        · exact ⟨common, c, below, rfl, by omega, .inl ⟨ends, stored.trans (cut_inside ends)⟩⟩
        · exact ⟨common, c, below, rfl, by omega,
            .inr ⟨rest, leaves, stored.trans (cut_leaves leaves)⟩⟩

theorem down_put {above : Nat} (down : t.Down) (key : List Bool) (v : V) :
    (put above t (key, v)).Down := by
  obtain ⟨label, value, zero, one, rfl⟩ := down
  rcases put_cases above (.down label) value zero one key v with
    ⟨-, -, stored⟩ | ⟨-, -, -, stored⟩ | ⟨-, -, -, stored⟩ | stored |
      ⟨common, c, below, -, -, ⟨-, stored⟩ | ⟨rest, -, stored⟩⟩ <;> rw [stored]
  · exact ⟨_, _, _, _, rfl⟩
  · exact ⟨_, _, _, _, rfl⟩
  · exact ⟨_, _, _, _, rfl⟩
  · exact ⟨_, _, _, _, rfl⟩
  · cases c <;> exact ⟨_, _, _, _, rfl⟩
  · cases c <;> exact ⟨_, _, _, _, rfl⟩

/-- The edge to a key leads to its end. -/
theorem follow_reaching (under : Under path key) (turn : key.getD path.length false = bit) :
    (Edge.reaching key path.length).follow path bit = key := by
  by_cases long : path.length < key.length
  · rw [Edge.reaching, if_pos long]
    have parts := under_long under (Nat.le_of_lt long)
    rw [List.drop_eq_getElem_cons long] at parts
    rw [List.getD_eq_getElem?_getD, List.getElem?_eq_getElem long, Option.getD_some] at turn
    rwa [turn] at parts
  · rw [Edge.reaching, if_neg long]
    exact under_short under (by omega)

theorem reaching_returns (turn : key.getD path.length false = bit) (nonempty : key ≠ [])
    (goes : key.length ≠ path.length) (depth : Nat)
    (back : Edge.reaching key path.length = .back depth) :
    bit = false ∧ 0 < depth ∧ depth < path.length ∧ some v ≠ none := by
  have positive := List.length_pos_iff.mpr nonempty
  by_cases long : path.length < key.length
  · rw [Edge.reaching, if_pos long] at back
    cases back
  · rw [Edge.reaching, if_neg long] at back
    cases back
    rw [List.getD_eq_getElem?_getD, List.getElem?_eq_none (by omega)] at turn
    exact ⟨turn.symm, positive, by omega, by simp⟩

theorem reaching_passes (key path : List Bool) :
    (Edge.reaching key path.length).Passes key path.length := by
  by_cases long : path.length < key.length
  · rw [Edge.reaching, if_pos long, Edge.Passes, List.length_drop, window_inside (by omega),
      List.take_of_length_le (by rw [List.length_drop])]
  · rw [Edge.reaching, if_neg long]
    trivial

/-- A key that ends where its path does is the path. -/
theorem under_eq (under : Under path key) (ends : key.length = path.length) : path = key := by
  have same := under_short under (Nat.le_of_eq ends)
  rwa [ends, List.take_length] at same

theorem reaching_append (path rest : List Bool) (bit : Bool) :
    Edge.reaching (path ++ bit :: rest) path.length = .down rest := by
  rw [Edge.reaching, if_pos (by simp), ← List.drop_drop, List.drop_left, List.drop_one,
    List.tail_cons]

theorem depth_follow (returns : ∀ depth, edge = .back depth →
      bit = false ∧ 0 < depth ∧ depth < path.length ∧ value ≠ none) :
    edge.depth path.length = (edge.follow path bit).length :=
  (leads_child returns).1

theorem passes_cut {above : Nat} {common below : List Bool}
    (passes : (Edge.down (common ++ c :: below)).Passes key above) :
    (Edge.down common).Passes key above ∧ key.getD (above + 1 + common.length) false = c ∧
      (Edge.down below).Passes key (above + 1 + common.length) := by
  simp only [Edge.Passes, List.length_append, List.length_cons] at passes
  rw [window_add] at passes
  obtain ⟨first, second⟩ := List.append_inj passes (length_window ..)
  rw [window] at second
  exact ⟨first, (List.cons.inj second).1, (List.cons.inj second).2⟩

/-- The lower half of a node that is cut in two. -/
theorem sound_lower {common below : List Bool}
    (sound : Sound N path bit (node (.down (common ++ c :: below)) value zero one)) :
    Sound N (path ++ bit :: common) c (node (.down below) value zero one) ∧
      (node (.down below) value zero one).entries (path ++ bit :: common) c =
        (node (.down (common ++ c :: below)) value zero one).entries path bit := by
  have same : (path ++ bit :: common) ++ c :: below = path ++ bit :: (common ++ c :: below) := by
    simp
  have depth : (path ++ bit :: common).length = path.length + 1 + common.length := by
    simp only [List.length_append, List.length_cons]
    omega
  have entries : (node (.down below) value zero one).entries (path ++ bit :: common) c =
      (node (.down (common ++ c :: below)) value zero one).entries path bit := by
    simp only [entries_node, Edge.follow, same]
  refine ⟨?_, entries⟩
  cases sound with
  | node fits returns useful passed zeroSound oneSound =>
    simp only [Edge.follow, ← same] at fits zeroSound oneSound
    refine .node fits (fun depth back => by cases back) useful ?_ zeroSound oneSound
    intro e member
    rw [entries] at member
    obtain ⟨-, turn, passes⟩ := passes_cut (passed e member).2
    rw [depth]
    exact ⟨turn, passes⟩

/-- A node cut in two, where a key ends or leaves it. -/
theorem sound_cut {common below : List Bool} {found : Option V}
    (sound : Sound N path bit (node (.down (common ++ c :: below)) value zero one))
    (turn : key.getD path.length false = bit)
    (passes : (Edge.down common).Passes key path.length)
    (fits : (path ++ bit :: common).length ≤ N)
    (ends : ∀ w, found = some w → (path ++ bit :: common, w) = (key, v))
    (useful : found = none → there.Down)
    (thereSound : Sound N (path ++ bit :: common) (!c) there)
    (only : ∀ e ∈ there.entries (path ++ bit :: common) (!c), e = (key, v)) :
    Sound N path bit (branch (.down common) found c (node (.down below) value zero one) there) ∧
      ∀ e ∈ (branch (.down common) found c (node (.down below) value zero one) there).entries
        path bit, e ∈ (node (.down (common ++ c :: below)) value zero one).entries path bit ∨
          e = (key, v) := by
  obtain ⟨lower, entries⟩ := sound_lower sound
  have members : ∀ e ∈ (branch (.down common) found c (node (.down below) value zero one)
      there).entries path bit,
        e ∈ (node (.down (common ++ c :: below)) value zero one).entries path bit ∨
          e = (key, v) := by
    intro e member
    rcases mem_entries_branch.mp member with ⟨w, same, rfl⟩ | old | new
    · exact .inr (ends w same)
    · exact .inl (entries ▸ old)
    · exact .inr (only e new)
  refine ⟨sound_branch fits (fun depth back => by cases back)
    (fun none => ⟨⟨_, _, _, _, rfl⟩, useful none⟩) (fun e member => ?_) lower thereSound, members⟩
  rcases members e member with old | rfl
  · exact ⟨turns sound e old, (passes_cut (node_passed sound e old)).1⟩
  · exact ⟨turn, passes⟩

/-- The bits of a key that goes on behind a path. -/
theorem long_key (under : Under path key) (turn : key.getD path.length false = bit)
    (long : path.length < key.length) : path ++ bit :: key.drop (path.length + 1) = key := by
  have parts := under_long under (Nat.le_of_lt long)
  rw [List.drop_eq_getElem_cons long] at parts
  rw [List.getD_eq_getElem?_getD, List.getElem?_eq_getElem long, Option.getD_some] at turn
  rwa [turn] at parts

theorem passes_drop {above : Nat} {label : List Bool} (long : above < key.length)
    (start : label <+: key.drop (above + 1)) : (Edge.down label).Passes key above := by
  have length := start.length_le
  rw [List.length_drop] at length
  show window key (above + 1) label.length = label
  rw [window_inside (by omega), ← List.prefix_iff_eq_take.mp start]

/-- **Storing** a key keeps a trie sound, and adds nothing else to its entries. -/
theorem sound_put (sound : Sound N path bit t) (under : Under path key)
    (turn : key.getD path.length false = bit) (goes : key.length ≠ path.length)
    (nonempty : key ≠ []) (fits : key.length ≤ N) :
    Sound N path bit (put path.length t (key, v)) ∧
      ∀ e ∈ (put path.length t (key, v)).entries path bit,
        e ∈ t.entries path bit ∨ e = (key, v) := by
  induction sound with
  | empty path bit =>
    have ends := follow_reaching under turn
    have only : ∀ e ∈ (put path.length empty (key, v)).entries path bit, e = (key, v) := by
      intro e member
      simpa [entries_node, ends] using member
    refine ⟨?_, fun e member => .inr (only e member)⟩
    refine .node (by rwa [ends]) (reaching_returns turn nonempty goes) (fun none => by cases none)
      (fun e member => ?_) (.empty ..) (.empty ..)
    rw [only e member]
    exact ⟨turn, reaching_passes key path⟩
  | @node path bit edge value zero one fits' returns useful passed zeroSound oneSound zeroIh
      oneIh =>
    have depth := depth_follow returns
    rcases put_cases path.length edge value zero one key v with
      ⟨passes, ends, stored⟩ | ⟨passes, goes', turn', stored⟩ | ⟨passes, goes', turn', stored⟩ |
        stored | ⟨common, c, below, rfl, long, ⟨ends, stored⟩ | ⟨rest, leaves, stored⟩⟩ <;>
      rw [stored]
    · have here : edge.follow path bit = key :=
        (under_eq (under_follow under turn passes returns) (ends.trans depth))
      have members (e : List Bool × V)
          (member : e ∈ (node edge (some v) zero one).entries path bit) :
          e ∈ (node edge value zero one).entries path bit ∨ e = (key, v) := by
        rcases mem_entries_node.mp member with ⟨w, same, rfl⟩ | sides
        · cases same
          exact .inr (by rw [here])
        · exact .inl (mem_entries_node.mpr (.inr sides))
      refine ⟨.node fits' (fun depth back => ?_) (fun none => by cases none) (fun e member => ?_)
        zeroSound oneSound, members⟩
      · obtain ⟨low, positive, above, -⟩ := returns depth back
        exact ⟨low, positive, above, by simp⟩
      · rcases members e member with old | rfl
        · exact passed e old
        · exact ⟨turn, passes⟩
    · rw [depth] at goes' turn' ⊢
      obtain ⟨sound, inner⟩ := zeroIh (under_follow under turn passes returns) turn' goes'
      have members (e : List Bool × V) (member : e ∈ (node edge value
          (put (edge.follow path bit).length zero (key, v)) one).entries path bit) :
          e ∈ (node edge value zero one).entries path bit ∨ e = (key, v) := by
        rcases mem_entries_node.mp member with here | there | there
        · exact .inl (mem_entries_node.mpr (.inl here))
        · exact (inner e there).imp_left fun old => mem_entries_node.mpr (.inr (.inl old))
        · exact .inl (mem_entries_node.mpr (.inr (.inr there)))
      refine ⟨.node fits' returns (fun none => ⟨down_put (useful none).1 key v, (useful none).2⟩)
        (fun e member => ?_) sound oneSound, members⟩
      rcases members e member with old | rfl
      · exact passed e old
      · exact ⟨turn, passes⟩
    · rw [depth] at goes' turn' ⊢
      obtain ⟨sound, inner⟩ := oneIh (under_follow under turn passes returns) turn' goes'
      have members (e : List Bool × V) (member : e ∈ (node edge value zero
          (put (edge.follow path bit).length one (key, v))).entries path bit) :
          e ∈ (node edge value zero one).entries path bit ∨ e = (key, v) := by
        rcases mem_entries_node.mp member with here | there | there
        · exact .inl (mem_entries_node.mpr (.inl here))
        · exact .inl (mem_entries_node.mpr (.inr (.inl there)))
        · exact (inner e there).imp_left fun old => mem_entries_node.mpr (.inr (.inr old))
      refine ⟨.node fits' returns (fun none => ⟨(useful none).1, down_put (useful none).2 key v⟩)
        (fun e member => ?_) zeroSound sound, members⟩
      rcases members e member with old | rfl
      · exact passed e old
      · exact ⟨turn, passes⟩
    · exact ⟨.node fits' returns useful passed zeroSound oneSound, fun e member => .inl member⟩
    · have whole := long_key under turn long
      rw [ends] at whole
      refine sound_cut (.node fits' returns useful passed zeroSound oneSound) turn ?_
        (by rwa [whole]) (fun w same => ?_) (fun none => by cases none) (.empty ..)
        (fun e none => by cases none)
      · rw [← ends]
        exact passes_drop long (List.prefix_refl _)
      · cases same
        rw [whole]
    · have whole := long_key under turn long
      rw [leaves] at whole
      have same : (path ++ bit :: common) ++ (!c) :: rest = key := by simpa using whole
      have only : ∀ e ∈ (node (.down rest) (some v) empty empty).entries (path ++ bit :: common)
          (!c), e = (key, v) := by
        intro e member
        simpa [entries_node, Edge.follow, whole] using member
      have within : (path ++ bit :: common).length ≤ N := by
        rw [← same, List.length_append] at fits
        omega
      refine sound_cut (.node fits' returns useful passed zeroSound oneSound) turn ?_ within
        (fun w same => by cases same) (fun _ => ⟨_, _, _, _, rfl⟩) ?_ only
      · exact passes_drop long (leaves ▸ List.prefix_append _ _)
      · refine .node (by rwa [Edge.follow, same]) (fun depth back => by cases back)
          (fun none => by cases none) (fun e member => ?_) (.empty ..) (.empty ..)
        rw [only e member, ← same]
        refine ⟨by simp, passes_drop (by simp) ?_⟩
        rw [← List.drop_drop, List.drop_left, List.drop_one, List.tail_cons]

/-- The keys of a trie fit, and none of them is empty. -/
theorem entries_fit (sound : Sound N path bit t) :
    ∀ e ∈ t.entries path bit, e.1 ≠ [] ∧ e.1.length ≤ N := by
  induction sound with
  | empty => exact fun e none => by cases none
  | @node path bit edge value zero one fits returns _ _ _ _ zeroIh oneIh =>
    intro e member
    rcases mem_entries_node.mp member with ⟨w, -, rfl⟩ | there | there
    · refine ⟨?_, fits⟩
      cases edge with
      | down label => simp [Edge.follow]
      | back depth =>
        obtain ⟨-, positive, above, -⟩ := returns depth rfl
        rw [← List.length_pos_iff]
        simp only [Edge.follow, List.length_take]
        omega
    · exact zeroIh e there
    · exact oneIh e there

theorem insert_ne_empty {above : Nat} (stored : t.insert key v above = some there) :
    there ≠ empty := by
  cases t with
  | empty =>
    cases stored
    simp
  | node edge value zero one =>
    rcases put_cases above edge value zero one key v with
      ⟨-, -, is⟩ | ⟨-, -, -, is⟩ | ⟨-, -, -, is⟩ | is | ⟨_, c, _, -, -, ⟨-, is⟩ | ⟨_, -, is⟩⟩ <;>
      rw [put, stored, Option.getD_some] at is <;> subst is
    · simp
    · simp
    · simp
    · simp
    · cases c <;> simp [branch]
    · cases c <;> simp [branch]

end

/-! ## What storing reaches -/

section
variable {N : Nat} {path key : List Bool} {bit : Bool} {t t' : Rewind V} {v : V}
  {e : List Bool × V}

/-- **Storing** a key leaves the entries of the others. -/
theorem kept_put (sound : Sound N path bit t) (under : Under path key)
    (turn : key.getD path.length false = bit) (member : e ∈ t.entries path bit)
    (other : e.1 ≠ key) : e ∈ (put path.length t (key, v)).entries path bit := by
  induction sound with
  | empty => cases member
  | @node path bit edge value zero one fits returns useful passed zeroSound oneSound zeroIh
      oneIh =>
    have depth := depth_follow returns
    rcases put_cases path.length edge value zero one key v with
      ⟨passes, ends, stored⟩ | ⟨passes, goes, turn', stored⟩ | ⟨passes, goes, turn', stored⟩ |
        stored | ⟨common, c, below, rfl, long, halves⟩
    · rw [stored]
      rcases mem_entries_node.mp member with ⟨w, -, rfl⟩ | sides
      · have here : edge.follow path bit = key :=
          under_eq (under_follow under turn passes returns) (ends.trans depth)
        exact absurd here other
      · exact mem_entries_node.mpr (.inr sides)
    · rw [stored]
      rw [depth] at turn' ⊢
      rcases mem_entries_node.mp member with here | there | there
      · exact mem_entries_node.mpr (.inl here)
      · have below := zeroIh (under_follow under turn passes returns) turn' there
        exact mem_entries_node.mpr (.inr (.inl below))
      · exact mem_entries_node.mpr (.inr (.inr there))
    · rw [stored]
      rw [depth] at turn' ⊢
      rcases mem_entries_node.mp member with here | there | there
      · exact mem_entries_node.mpr (.inl here)
      · exact mem_entries_node.mpr (.inr (.inl there))
      · have below := oneIh (under_follow under turn passes returns) turn' there
        exact mem_entries_node.mpr (.inr (.inr below))
    · rw [stored]
      exact member
    · -- all that was below the cut hangs from its lower half
      have lower : e ∈ (node (.down below) value zero one).entries (path ++ bit :: common) c := by
        rw [(sound_lower (.node fits returns useful passed zeroSound oneSound)).2]
        exact member
      rcases halves with ⟨-, stored⟩ | ⟨rest, -, stored⟩ <;> rw [stored] <;>
        exact mem_entries_branch.mpr (.inr (.inl lower))

/-- **A key** that is not refused is stored. -/
theorem mem_insert (sound : Sound N path bit t) (under : Under path key)
    (turn : key.getD path.length false = bit)
    (stored : t.insert key v path.length = some t') : (key, v) ∈ t'.entries path bit := by
  induction sound generalizing t' with
  | empty path bit =>
    cases stored
    exact mem_entries_node.mpr (.inl ⟨v, rfl, by rw [follow_reaching under turn]⟩)
  | @node path bit edge value zero one fits returns useful passed zeroSound oneSound zeroIh
      oneIh =>
    have depth := depth_follow returns
    by_cases passes : edge.Passes key path.length
    · have below := under_follow under turn passes returns
      rw [insert_passes passes, depth] at stored
      obtain ⟨⟨value', zero', one'⟩, inner, rfl⟩ := Option.map_eq_some_iff.mp stored
      by_cases ends : key.length = (edge.follow path bit).length
      · rw [within, if_pos ends, Option.some.injEq, Prod.mk.injEq] at inner
        obtain ⟨rfl, -⟩ := inner
        exact mem_entries_node.mpr (.inl ⟨v, rfl, by rw [under_eq below ends]⟩)
      · rw [within, if_neg ends] at inner
        cases turn' : key.getD (edge.follow path bit).length false with
        | false =>
          rw [turn', if_neg Bool.false_ne_true] at inner
          obtain ⟨zero'', deeper, same⟩ := Option.map_eq_some_iff.mp inner
          cases same
          exact mem_entries_node.mpr (.inr (.inl (zeroIh below turn' deeper)))
        | true =>
          rw [turn', if_pos rfl] at inner
          obtain ⟨one'', deeper, same⟩ := Option.map_eq_some_iff.mp inner
          cases same
          exact mem_entries_node.mpr (.inr (.inr (oneIh below turn' deeper)))
    · by_cases short : key.length ≤ path.length
      · rw [insert_refused passes short] at stored
        cases stored
      · have long : path.length < key.length := Nat.not_le.mp short
        have whole := long_key under turn long
        cases edge with
        | back depth => exact absurd trivial passes
        | down label =>
          rw [insert_cut passes long, Option.some.injEq] at stored
          have aside : ¬ label <+: key.drop (path.length + 1) := fun start =>
            passes (passes_drop long start)
          obtain ⟨common, c, below, rfl, ends | ⟨rest, leaves⟩⟩ := Trie.aside_cases aside
          · rw [ends] at whole
            rw [← stored, cut_inside ends]
            exact mem_entries_branch.mpr (.inl ⟨v, rfl, by rw [Edge.follow, whole]⟩)
          · rw [leaves] at whole
            rw [← stored, cut_leaves leaves]
            refine mem_entries_branch.mpr (.inr (.inr (mem_entries_node.mpr (.inl ⟨v, rfl, ?_⟩))))
            rw [Edge.follow, Edge.follow, List.append_assoc, List.cons_append, whole]

end

/-! ## Two sides -/

/-- A key is stored on its side. -/
def store (s : Rewind V × Rewind V) (e : List Bool × V) : Rewind V × Rewind V :=
  if e.1.getD 0 false then (s.1, put 0 s.2 e) else (put 0 s.1 e, s.2)

/-- The tries on the two sides of a root. -/
structure Sides (N : Nat) (s : Rewind V × Rewind V) : Prop where
  zero : Sound N [] false s.1
  one : Sound N [] true s.2

/-- The entries on both sides. -/
def both (s : Rewind V × Rewind V) : List (List Bool × V) :=
  s.1.entries [] false ++ s.2.entries [] true

section
variable {N : Nat} {s : Rewind V × Rewind V} {e : List Bool × V}

theorem sides_store (sides : Sides N s) (nonempty : e.1 ≠ []) (fits : e.1.length ≤ N) :
    Sides N (store s e) ∧ ∀ e' ∈ both (store s e), e' ∈ both s ∨ e' = e := by
  have goes : e.1.length ≠ ([] : List Bool).length := by simpa using nonempty
  cases turn : e.1.getD 0 false with
  | false =>
    obtain ⟨sound, members⟩ := sound_put (v := e.2) sides.zero (under_nil e.1) turn goes nonempty
      fits
    have stored : store s e = (put 0 s.1 e, s.2) := by rw [store, turn]; rfl
    rw [stored]
    refine ⟨⟨sound, sides.one⟩, fun e' member => ?_⟩
    rcases List.mem_append.mp member with here | there
    · exact (members e' here).imp_left fun old => List.mem_append_left _ old
    · exact .inl (List.mem_append_right _ there)
  | true =>
    obtain ⟨sound, members⟩ := sound_put (v := e.2) sides.one (under_nil e.1) turn goes nonempty
      fits
    have stored : store s e = (s.1, put 0 s.2 e) := by rw [store, turn]; rfl
    rw [stored]
    refine ⟨⟨sides.zero, sound⟩, fun e' member => ?_⟩
    rcases List.mem_append.mp member with here | there
    · exact .inl (List.mem_append_left _ here)
    · exact (members e' there).imp_left fun old => List.mem_append_right _ old

/-- Storing leaves the entries with other keys. -/
theorem kept_store {e' : List Bool × V} (sides : Sides N s) (member : e' ∈ both s)
    (other : e'.1 ≠ e.1) : e' ∈ both (store s e) := by
  cases turn : e.1.getD 0 false with
  | false =>
    have stored : store s e = (put 0 s.1 e, s.2) := by rw [store, turn]; rfl
    rw [stored]
    rcases List.mem_append.mp member with here | there
    · exact List.mem_append_left _ (kept_put sides.zero (under_nil e.1) turn here other)
    · exact List.mem_append_right _ there
  | true =>
    have stored : store s e = (s.1, put 0 s.2 e) := by rw [store, turn]; rfl
    rw [stored]
    rcases List.mem_append.mp member with here | there
    · exact List.mem_append_left _ here
    · exact List.mem_append_right _ (kept_put sides.one (under_nil e.1) turn there other)

/-- **Two sides** without two copies of one key are made again by storing their entries
in the order of a traversal. -/
theorem foldl_store_both (sides : Sides N s) (distinct : ((both s).map Prod.fst).Nodup) :
    (both s).foldl store (empty, empty) = s := by
  obtain ⟨zero, one⟩ := s
  have zeroTurns := turns sides.zero
  have oneTurns := turns sides.one
  rw [both, List.map_append] at distinct
  obtain ⟨zeroDistinct, oneDistinct, -⟩ := List.nodup_append.mp distinct
  have zeroAgain := foldl_put_side sides.zero fun edge above leads passes =>
    foldl_put_entries sides.zero zeroDistinct (fun e _ => under_nil e.1) leads passes
  have oneAgain := foldl_put_side sides.one fun edge above leads passes =>
    foldl_put_entries sides.one oneDistinct (fun e _ => under_nil e.1) leads passes
  have zeroStores (es : List (List Bool × V)) (all : ∀ e ∈ es, e.1.getD 0 false = false)
      (a b : Rewind V) : es.foldl store (a, b) = (es.foldl (put 0) a, b) := by
    induction es generalizing a with
    | nil => rfl
    | cons e es ih =>
      have first : store (a, b) e = (put 0 a e, b) := by
        rw [store, all e (List.mem_cons_self ..)]
        rfl
      rw [List.foldl_cons, first, ih (fun e member => all e (List.mem_cons_of_mem _ member)),
        List.foldl_cons]
  have oneStores (es : List (List Bool × V)) (all : ∀ e ∈ es, e.1.getD 0 false = true)
      (a b : Rewind V) : es.foldl store (a, b) = (a, es.foldl (put 0) b) := by
    induction es generalizing b with
    | nil => rfl
    | cons e es ih =>
      have first : store (a, b) e = (a, put 0 b e) := by
        rw [store, all e (List.mem_cons_self ..)]
        rfl
      rw [List.foldl_cons, first, ih (fun e member => all e (List.mem_cons_of_mem _ member)),
        List.foldl_cons]
  rw [both, List.foldl_append, zeroStores _ zeroTurns, oneStores _ oneTurns]
  exact Prod.ext zeroAgain oneAgain

end

end Rewind

end NetifyAgent
