import Mathlib.Data.List.Pairwise
import Mathlib.Order.Lattice

/-! Maps as lists of entries in the order of their keys. The order is part of the
structure, so that every key has one entry and the first entry of a kind is the
one with the least key. -/
namespace NetifyAgent

/-- A map whose entries stand in the order of their keys. -/
structure OrderedMap (κ ν : Type) [LinearOrder κ] where
  entries : List (κ × ν) := []
  sorted : entries.Pairwise fun a b => a.1 < b.1 := by exact .nil
  deriving DecidableEq

namespace OrderedMap
variable {κ ν : Type} [LinearOrder κ]

instance : EmptyCollection (OrderedMap κ ν) := ⟨{}⟩

/-- The value of a key. -/
def get (m : OrderedMap κ ν) (k : κ) : Option ν :=
  (m.entries.find? fun e => e.1 = k).map Prod.snd

/-- The entries after a key was given a value. -/
def put (k : κ) (v : ν) : List (κ × ν) → List (κ × ν)
  | [] => [(k, v)]
  | e :: rest =>
    if k < e.1 then (k, v) :: e :: rest
    else if k = e.1 then (k, v) :: rest
    else e :: put k v rest

theorem mem_put {k : κ} {v : ν} {entries : List (κ × ν)} {e : κ × ν}
    (member : e ∈ put k v entries) : e = (k, v) ∨ e ∈ entries := by
  induction entries with
  | nil => exact .inl (List.mem_singleton.mp member)
  | cons first rest ih =>
    unfold put at member
    split at member
    · exact (List.mem_cons.mp member).imp_right id
    · split at member
      · exact (List.mem_cons.mp member).imp_right fun later => List.mem_cons_of_mem _ later
      · rcases List.mem_cons.mp member with rfl | later
        · exact .inr (List.mem_cons_self ..)
        · exact (ih later).imp_right fun old => List.mem_cons_of_mem _ old

theorem sorted_put (k : κ) (v : ν) {entries : List (κ × ν)}
    (sorted : entries.Pairwise fun a b => a.1 < b.1) :
    (put k v entries).Pairwise fun a b => a.1 < b.1 := by
  induction entries with
  | nil => exact List.pairwise_singleton _ _
  | cons first rest ih =>
    have after {e : κ × ν} (member : e ∈ rest) : first.1 < e.1 :=
      List.rel_of_pairwise_cons sorted member
    unfold put
    split
    case isTrue less =>
      refine List.pairwise_cons.mpr ⟨fun e member => ?_, sorted⟩
      rcases List.mem_cons.mp member with rfl | later
      · exact less
      · exact lt_trans less (after later)
    case isFalse notLess =>
      split
      case isTrue same =>
        subst same
        exact List.pairwise_cons.mpr ⟨fun e member => after member, sorted.of_cons⟩
      case isFalse other =>
        refine List.pairwise_cons.mpr ⟨fun e member => ?_, ih sorted.of_cons⟩
        rcases mem_put member with rfl | old
        · exact lt_of_le_of_ne (not_lt.mp notLess) (Ne.symm other)
        · exact after old

/-- The map with a new value for a key. -/
def set (m : OrderedMap κ ν) (k : κ) (v : ν) : OrderedMap κ ν :=
  ⟨put k v m.entries, sorted_put k v m.sorted⟩

/-- The map with a value for a key that had none. -/
def emplace (m : OrderedMap κ ν) (k : κ) (v : ν) : OrderedMap κ ν :=
  if (m.get k).isSome then m else m.set k v

@[simp] theorem get_empty (k : κ) : (∅ : OrderedMap κ ν).get k = none := rfl

theorem mem_entries {m : OrderedMap κ ν} {k : κ} {v : ν} :
    (k, v) ∈ m.entries ↔ m.get k = some v := by
  obtain ⟨entries, sorted⟩ := m
  show (k, v) ∈ entries ↔ (entries.find? fun e => decide (e.1 = k)).map Prod.snd = some v
  induction entries with
  | nil => simp
  | cons first rest ih =>
    have after {e : κ × ν} (member : e ∈ rest) : first.1 < e.1 :=
      List.rel_of_pairwise_cons sorted member
    by_cases here : first.1 = k
    · rw [List.find?_cons_of_pos (by simpa using here), Option.map_some, List.mem_cons]
      constructor
      · rintro (rfl | later)
        · rfl
        · exact absurd here (ne_of_lt (after later))
      · intro same
        left
        rw [← here, ← Option.some.inj same]
    · rw [List.find?_cons_of_neg (by simpa using here), List.mem_cons, ← ih sorted.of_cons]
      constructor
      · rintro (rfl | later)
        · exact absurd rfl here
        · exact later
      · exact .inr

/-- Values for two keys may be given in either order. -/
theorem put_comm {k k' : κ} (apart : k ≠ k') (v v' : ν) (entries : List (κ × ν)) :
    put k v (put k' v' entries) = put k' v' (put k v entries) := by
  induction entries with
  | nil =>
    rcases lt_or_gt_of_ne apart with less | less
    · simp [put, less, not_lt_of_gt less, Ne.symm apart]
    · simp [put, less, not_lt_of_gt less, apart]
  | cons first rest ih =>
    rcases lt_trichotomy k first.1 with below | rfl | above
    · rcases lt_trichotomy k' first.1 with below' | rfl | above'
      · rcases lt_or_gt_of_ne apart with less | less
        · simp [put, below, below', less, not_lt_of_gt less, Ne.symm apart]
        · simp [put, below, below', less, not_lt_of_gt less, apart]
      · simp [put, below, not_lt_of_gt below, Ne.symm apart]
      · have less := below.trans above'
        simp [put, below, not_lt_of_gt above', ne_of_gt above', not_lt_of_gt less, Ne.symm apart]
    · rcases lt_trichotomy k' first.1 with below' | same | above'
      · simp [put, below', not_lt_of_gt below', apart]
      · exact absurd same.symm apart
      · simp [put, not_lt_of_gt above', ne_of_gt above']
    · rcases lt_trichotomy k' first.1 with below' | rfl | above'
      · have less := below'.trans above
        simp [put, below', not_lt_of_gt above, ne_of_gt above, not_lt_of_gt less, apart]
      · simp [put, not_lt_of_gt above, ne_of_gt above]
      · simp [put, not_lt_of_gt above, ne_of_gt above, not_lt_of_gt above', ne_of_gt above', ih]

theorem find_put {k k' : κ} {v : ν} (entries : List (κ × ν)) :
    ((put k v entries).find? fun e => decide (e.1 = k')).map Prod.snd =
      if k' = k then some v else (entries.find? fun e => decide (e.1 = k')).map Prod.snd := by
  induction entries with
  | nil =>
    by_cases same : k' = k
    · subst same
      simp [put]
    · simp [put, same, Ne.symm same]
  | cons first rest ih =>
    unfold put
    split
    case isTrue less =>
      by_cases same : k' = k
      · subst same
        simp
      · simp [same, Ne.symm same]
    case isFalse notLess =>
      split
      case isTrue here =>
        subst here
        by_cases same : k' = first.1
        · subst same
          simp
        · simp [same, Ne.symm same]
      case isFalse other =>
        by_cases there : first.1 = k'
        · subst there
          simp [Ne.symm other]
        · rw [List.find?_cons_of_neg (by simpa using there), ih,
            List.find?_cons_of_neg (by simpa using there)]

theorem get_set (m : OrderedMap κ ν) (k k' : κ) (v : ν) :
    (m.set k v).get k' = if k' = k then some v else m.get k' :=
  find_put m.entries

@[simp] theorem get_set_self (m : OrderedMap κ ν) (k : κ) (v : ν) :
    (m.set k v).get k = some v := by
  rw [get_set, if_pos rfl]

theorem get_set_ne {k k' : κ} (other : k' ≠ k) (m : OrderedMap κ ν) (v : ν) :
    (m.set k v).get k' = m.get k' := by
  rw [get_set, if_neg other]

theorem get_emplace (m : OrderedMap κ ν) (k k' : κ) (v : ν) :
    (m.emplace k v).get k' = (m.get k').or (if k' = k then some v else none) := by
  unfold emplace
  split
  case isTrue present =>
    by_cases same : k' = k
    · subst same
      obtain ⟨old, held⟩ := Option.isSome_iff_exists.mp present
      rw [held, Option.some_or]
    · rw [if_neg same, Option.or_none]
  case isFalse absent =>
    rw [get_set]
    by_cases same : k' = k
    · subst same
      rw [Option.not_isSome_iff_eq_none.mp absent, Option.none_or]
    · rw [if_neg same, if_neg same, Option.or_none]

/-- The keys of another map are emplaced. -/
theorem get_foldl_emplace (m m' : OrderedMap κ ν) (k : κ) :
    (m'.entries.foldl (fun m e => m.emplace e.1 e.2) m).get k = (m.get k).or (m'.get k) := by
  have all (entries : List (κ × ν)) :
      (entries.foldl (fun m e => m.emplace e.1 e.2) m).get k =
        (m.get k).or ((entries.find? fun e => e.1 = k).map Prod.snd) := by
    induction entries generalizing m with
    | nil => simp
    | cons e rest ih =>
      rw [List.foldl_cons, ih, get_emplace, Option.or_assoc]
      by_cases same : e.1 = k
      · subst same
        simp
      · rw [List.find?_cons_of_neg (by simpa using same), if_neg (Ne.symm same), Option.none_or]
  exact all m'.entries

/-- The first entry of a kind has the least key among those of the kind. -/
theorem find_least {m : OrderedMap κ ν} {p : κ × ν → Bool} {e : κ × ν}
    (found : m.entries.find? p = some e) :
    m.get e.1 = some e.2 ∧ p e = true ∧ ∀ k v, m.get k = some v → p (k, v) = true → e.1 ≤ k := by
  refine ⟨mem_entries.mp (List.mem_of_find?_eq_some found), List.find?_some found, ?_⟩
  intro k v stored kind
  obtain ⟨-, before, after, split, none⟩ := List.find?_eq_some_iff_append.mp found
  have member := mem_entries.mpr stored
  have sorted := m.sorted
  rw [split] at member sorted
  rcases List.mem_append.mp member with early | late
  · have other := none _ early
    rw [kind] at other
    cases other
  · rcases List.mem_cons.mp late with rfl | later
    · exact le_refl _
    · exact le_of_lt (List.rel_of_pairwise_cons (List.pairwise_append.mp sorted).2.1 later)

/-- The map with other values. -/
def mapEntries {μ : Type} (m : OrderedMap κ ν) (f : κ → ν → μ) : OrderedMap κ μ :=
  ⟨m.entries.map fun e => (e.1, f e.1 e.2), List.pairwise_map.mpr m.sorted⟩

theorem get_mapEntries {μ : Type} (m : OrderedMap κ ν) (f : κ → ν → μ) (k : κ) :
    (m.mapEntries f).get k = (m.get k).map (f k) := by
  apply Option.ext
  intro v
  rw [← mem_entries, Option.map_eq_some_iff]
  constructor
  · intro member
    obtain ⟨⟨k, v⟩, old, same⟩ := List.mem_map.mp member
    cases same
    exact ⟨v, mem_entries.mp old, rfl⟩
  · rintro ⟨v, stored, rfl⟩
    exact List.mem_map.mpr ⟨(k, v), mem_entries.mpr stored, rfl⟩

/-! ## Parts -/

/-- The entries of a kind. -/
def filter (m : OrderedMap κ ν) (p : κ × ν → Bool) : OrderedMap κ ν :=
  ⟨m.entries.filter p, m.sorted.filter p⟩

/-- The map without a key. -/
def erase (m : OrderedMap κ ν) (k : κ) : OrderedMap κ ν := m.filter fun e => e.1 ≠ k

theorem get_filter_eq_some {m : OrderedMap κ ν} {p : κ × ν → Bool} {k : κ} {v : ν} :
    (m.filter p).get k = some v ↔ m.get k = some v ∧ p (k, v) = true := by
  rw [← mem_entries, ← mem_entries]
  exact List.mem_filter

theorem get_filter_key (m : OrderedMap κ ν) (p : κ → Bool) (k : κ) :
    (m.filter fun e => p e.1).get k = if p k then m.get k else none := by
  apply Option.ext
  intro v
  rw [get_filter_eq_some]
  by_cases kind : p k = true
  · simp [kind]
  · simp [kind]

theorem get_erase (m : OrderedMap κ ν) (k k' : κ) :
    (m.erase k).get k' = if k' = k then none else m.get k' := by
  have kept := get_filter_key m (fun k' => decide (k' ≠ k)) k'
  simp only [decide_eq_true_eq, ite_not] at kept
  exact kept

/-- A map is determined by the values of its keys. -/
theorem ext_get {m m' : OrderedMap κ ν} (same : ∀ k, m.get k = m'.get k) : m = m' := by
  have members (e : κ × ν) : e ∈ m.entries ↔ e ∈ m'.entries := by
    rw [mem_entries, mem_entries, same]
  have nodup (m : OrderedMap κ ν) : m.entries.Nodup :=
    m.sorted.imp fun less equal => absurd (congrArg Prod.fst equal) (ne_of_lt less)
  have perm := (List.perm_ext_iff_of_nodup (nodup m) (nodup m')).mpr members
  have entries : m.entries = m'.entries := by
    refine List.Perm.eq_of_pairwise (fun a b _ _ ab ba => ?_) m.sorted m'.sorted perm
    exact absurd ab (lt_asymm ba)
  obtain ⟨_, _⟩ := m
  obtain ⟨_, _⟩ := m'
  cases entries
  rfl

/-- The keys in their order. -/
def keys (m : OrderedMap κ ν) : List κ := m.entries.map Prod.fst

theorem mem_keys {m : OrderedMap κ ν} {k : κ} : k ∈ m.keys ↔ (m.get k).isSome := by
  rw [Option.isSome_iff_exists, keys, List.mem_map]
  constructor
  · rintro ⟨e, member, rfl⟩
    exact ⟨e.2, mem_entries.mp member⟩
  · rintro ⟨v, here⟩
    exact ⟨(k, v), mem_entries.mpr here, rfl⟩

theorem keys_sorted (m : OrderedMap κ ν) : m.keys.Pairwise (· < ·) :=
  List.pairwise_map.mpr m.sorted

theorem keys_nodup (m : OrderedMap κ ν) : m.keys.Nodup := m.keys_sorted.imp ne_of_lt

/-- Maps with values for the same keys have them in the same order. -/
theorem keys_eq {μ : Type} {m : OrderedMap κ ν} {m' : OrderedMap κ μ}
    (same : ∀ k, (m.get k).isSome ↔ (m'.get k).isSome) : m.keys = m'.keys := by
  have members (k : κ) : k ∈ m.keys ↔ k ∈ m'.keys := by
    rw [mem_keys, mem_keys, same]
  have perm := (List.perm_ext_iff_of_nodup m.keys_nodup m'.keys_nodup).mpr members
  exact perm.eq_of_pairwise (fun a b _ _ ab ba => absurd ab (lt_asymm ba)) m.keys_sorted
    m'.keys_sorted

end OrderedMap

end NetifyAgent
