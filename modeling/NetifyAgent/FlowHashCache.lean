import Mathlib.Data.List.AList
import NetifyAgent.Lib.Index
import NetifyAgent.Lib.Recency

/-! `ndFlowHashCache`. A list of digest pairs, the one used last in front, and a
map from the first digest of a pair to its place in the list. A push of a new
digest onto a full cache first drops a share of the list from its end. -/
namespace NetifyAgent
open NetifyAgent.Recency

/-- A node of the list. `addr` is what an iterator to it holds. -/
structure FhcNode where
  addr : Nat
  first : List UInt8
  second : List UInt8
  deriving DecidableEq, Repr

/-- `ndFlowHashCache`, without its lock. -/
structure FlowHashCache where
  cacheSize : Nat
  index : List FhcNode := []
  lookup : AList fun _ : List UInt8 => Nat := ∅
  /-- Where the next node is allocated. -/
  fresh : Nat := 0

namespace FlowHashCache

/-- `lookup.size()`. -/
def size (c : FlowHashCache) : Nat := c.lookup.keys.length

/-- `index.push_front(make_pair(lower, upper))`, `lookup[lower] = index.begin()`. -/
def pushFront (lower upper : List UInt8) (c : FlowHashCache) : FlowHashCache :=
  { c with
    index := ⟨c.fresh, lower, upper⟩ :: c.index
    lookup := c.lookup.insert lower c.fresh
    fresh := c.fresh + 1 }

/-- The loop that drops `n` entries from the end. `none` is `back()` of an empty
list. -/
def dropBack : Nat → FlowHashCache → Option FlowHashCache
  | 0, c => some c
  | n + 1, c =>
    match c.index.getLast? with
    | none => none
    | some j => dropBack n
      { c with
        lookup := c.lookup.erase j.first
        index := c.index.dropLast }

/-- Drops a share of a full cache. `none` is also the division by zero. -/
def makeRoom (fhcPurgeDivisor : Nat) (c : FlowHashCache) : Option FlowHashCache :=
  if c.size = c.cacheSize then
    if fhcPurgeDivisor = 0 then none else c.dropBack (c.cacheSize / fhcPurgeDivisor)
  else some c

/-- `ndFlowHashCache::Push`, with `ndGC.fhc_purge_divisor`. -/
def push (fhcPurgeDivisor : Nat) (lower upper : List UInt8) (c : FlowHashCache) :
    Option FlowHashCache :=
  match c.lookup.lookup lower with
  | some _ => some c
  | none => (c.makeRoom fhcPurgeDivisor).map (pushFront lower upper)

/-- `ndFlowHashCache::Pop`: the value it found, and `none` for an iterator to no
node. -/
def pop (lower : List UInt8) (c : FlowHashCache) : Option (FlowHashCache × Option (List UInt8)) :=
  match c.lookup.lookup lower with
  | none => some (c, none)
  | some i =>
    match c.index.find? fun n => n.addr = i with
    | none => none
    | some n =>
      some (pushFront lower n.second { c with index := c.index.filter fun n => n.addr ≠ i },
        some n.second)

/-! ## Coherence -/

/-- The list as pairs. -/
def entries (c : FlowHashCache) : List (List UInt8 × List UInt8) :=
  c.index.map fun n => (n.first, n.second)

/-- List and map hold the same keys without duplicates, and the map leads to the
node of each. -/
structure Coherent (c : FlowHashCache) : Prop where
  keys : (c.index.map FhcNode.first).Nodup
  addrs : (c.index.map FhcNode.addr).Nodup
  old : ∀ n ∈ c.index, n.addr < c.fresh
  linked : ∀ k i, c.lookup.lookup k = some i ↔ ∃ n ∈ c.index, n.first = k ∧ n.addr = i

theorem coherent_empty (cacheSize : Nat) : Coherent { cacheSize } := by
  refine ⟨.nil, .nil, ?_, ?_⟩
  · simp
  · simp

theorem entries_keys (c : FlowHashCache) : Recency.keys c.entries = c.index.map FhcNode.first := by
  simp [Recency.keys, entries, Function.comp_def]

theorem entries_length (c : FlowHashCache) : c.entries.length = c.index.length :=
  List.length_map _

section
variable {c c' : FlowHashCache} {k v : List UInt8} {divisor : Nat}

theorem mem_lookup (coherent : Coherent c) :
    k ∈ c.lookup.keys ↔ k ∈ c.index.map FhcNode.first := by
  rw [← AList.mem_keys, ← AList.lookup_isSome, Option.isSome_iff_exists, List.mem_map]
  constructor
  · rintro ⟨i, found⟩
    obtain ⟨n, here, key, _⟩ := (coherent.linked k i).mp found
    exact ⟨n, here, key⟩
  · rintro ⟨n, here, key⟩
    exact ⟨n.addr, (coherent.linked k n.addr).mpr ⟨n, here, key, rfl⟩⟩

/-- Both have the same size. -/
theorem size_eq (coherent : Coherent c) : c.size = c.entries.length := by
  have perm : c.lookup.keys.Perm (c.index.map FhcNode.first) :=
    (List.perm_ext_iff_of_nodup c.lookup.keys_nodup coherent.keys).mpr fun _ => mem_lookup coherent
  rw [size, perm.length_eq, entries, List.length_map, List.length_map]

theorem lookup_none (coherent : Coherent c) :
    c.lookup.lookup k = none ↔ k ∉ Recency.keys c.entries := by
  rw [AList.lookup_eq_none, AList.mem_keys, mem_lookup coherent, entries_keys]

theorem coherent_dropLast {xs : List FhcNode} {j : FhcNode} (coherent : Coherent c)
    (last : c.index = xs ++ [j]) :
    Coherent { c with lookup := c.lookup.erase j.first, index := xs } := by
  obtain ⟨keys, addrs, old, linked⟩ := coherent
  rw [last, List.map_append, List.nodup_append] at keys addrs
  refine ⟨keys.1, addrs.1, fun n here => old n (last ▸ List.mem_append_left _ here), ?_⟩
  intro k i
  have apart : ∀ n ∈ xs, n.first ≠ j.first := fun n here =>
    keys.2.2 _ (List.mem_map_of_mem here) _ (by simp)
  rw [Index.lookup_erase_cases, linked, last]
  constructor
  · rintro ⟨other, n, here, key, at_⟩
    rcases List.mem_append.mp here with here | here
    · exact ⟨n, here, key, at_⟩
    · rw [List.mem_singleton.mp here] at key
      exact absurd key.symm other
  · rintro ⟨n, here, key, at_⟩
    exact ⟨key ▸ apart n here, n, List.mem_append_left _ here, key, at_⟩

/-- The loop takes the given number of entries off the end. -/
theorem dropBack_spec {n : Nat} (coherent : Coherent c) (enough : n ≤ c.index.length) :
    ∃ c', c.dropBack n = some c' ∧ Coherent c' ∧ c'.cacheSize = c.cacheSize ∧
      c'.entries = c.entries.take (c.entries.length - n) := by
  induction n generalizing c with
  | zero => exact ⟨c, rfl, coherent, rfl, by simp⟩
  | succ n ih =>
    obtain ⟨xs, j, last⟩ : ∃ xs j, c.index = xs ++ [j] := by
      have nonempty : c.index ≠ [] := fun empty => by simp [empty] at enough
      exact ⟨_, _, (List.dropLast_append_getLast nonempty).symm⟩
    have shorter : n ≤ xs.length := by
      rw [last, List.length_append, List.length_singleton] at enough
      omega
    obtain ⟨c', done, after, size, cut⟩ := ih (coherent_dropLast coherent last) shorter
    refine ⟨c', ?_, after, size, ?_⟩
    · simp only [dropBack, last, List.getLast?_concat, List.dropLast_concat]
      exact done
    · rw [cut]
      simp only [entries, last, List.map_append, List.length_append, List.length_map,
        List.map_cons, List.map_nil, List.length_cons, List.length_nil]
      rw [List.take_append_of_le_length (by rw [List.length_map]; omega)]
      congr 1
      omega

theorem coherent_pushFront (coherent : Coherent c) (absent : k ∉ c.index.map FhcNode.first) :
    Coherent (pushFront k v c) := by
  obtain ⟨keys, addrs, old, linked⟩ := coherent
  refine ⟨List.nodup_cons.mpr ⟨absent, keys⟩, List.nodup_cons.mpr ⟨?_, addrs⟩, ?_, ?_⟩
  · intro here
    obtain ⟨n, here, same⟩ := List.mem_map.mp here
    exact absurd same (Nat.ne_of_lt (old n here))
  · intro n here
    cases here with
    | head => exact Nat.lt_succ_self _
    | tail _ here => exact Nat.lt_succ_of_lt (old n here)
  · intro l i
    have apart : ∀ n ∈ c.index, n.first ≠ k := fun n here same =>
      absent (List.mem_map.mpr ⟨n, here, same⟩)
    simp only [pushFront]
    rw [Index.lookup_insert_cases, linked]
    simp only [List.mem_cons, exists_eq_or_imp]
    constructor
    · rintro (⟨rfl, rfl⟩ | ⟨_, found⟩)
      · exact .inl ⟨rfl, rfl⟩
      · exact .inr found
    · rintro (⟨rfl, rfl⟩ | ⟨n, here, rfl, at_⟩)
      · exact .inl ⟨rfl, rfl⟩
      · exact .inr ⟨apart n here, n, here, rfl, at_⟩

theorem makeRoom_spec (coherent : Coherent c) (positive : 0 < divisor) :
    ∃ d, c.makeRoom divisor = some d ∧ Coherent d ∧ d.cacheSize = c.cacheSize ∧
      d.entries = purge c.cacheSize (c.cacheSize / divisor) c.entries := by
  unfold makeRoom purge
  rw [← size_eq coherent]
  by_cases full : c.size = c.cacheSize
  · have enough : c.cacheSize / divisor ≤ c.index.length := by
      rw [← entries_length, ← size_eq coherent, full]
      exact Nat.div_le_self _ _
    obtain ⟨d, done, after, size, cut⟩ := dropBack_spec coherent enough
    rw [if_pos full, if_pos full, if_neg (Nat.ne_of_gt positive)]
    refine ⟨d, done, after, size, ?_⟩
    rw [cut, ← size_eq coherent, full]
  · rw [if_neg full, if_neg full]
    exact ⟨c, rfl, coherent, rfl, rfl⟩

/-- **Push.** What `Push` does to the pairs. -/
theorem push_spec (coherent : Coherent c) (positive : 0 < divisor) (k v : List UInt8) :
    ∃ c', c.push divisor k v = some c' ∧ Coherent c' ∧ c'.cacheSize = c.cacheSize ∧
      c'.entries = Recency.push c.cacheSize (c.cacheSize / divisor) c.entries k v := by
  unfold push Recency.push
  by_cases absent : k ∈ Recency.keys c.entries
  · obtain ⟨i, known⟩ : ∃ i, c.lookup.lookup k = some i := by
      rw [← Option.ne_none_iff_exists']
      exact fun none => (lookup_none coherent).mp none absent
    rw [known, if_pos absent]
    exact ⟨c, rfl, coherent, rfl, rfl⟩
  · rw [(lookup_none coherent).mpr absent, if_neg absent]
    obtain ⟨d, done, after, size, cut⟩ := makeRoom_spec coherent positive
    have still : k ∉ d.index.map FhcNode.first := by
      rw [← entries_keys, cut]
      obtain ⟨out, split⟩ := purge_split c.cacheSize (c.cacheSize / divisor) c.entries
      intro here
      apply absent
      rw [split, keys_append]
      exact List.mem_append_left _ here
    simp only
    rw [done]
    refine ⟨pushFront k v d, rfl, coherent_pushFront after still, size, ?_⟩
    rw [← cut]
    rfl

/-- Nodes are told apart by their place as by their key. -/
theorem same_node {m n : FhcNode} (coherent : Coherent c) (there : m ∈ c.index)
    (here : n ∈ c.index) : m.addr = n.addr ↔ m.first = n.first :=
  ⟨fun same => by rw [List.inj_on_of_nodup_map coherent.addrs there here same],
    fun same => by rw [List.inj_on_of_nodup_map coherent.keys there here same]⟩

/-- **Pop.** What `Pop` finds, and what it does to the pairs. -/
theorem pop_spec (coherent : Coherent c) (k : List UInt8) :
    ∃ c', c.pop k = some (c', fetch c.entries k) ∧ Coherent c' ∧ c'.cacheSize = c.cacheSize ∧
      c'.entries = touch c.entries k := by
  have nodup : (Recency.keys c.entries).Nodup := by
    rw [entries_keys]
    exact coherent.keys
  unfold pop touch
  cases found : c.lookup.lookup k with
  | none =>
    rw [fetch_eq_none.mpr ((lookup_none coherent).mp found)]
    exact ⟨c, rfl, coherent, rfl, rfl⟩
  | some i =>
    obtain ⟨n, here, rfl, rfl⟩ := (coherent.linked k i).mp found
    have value : fetch c.entries n.first = some n.second :=
      (fetch_eq_some nodup).mpr (List.mem_map.mpr ⟨n, here, rfl⟩)
    have node : (c.index.find? fun m => m.addr = n.addr) = some n := by
      obtain ⟨m, got⟩ : ∃ m, (c.index.find? fun m => m.addr = n.addr) = some m := by
        rw [← Option.isSome_iff_exists, List.find?_isSome]
        exact ⟨n, here, by simp⟩
      have same : m.addr = n.addr := by simpa using List.find?_some got
      rw [got, List.inj_on_of_nodup_map coherent.addrs (List.mem_of_find?_eq_some got) here same]
    have filtered : (c.index.filter fun m => m.addr ≠ n.addr) =
        c.index.filter fun m => m.first ≠ n.first := by
      apply List.filter_congr
      intro m there
      simp only [ne_eq, same_node coherent there here]
    rw [value]
    simp only [node]
    refine ⟨_, rfl, ?_, rfl, ?_⟩
    · rw [filtered]
      obtain ⟨keys, addrs, old, linked⟩ := coherent
      refine ⟨List.nodup_cons.mpr ⟨by simp, ?_⟩, List.nodup_cons.mpr ⟨?_, ?_⟩, ?_, ?_⟩
      · exact keys.sublist (List.filter_sublist.map _)
      · intro again
        obtain ⟨m, there, same⟩ := List.mem_map.mp again
        exact absurd same (Nat.ne_of_lt (old m (List.mem_of_mem_filter there)))
      · exact addrs.sublist (List.filter_sublist.map _)
      · intro m there
        cases there with
        | head => exact Nat.lt_succ_self _
        | tail _ there => exact Nat.lt_succ_of_lt (old m (List.mem_of_mem_filter there))
      · intro l i
        simp only [pushFront]
        rw [Index.lookup_insert_cases, linked]
        simp only [List.mem_cons, exists_eq_or_imp, List.mem_filter]
        constructor
        · rintro (⟨rfl, rfl⟩ | ⟨other, m, there, rfl, at_⟩)
          · exact .inl ⟨rfl, rfl⟩
          · exact .inr ⟨m, ⟨there, by simpa using other⟩, rfl, at_⟩
        · rintro (⟨rfl, rfl⟩ | ⟨m, ⟨there, other⟩, rfl, at_⟩)
          · exact .inl ⟨rfl, rfl⟩
          · exact .inr ⟨by simpa using other, m, there, rfl, at_⟩
    · simp only [pushFront, entries, filtered, List.map_cons, List.filter_map]
      rfl

end

end FlowHashCache

end NetifyAgent
