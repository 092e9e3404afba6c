import Mathlib.Data.Finset.Card
import NetifyAgent.FlowHashCache
import NetifyAgent.Lib.Runs

/-! Runs of `ndFlowHashCache`. List and map stay coherent and what is evicted was
used before what stays, but the bound is only kept while an eviction drops
something: with a divisor above the size of the cache the share to drop is zero
and the cache grows by every push. A push of a digest that is in the cache does
not bring it to the front. -/
namespace NetifyAgent.FlowHashRuns
open NetifyAgent.Recency NetifyAgent.Runs FlowHashCache

/-- A call of the cache. -/
inductive Call where
  | push (lower upper : List UInt8)
  | pop (lower : List UInt8)
  deriving DecidableEq, Repr

/-- A cache and the keys used so far, newest first: those pushed and those found. -/
structure Used where
  cache : FlowHashCache
  used : List (List UInt8) := []

/-- Makes one call. -/
def step (divisor : Nat) (t : Used) : Call → Option Used
  | .push lower upper => (t.cache.push divisor lower upper).map fun c => ⟨c, lower :: t.used⟩
  | .pop lower => (t.cache.pop lower).map fun (c, found) =>
      ⟨c, if found.isSome then lower :: t.used else t.used⟩

/-- An empty cache. -/
def start (cacheSize : Nat) : Used := ⟨{ cacheSize }, []⟩

/-- A push of a known key names the one in front. -/
def RepeatsFront (t : Used) : Call → Prop
  | .push lower _ =>
    lower ∈ Recency.keys t.cache.entries → (Recency.keys t.cache.entries).head? = some lower
  | .pop _ => True

instance : DecidableRel RepeatsFront := fun t call => by
  unfold RepeatsFront
  split <;> infer_instance

/-- The pushed keys. -/
def pushed (calls : List Call) : List (List UInt8) :=
  calls.filterMap fun
    | .push lower _ => some lower
    | .pop _ => none

/-- A call leads to a coherent cache within its bound. -/
structure Sound (t' : Used) : Prop where
  coherent : Coherent t'.cache
  bounded : t'.cache.size ≤ t'.cache.cacheSize

/-- Every key a call evicts was used before all that remain. -/
def OldestOut (t t' : Used) : Prop :=
  ∀ out ∈ Recency.keys t.cache.entries, out ∉ Recency.keys t'.cache.entries →
    ∀ kept ∈ Recency.keys t'.cache.entries, Newer t'.used kept out

/-! ## One call -/

section
variable {divisor : Nat} {t t' : Used} {call : Call}

/-- What a call does to the pairs, and which key it uses. -/
theorem step_spec (coherent : Coherent t.cache) (positive : 0 < divisor) (call : Call) :
    ∃ t', step divisor t call = some t' ∧ Coherent t'.cache ∧
      t'.cache.cacheSize = t.cache.cacheSize ∧
      match call with
      | .push k v => t'.used = k :: t.used ∧
          t'.cache.entries =
            Recency.push t.cache.cacheSize (t.cache.cacheSize / divisor) t.cache.entries k v
      | .pop k => t'.used = (if (fetch t.cache.entries k).isSome then k :: t.used else t.used) ∧
          t'.cache.entries = touch t.cache.entries k := by
  cases call with
  | push k v =>
    obtain ⟨c, done, after, size, pairs⟩ := push_spec coherent positive k v
    exact ⟨⟨c, k :: t.used⟩, by simp only [step, done, Option.map_some], after, size, rfl, pairs⟩
  | pop k =>
    obtain ⟨c, done, after, size, pairs⟩ := pop_spec coherent k
    refine ⟨⟨c, if (fetch t.cache.entries k).isSome then k :: t.used else t.used⟩, ?_,
      after, size, rfl, pairs⟩
    simp only [step, done, Option.map_some]

/-- The cache stays in the order of uses. -/
theorem step_ordered (coherent : Coherent t.cache) (positive : 0 < divisor)
    (ordered : Ordered t.used (Recency.keys t.cache.entries)) (front : RepeatsFront t call)
    (taken : step divisor t call = some t') :
    Ordered t'.used (Recency.keys t'.cache.entries) := by
  obtain ⟨next, done, _, _, what⟩ := step_spec (t := t) coherent positive call
  cases done.symm.trans taken
  cases call with
  | push k v =>
    obtain ⟨used, pairs⟩ := what
    rw [used, pairs]
    by_cases known : k ∈ Recency.keys t.cache.entries
    · have head := front known
      unfold Recency.push
      rw [if_pos known]
      cases listed : Recency.keys t.cache.entries with
      | nil => exact ordered_nil _
      | cons first rest =>
        rw [listed] at ordered head
        cases Option.some.inj head
        have nodup := List.nodup_cons.mp ordered.nodup
        exact (ordered.sublist (List.sublist_cons_self _ _)).use nodup.1
    · exact ordered.push _ _ known v
  | pop k =>
    obtain ⟨used, pairs⟩ := what
    rw [used, pairs]
    cases found : fetch t.cache.entries k with
    | none =>
      unfold touch
      simpa [found] using ordered
    | some v => simpa [found] using ordered.touch found

/-- A read drops no key. -/
theorem mem_touch {entries : List (List UInt8 × List UInt8)} {k l : List UInt8} :
    l ∈ Recency.keys (touch entries k) ↔ l ∈ Recency.keys entries := by
  unfold touch
  cases found : fetch entries k with
  | none => rfl
  | some v =>
    have known : k ∈ Recency.keys entries := by
      by_contra absent
      rw [fetch_eq_none.mpr absent] at found
      cases found
    simp only [keys_cons, keys_filter, List.mem_cons, List.mem_filter, decide_eq_true_eq, ne_eq]
    constructor
    · rintro (rfl | ⟨here, _⟩)
      · exact known
      · exact here
    · intro here
      by_cases same : l = k
      · exact .inl same
      · exact .inr ⟨here, same⟩

/-- What a call evicts was used before what remains. -/
theorem step_evicted (coherent : Coherent t.cache) (positive : 0 < divisor)
    (ordered : Ordered t.used (Recency.keys t.cache.entries))
    (taken : step divisor t call = some t') : OldestOut t t' := by
  obtain ⟨next, done, _, _, what⟩ := step_spec (t := t) coherent positive call
  cases done.symm.trans taken
  intro out here gone kept remains
  cases call with
  | pop k =>
    rw [what.2, mem_touch] at gone
    exact absurd here gone
  | push k v =>
    obtain ⟨used, pairs⟩ := what
    rw [pairs] at gone remains
    rw [used]
    unfold Recency.push at gone remains
    split at gone
    · exact absurd here gone
    · rename_i absent
      rw [if_neg absent] at remains
      obtain ⟨outs, split⟩ :=
        purge_split t.cache.cacheSize (t.cache.cacheSize / divisor) t.cache.entries
      rw [keys_cons, List.mem_cons, not_or] at gone
      rw [keys_cons, List.mem_cons] at remains
      have apart : kept ∈ Recency.keys (purge t.cache.cacheSize (t.cache.cacheSize / divisor)
          t.cache.entries) → kept ≠ k := by
        rintro stays rfl
        apply absent
        rw [split, keys_append]
        exact List.mem_append_left _ stays
      rw [split, keys_append] at here ordered
      have behind := (List.mem_append.mp here).resolve_left gone.2
      rcases remains with rfl | stays
      · exact newer_front gone.1
      · exact (newer_cons (apart stays) gone.1).mpr (ordered.cut stays behind)

/-! ## The bound -/

/-- While an eviction drops something the bound is kept. -/
theorem step_bounded (coherent : Coherent t.cache) (positive : 0 < divisor)
    (small : divisor ≤ t.cache.cacheSize) (bounded : t.cache.size ≤ t.cache.cacheSize)
    (taken : step divisor t call = some t') : t'.cache.size ≤ t'.cache.cacheSize := by
  obtain ⟨next, done, after, size, what⟩ := step_spec (t := t) coherent positive call
  cases done.symm.trans taken
  rw [size_eq after, size]
  rw [size_eq coherent] at bounded
  have drops : 0 < t.cache.cacheSize / divisor := Nat.div_pos small positive
  cases call with
  | push k v =>
    rw [what.2]
    unfold Recency.push
    split
    · exact bounded
    · exact purge_length_lt bounded drops (Nat.lt_of_lt_of_le positive small)
  | pop k =>
    have nodup : ∀ {c : FlowHashCache}, Coherent c → (Recency.keys c.entries).Nodup :=
      fun {c} coherent => by rw [entries_keys]; exact coherent.keys
    have perm : (Recency.keys t'.cache.entries).Perm (Recency.keys t.cache.entries) := by
      rw [List.perm_ext_iff_of_nodup (nodup after) (nodup coherent), what.2]
      exact fun l => mem_touch
    rw [← keys_length, perm.length_eq, keys_length]
    exact bounded

/-- With a divisor above the size the keys only grow. -/
theorem step_grows (coherent : Coherent t.cache) (positive : 0 < divisor)
    (large : t.cache.cacheSize < divisor) (taken : step divisor t call = some t')
    (l : List UInt8) : l ∈ Recency.keys t'.cache.entries ↔
      l ∈ Recency.keys t.cache.entries ∨ l ∈ pushed [call] := by
  obtain ⟨next, done, after, size, what⟩ := step_spec (t := t) coherent positive call
  cases done.symm.trans taken
  cases call with
  | push k v =>
    rw [what.2, Nat.div_eq_of_lt large]
    unfold Recency.push
    rw [purge_zero]
    split
    · rename_i known
      simp only [pushed, List.filterMap_cons, List.filterMap_nil, List.mem_singleton]
      exact ⟨.inl, fun here => here.elim id fun same => same ▸ known⟩
    · simp [pushed, or_comm]
  | pop k =>
    rw [what.2, mem_touch]
    simp [pushed]

end

/-! ## Whole runs -/

/-- A call gets through and leads to a cache as it should be. -/
def Holds (divisor : Nat) (t : Used) (call : Call) : Prop :=
  ∃ t', step divisor t call = some t' ∧ Sound t'

/-- It also evicts the right keys. -/
def Serves (divisor : Nat) (t : Used) (call : Call) : Prop :=
  ∃ t', step divisor t call = some t' ∧ Sound t' ∧ OldestOut t t'

/-- A coherent cache of a given size. -/
structure Kept (cacheSize : Nat) (t : Used) : Prop where
  coherent : Coherent t.cache
  size : t.cache.cacheSize = cacheSize

theorem kept_start (cacheSize : Nat) : Kept cacheSize (start cacheSize) :=
  ⟨coherent_empty cacheSize, rfl⟩

section
variable {cacheSize divisor : Nat} {t t' : Used} {call : Call} {calls : List Call}

theorem kept_step (kept : Kept cacheSize t) (positive : 0 < divisor)
    (taken : step divisor t call = some t') : Kept cacheSize t' := by
  obtain ⟨next, done, after, size, _⟩ := step_spec (t := t) kept.coherent positive call
  cases done.symm.trans taken
  exact ⟨after, size.trans kept.size⟩

theorem holds_iff (kept : Kept cacheSize t) (positive : 0 < divisor)
    (taken : step divisor t call = some t') :
    Holds divisor t call ↔ t'.cache.size ≤ cacheSize := by
  have after := kept_step kept positive taken
  constructor
  · rintro ⟨next, done, sound⟩
    cases done.symm.trans taken
    rw [← after.size]
    exact sound.bounded
  · intro bounded
    exact ⟨t', taken, after.coherent, after.size.symm ▸ bounded⟩

theorem size_card (coherent : Coherent t.cache) :
    t.cache.size = (Recency.keys t.cache.entries).toFinset.card := by
  have nodup : (Recency.keys t.cache.entries).Nodup := by
    rw [entries_keys]
    exact coherent.keys
  rw [List.toFinset_card_of_nodup nodup, keys_length, size_eq coherent]

/-- With a divisor up to the size the bound is kept. -/
theorem along_small (positive : 0 < divisor) (small : divisor ≤ cacheSize)
    (kept : Kept cacheSize t) (bounded : t.cache.size ≤ cacheSize) :
    Along (step divisor) (Holds divisor) t calls := by
  induction calls generalizing t with
  | nil => trivial
  | cons call rest ih =>
    obtain ⟨t', taken, _⟩ := step_spec (t := t) kept.coherent positive call
    have after := kept_step kept positive taken
    have fits : t'.cache.size ≤ cacheSize := by
      have := step_bounded kept.coherent positive (kept.size.symm ▸ small)
        (kept.size.symm ▸ bounded) taken
      rwa [after.size] at this
    refine ⟨(holds_iff kept positive taken).mpr fits, fun next again => ?_⟩
    cases taken.symm.trans again
    exact ih after fits

/-- With a divisor above the size the bound is kept exactly if the keys in the
cache and those to be pushed fit. -/
theorem along_large (positive : 0 < divisor) (large : cacheSize < divisor)
    (kept : Kept cacheSize t) (bounded : t.cache.size ≤ cacheSize) :
    Along (step divisor) (Holds divisor) t calls ↔
      (Recency.keys t.cache.entries ++ pushed calls).toFinset.card ≤ cacheSize := by
  induction calls generalizing t with
  | nil =>
    rw [size_card kept.coherent] at bounded
    simpa [Along, pushed] using bounded
  | cons call rest ih =>
    obtain ⟨t', taken, _⟩ := step_spec (t := t) kept.coherent positive call
    have after := kept_step kept positive taken
    have grown : (Recency.keys t'.cache.entries ++ pushed rest).toFinset =
        (Recency.keys t.cache.entries ++ pushed (call :: rest)).toFinset := by
      ext l
      have here := step_grows kept.coherent positive (kept.size.symm ▸ large) taken l
      have split : pushed (call :: rest) = pushed [call] ++ pushed rest :=
        List.filterMap_append (l := [call])
      rw [List.mem_toFinset, List.mem_toFinset, split, List.mem_append, here, List.mem_append,
        List.mem_append, or_assoc]
    have part : t'.cache.size ≤
        (Recency.keys t'.cache.entries ++ pushed rest).toFinset.card := by
      rw [size_card after.coherent]
      apply Finset.card_le_card
      intro l here
      rw [List.mem_toFinset] at here ⊢
      exact List.mem_append_left _ here
    have holds := holds_iff kept positive taken
    rw [← grown]
    constructor
    · rintro ⟨first, others⟩
      exact (ih after (holds.mp first)).mp (others t' taken)
    · intro fits
      have first := Nat.le_trans part fits
      refine ⟨holds.mpr first, fun next again => ?_⟩
      cases taken.symm.trans again
      exact (ih after first).mpr fits

/-- The bound is kept exactly when an eviction drops something or the pushed keys
all fit. -/
theorem along_holds_iff (cacheSize : Nat) (positive : 0 < divisor) (calls : List Call) :
    Along (step divisor) (Holds divisor) (start cacheSize) calls ↔
      divisor ≤ cacheSize ∨ (pushed calls).toFinset.card ≤ cacheSize := by
  have empty : (start cacheSize).cache.size ≤ cacheSize := Nat.zero_le _
  by_cases small : divisor ≤ cacheSize
  · exact iff_of_true (along_small positive small (kept_start cacheSize) empty) (.inl small)
  · rw [along_large positive (Nat.lt_of_not_le small) (kept_start cacheSize) empty]
    exact ⟨.inr, fun fits => fits.resolve_left small⟩

/-- In order of their uses, keys are evicted oldest first. -/
theorem along_oldest (positive : 0 < divisor) (kept : Kept cacheSize t)
    (ordered : Ordered t.used (Recency.keys t.cache.entries))
    (front : Along (step divisor) RepeatsFront t calls)
    (holds : Along (step divisor) (Holds divisor) t calls) :
    Along (step divisor) (Serves divisor) t calls := by
  induction calls generalizing t with
  | nil => trivial
  | cons call rest ih =>
    obtain ⟨⟨t', taken, sound⟩, others⟩ := holds
    refine ⟨⟨t', taken, sound, step_evicted kept.coherent positive ordered taken⟩,
      fun next again => ?_⟩
    exact ih (kept_step kept positive again)
      (step_ordered kept.coherent positive ordered front.1 again) (front.2 next again)
      (others next again)

/-- **The cache is a bounded LRU cache exactly when an eviction drops something
or the pushed keys all fit**, in runs whose pushes of a known key are those of
the key in front. The bound and the coherence alone need no such restriction. -/
theorem bounded_lru_iff (positive : 1 ≤ divisor) (calls : List Call) :
    (Along (step divisor) (Holds divisor) (start cacheSize) calls ↔
      divisor ≤ cacheSize ∨ (pushed calls).toFinset.card ≤ cacheSize) ∧
    (Along (step divisor) RepeatsFront (start cacheSize) calls →
      (Along (step divisor) (Serves divisor) (start cacheSize) calls ↔
        divisor ≤ cacheSize ∨ (pushed calls).toFinset.card ≤ cacheSize)) := by
  have holds := along_holds_iff cacheSize positive calls
  refine ⟨holds, fun front => ⟨fun serves => holds.mp ?_, fun fits => ?_⟩⟩
  · refine Along.rule (I := fun _ => True) trivial serves fun t call _ served => ?_
    obtain ⟨t', taken, sound, _⟩ := served
    exact ⟨⟨t', taken, sound⟩, fun _ _ => trivial⟩
  · exact along_oldest positive (kept_start cacheSize) (ordered_nil _) front (holds.mpr fits)

end

/-- A cache of two that drops one. -/
theorem bounded_lru_halves :
    Along (step 2) (Serves 2) (start 2) [.push [1] [7], .push [2] [8], .pop [1], .push [3] [9]] ↔
      2 ≤ 2 ∨ (pushed [.push [1] [7], .push [2] [8], .pop [1], .push [3] [9]]).toFinset.card ≤ 2 :=
  (bounded_lru_iff (by decide) _).2 (by decide +kernel)

/-- A cache of one with a divisor of two keeps two entries, and a cache of two
evicts the digest that was pushed last. -/
theorem not_bounded_lru :
    ¬ Along (step 2) (Serves 2) (start 1) [.push [1] [7], .push [2] [8]] ∧
      ¬ Along (step 2) (Serves 2) (start 2)
        [.push [1] [7], .push [2] [8], .push [1] [7], .push [3] [9]] := by
  constructor
  · rintro ⟨_, rest⟩
    obtain ⟨⟨t', taken, sound, _⟩, _⟩ := rest _ rfl
    cases taken
    exact absurd sound.bounded (by decide +kernel)
  · rintro ⟨_, rest⟩
    obtain ⟨_, rest⟩ := rest _ rfl
    obtain ⟨_, rest⟩ := rest _ rfl
    obtain ⟨⟨t', taken, _, oldest⟩, _⟩ := rest _ rfl
    cases taken
    exact absurd (oldest [1] (by decide +kernel) (by decide +kernel) [2] (by decide +kernel))
      (by decide +kernel)

end NetifyAgent.FlowHashRuns
