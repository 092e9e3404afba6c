import NetifyAgent.FlowHashRuns

/-! Saving and loading `ndFlowHashCache`. The file lists the pairs from the one
used last to the one used first, and the reader pushes them in that order, so
that the loaded cache holds the same pairs the other way around. -/
namespace NetifyAgent
open NetifyAgent.Recency

/-- `ndGC.fhc_save`. -/
inductive FhcSave where
  | disabled
  | persistent
  | volatile
  deriving DecidableEq, Repr

/-- What the cache's file holds under the state path of each mode. -/
abbrev StateFiles := FhcSave → Option (List UInt8)

namespace FlowHashCache

/-- `SHA1_DIGEST_LENGTH`. -/
def digestLength : Nat := 20

/-- `fwrite(s.c_str(), 1, SHA1_DIGEST_LENGTH, hf)`. `none` is a read past the
terminating zero. -/
def fwrite (s : List UInt8) : Option (List UInt8) :=
  if digestLength ≤ s.length + 1 then some ((s ++ [0]).take digestLength) else none

/-- The bytes written for the nodes of the list. -/
def records : List FhcNode → Option (List UInt8)
  | [] => some []
  | n :: rest => do
    let lower ← fwrite n.first
    let mdata ← fwrite n.second
    let bytes ← records rest
    return lower ++ mdata ++ bytes

/-- `ndFlowHashCache::Save`, for a file that can be opened. -/
def save (fhcSave : FhcSave) (files : StateFiles) (c : FlowHashCache) : Option StateFiles :=
  match fhcSave with
  | .disabled => some files
  | mode => (records c.index).map fun bytes => Function.update files mode (some bytes)

/-- Pushes as many pairs as are asked for from the front of the file. -/
def pushRecords (fhcPurgeDivisor : Nat) : Nat → List UInt8 → FlowHashCache → Option FlowHashCache
  | 0, _, c => some c
  | n + 1, bytes, c => do
    let c ← c.push fhcPurgeDivisor (bytes.take digestLength)
      ((bytes.drop digestLength).take digestLength)
    pushRecords fhcPurgeDivisor n (bytes.drop (digestLength * 2)) c

/-- `ndFlowHashCache::Load`: `fread` succeeds while a whole pair is left. -/
def load (fhcPurgeDivisor : Nat) (fhcSave : FhcSave) (files : StateFiles) (c : FlowHashCache) :
    Option FlowHashCache :=
  match fhcSave with
  | .disabled => some c
  | mode =>
    match files mode with
    | none => some c
    | some bytes => pushRecords fhcPurgeDivisor (bytes.length / (digestLength * 2)) bytes c

end FlowHashCache

namespace FlowHashFile
open NetifyAgent.Runs FlowHashCache FlowHashRuns

/-! ## The file -/

/-- Keys and values are digests. -/
def Digests (entries : List (List UInt8 × List UInt8)) : Prop :=
  ∀ e ∈ entries, e.1.length = digestLength ∧ e.2.length = digestLength

/-- The pairs, one after the other. -/
def bytesOf (entries : List (List UInt8 × List UInt8)) : List UInt8 :=
  entries.flatMap fun e => e.1 ++ e.2

theorem fwrite_digest {s : List UInt8} (length : s.length = digestLength) :
    fwrite s = some s := by
  unfold fwrite
  rw [if_pos (by omega), ← length, List.take_left]

/-- The file of digests is their bytes. -/
theorem records_digests {c : FlowHashCache} (digests : Digests c.entries) :
    records c.index = some (bytesOf c.entries) := by
  unfold Digests entries at digests
  unfold entries
  generalize c.index = index at digests ⊢
  induction index with
  | nil => rfl
  | cons n rest ih =>
    obtain ⟨lower, mdata⟩ := digests (n.first, n.second) List.mem_cons_self
    have others := ih fun e here => digests e (List.mem_cons_of_mem _ here)
    simp only [records, fwrite_digest lower, fwrite_digest mdata, others]
    rfl

theorem bytesOf_length {entries : List (List UInt8 × List UInt8)} (digests : Digests entries) :
    (bytesOf entries).length = digestLength * 2 * entries.length := by
  induction entries with
  | nil => rfl
  | cons e rest ih =>
    obtain ⟨lower, mdata⟩ := digests e List.mem_cons_self
    have others := ih fun e here => digests e (List.mem_cons_of_mem _ here)
    unfold bytesOf at others ⊢
    rw [List.flatMap_cons, List.length_append, others, List.length_append, lower, mdata,
      List.length_cons, Nat.mul_succ (digestLength * 2)]
    omega

/-- Reading pushes what was written, from the front. -/
theorem pushRecords_bytes {divisor limit : Nat} {written : List (List UInt8 × List UInt8)}
    {c : FlowHashCache} (coherent : Coherent c) (positive : 0 < divisor)
    (size : c.cacheSize = limit) (digests : Digests written) :
    ∃ c', pushRecords divisor written.length (bytesOf written) c = some c' ∧ Coherent c' ∧
      c'.cacheSize = limit ∧
      c'.entries = written.foldl (fun es e => Recency.push limit (limit / divisor) es e.1 e.2)
        c.entries := by
  induction written generalizing c with
  | nil => exact ⟨c, rfl, coherent, size, rfl⟩
  | cons e rest ih =>
    obtain ⟨lower, mdata⟩ := digests e List.mem_cons_self
    obtain ⟨d, done, after, kept, pairs⟩ := push_spec coherent positive e.1 e.2
    obtain ⟨c', rest_done, last, last_size, last_pairs⟩ :=
      ih after (kept.trans size) fun e here => digests e (List.mem_cons_of_mem _ here)
    have cut : bytesOf (e :: rest) = e.1 ++ (e.2 ++ bytesOf rest) := by
      simp [bytesOf]
    have two : digestLength * 2 = (e.1 ++ e.2).length := by
      rw [List.length_append, lower, mdata]
      rfl
    refine ⟨c', ?_, last, last_size, ?_⟩
    · simp only [List.length_cons, pushRecords]
      rw [two, cut, ← List.append_assoc, List.drop_left, List.append_assoc, ← lower,
        List.take_left, List.drop_left, lower, ← mdata, List.take_left, done]
      exact rest_done
    · rw [last_pairs, pairs, size]
      rfl

/-- New keys that fit come out in reverse. -/
theorem foldl_push {limit drop : Nat} {written entries : List (List UInt8 × List UInt8)}
    (nodup : (Recency.keys (written ++ entries)).Nodup)
    (fits : drop = 0 ∨ written.length + entries.length ≤ limit) :
    written.foldl (fun es e => Recency.push limit drop es e.1 e.2) entries =
      written.reverse ++ entries := by
  induction written generalizing entries with
  | nil => rfl
  | cons e rest ih =>
    rw [List.cons_append, keys_cons, keys_append, List.nodup_cons] at nodup
    obtain ⟨absent, nodup⟩ := nodup
    rw [List.mem_append, not_or] at absent
    have pushed : Recency.push limit drop entries e.1 e.2 = e :: entries := by
      unfold Recency.push
      rw [if_neg absent.2]
      congr 1
      rcases fits with rfl | fits
      · exact purge_zero
      · unfold purge
        rw [if_neg]
        rw [List.length_cons] at fits
        omega
    rw [List.foldl_cons, pushed, ih, List.reverse_cons, List.append_assoc]
    · rfl
    · rw [keys_append, keys_cons, List.nodup_append_comm]
      rw [List.nodup_append_comm] at nodup
      rw [List.cons_append, List.nodup_cons, List.mem_append, not_or]
      exact ⟨⟨absent.2, absent.1⟩, nodup⟩
    · refine fits.imp id fun fits => ?_
      rw [List.length_cons] at fits ⊢
      omega

/-! ## Saving and loading -/

/-- What later calls return. -/
def answers (divisor : Nat) (c : FlowHashCache) : List Call → Option (List (Option (List UInt8)))
  | [] => some []
  | .push lower upper :: rest => do
    let c ← c.push divisor lower upper
    answers divisor c rest
  | .pop lower :: rest => do
    let (c, found) ← c.pop lower
    let others ← answers divisor c rest
    return found :: others

/-- One cache holds the pairs of another in the same order, and answers alike. -/
structure Restores (divisor : Nat) (c back : FlowHashCache) : Prop where
  pairs : back.entries = c.entries
  alike : ∀ later, answers divisor back later = answers divisor c later

/-- Caches of the same size and pairs answer alike. -/
theorem answers_congr {divisor : Nat} {c back : FlowHashCache} (coherent : Coherent c)
    (coherent' : Coherent back) (positive : 0 < divisor) (size : back.cacheSize = c.cacheSize)
    (pairs : back.entries = c.entries) (later : List Call) :
    answers divisor back later = answers divisor c later := by
  induction later generalizing c back with
  | nil => rfl
  | cons call rest ih =>
    cases call with
    | push k v =>
      obtain ⟨d, done, after, kept, became⟩ := push_spec coherent positive k v
      obtain ⟨d', done', after', kept', became'⟩ := push_spec coherent' positive k v
      simp only [answers, done, done']
      refine ih after after' (by rw [kept, kept', size]) ?_
      rw [became, became', size, pairs]
    | pop k =>
      obtain ⟨d, done, after, kept, became⟩ := pop_spec coherent k
      obtain ⟨d', done', after', kept', became'⟩ := pop_spec coherent' k
      have same := ih after after' (by rw [kept, kept', size]) (by rw [became, became', pairs])
      simp only [answers, done, done', pairs, Option.bind_eq_bind, Option.bind_some, same]

/-- A call whose digests have the length of digests. -/
def OfDigests : Used → Call → Prop := fun _ call =>
  match call with
  | .push lower upper => lower.length = digestLength ∧ upper.length = digestLength
  | .pop _ => True

instance : DecidableRel OfDigests := fun _ call =>
  match call with
  | .push lower upper =>
    inferInstanceAs (Decidable (lower.length = digestLength ∧ upper.length = digestLength))
  | .pop _ => .isTrue trivial

/-- A reachable cache of digests, within its bound if the divisor is. -/
structure Reached (cacheSize divisor : Nat) (t : Used) : Prop where
  kept : Kept cacheSize t
  digests : Digests t.cache.entries
  bounded : divisor ≤ cacheSize → t.cache.size ≤ cacheSize

section
variable {cacheSize divisor : Nat} {t t' : Used}

theorem digests_push {entries : List (List UInt8 × List UInt8)} {limit drop : Nat}
    {k v : List UInt8} (digests : Digests entries) (key : k.length = digestLength)
    (value : v.length = digestLength) : Digests (Recency.push limit drop entries k v) := by
  unfold Recency.push
  split
  · exact digests
  · intro e here
    obtain ⟨out, split⟩ := purge_split limit drop entries
    cases here with
    | head => exact ⟨key, value⟩
    | tail _ here => exact digests e (split ▸ List.mem_append_left _ here)

theorem digests_touch {entries : List (List UInt8 × List UInt8)} {k : List UInt8}
    (digests : Digests entries) (nodup : (Recency.keys entries).Nodup) :
    Digests (touch entries k) := by
  unfold touch
  cases found : fetch entries k with
  | none => exact digests
  | some v =>
    intro e here
    cases here with
    | head => exact digests (k, v) ((fetch_eq_some nodup).mp found)
    | tail _ here => exact digests e (List.mem_of_mem_filter here)

theorem reached_invariant (positive : 0 < divisor)
    (reached : Reaches (step divisor) OfDigests (start cacheSize) t) :
    Reached cacheSize divisor t := by
  refine reached.invariant ⟨kept_start cacheSize, by simp [Digests, start, entries], ?_⟩ ?_
  · exact fun _ => Nat.zero_le _
  · rintro s call s' ⟨kept, digests, bounded⟩ taken met
    obtain ⟨next, done, after, size, what⟩ := step_spec (t := s) kept.coherent positive call
    cases done.symm.trans taken
    refine ⟨kept_step kept positive taken, ?_, fun small => ?_⟩
    · cases call with
      | push k v =>
        rw [what.2]
        exact digests_push digests met.1 met.2
      | pop k =>
        rw [what.2]
        apply digests_touch digests
        rw [entries_keys]
        exact kept.coherent.keys
    · have fits := step_bounded kept.coherent positive (kept.size.symm ▸ small)
        (kept.size.symm ▸ bounded small) taken
      rwa [size, kept.size] at fits

/-- **Loading what was saved turns the order around.** -/
theorem load_save (positive : 0 < divisor) (reached : Reached cacheSize divisor t)
    {mode : FhcSave} (enabled : mode ≠ .disabled) (files : StateFiles) :
    ∃ saved back, t.cache.save mode files = some saved ∧
      load divisor mode saved { cacheSize } = some back ∧ Coherent back ∧
      back.cacheSize = cacheSize ∧ back.entries = t.cache.entries.reverse := by
  obtain ⟨kept, digests, bounded⟩ := reached
  have nodup : (Recency.keys t.cache.entries).Nodup := by
    rw [entries_keys]
    exact kept.coherent.keys
  obtain ⟨back, done, coherent, size, pairs⟩ :=
    pushRecords_bytes (coherent_empty cacheSize) positive rfl digests
  have count : (bytesOf t.cache.entries).length / (digestLength * 2) =
      t.cache.entries.length := by
    rw [bytesOf_length digests]
    exact Nat.mul_div_cancel_left _ (by decide)
  refine ⟨Function.update files mode (some (bytesOf t.cache.entries)), back, ?_, ?_, coherent,
    size, ?_⟩
  · unfold save
    rw [records_digests digests]
    cases mode with
    | disabled => exact absurd rfl enabled
    | persistent => rfl
    | volatile => rfl
  · unfold load
    cases mode with
    | disabled => exact absurd rfl enabled
    | persistent =>
      simp only [Function.update_self, count]
      exact done
    | volatile =>
      simp only [Function.update_self, count]
      exact done
  · rw [pairs, foldl_push]
    · simp [entries]
    · simpa [entries] using nodup
    · by_cases small : divisor ≤ cacheSize
      · right
        have fits := bounded small
        rw [size_eq kept.coherent] at fits
        simpa [entries] using fits
      · left
        exact Nat.div_eq_of_lt (Nat.lt_of_not_le small)

theorem reverse_eq_self_iff {entries : List (List UInt8 × List UInt8)}
    (nodup : (Recency.keys entries).Nodup) :
    entries.reverse = entries ↔ entries.length ≤ 1 := by
  constructor
  · intro same
    cases entries with
    | nil => exact Nat.zero_le _
    | cons e rest =>
      rcases List.eq_nil_or_concat rest with rfl | ⟨middle, last, rfl⟩
      · exact Nat.le_refl _
      · rw [List.reverse_cons, List.concat_eq_append, List.reverse_append] at same
        have first : last = e := (List.cons.inj same).1
        subst first
        rw [keys_cons, List.concat_eq_append, keys_append, List.nodup_cons] at nodup
        exact absurd (List.mem_append_right _ List.mem_cons_self) nodup.1
  · intro short
    match entries, short with
    | [], _ => rfl
    | [_], _ => rfl

/-- **A saved cache is restored exactly when it holds at most one pair**, and
none while saving is disabled. -/
theorem restores_iff (positive : 1 ≤ divisor)
    (reached : Reaches (step divisor) OfDigests (start cacheSize) t) (mode : FhcSave)
    (files : StateFiles) :
    ∃ saved back, t.cache.save mode files = some saved ∧
      load divisor mode saved { cacheSize } = some back ∧
      (Restores divisor t.cache back ↔
        t.cache.index.length ≤ if mode = .disabled then 0 else 1) := by
  have invariant := reached_invariant positive reached
  have coherent := invariant.kept.coherent
  have nodup : (Recency.keys t.cache.entries).Nodup := by
    rw [entries_keys]
    exact coherent.keys
  by_cases disabled : mode = .disabled
  · subst disabled
    refine ⟨files, { cacheSize }, rfl, rfl, ?_⟩
    rw [if_pos rfl, ← entries_length, Nat.le_zero, List.length_eq_zero_iff]
    have empty : FlowHashCache.entries { cacheSize } = [] := rfl
    refine ⟨fun restores => restores.pairs.symm.trans empty, fun none => ?_⟩
    have pairs := empty.trans none.symm
    exact ⟨pairs, answers_congr coherent (coherent_empty cacheSize) positive
      invariant.kept.size.symm pairs⟩
  · obtain ⟨saved, back, written, read, after, size, pairs⟩ :=
      load_save positive invariant disabled files
    refine ⟨saved, back, written, read, ?_⟩
    rw [if_neg disabled, ← entries_length, ← reverse_eq_self_iff nodup, ← pairs]
    exact ⟨Restores.pairs, fun same => ⟨same, answers_congr coherent after positive
      (size.trans invariant.kept.size.symm) same⟩⟩

end

/-- A cache with one pair of digests. -/
theorem restores_one : ∃ t : Used,
    Reaches (step 2) OfDigests (start 2) t ∧ t.cache.index.length = 1 ∧ ∃ saved back,
      t.cache.save .persistent (fun _ => none) = some saved ∧
      load 2 .persistent saved { cacheSize := 2 } = some back ∧
      (Restores 2 t.cache back ↔
        t.cache.index.length ≤ if FhcSave.persistent = .disabled then 0 else 1) := by
  have found : (exec (step 2) OfDigests (start 2)
      [.push (List.replicate 20 1) (List.replicate 20 7)]).any
      (fun t => t.cache.index.length = 1) = true := by decide +kernel
  obtain ⟨t, reached, one⟩ := reached_of_exec found
  exact ⟨t, reached, of_decide_eq_true one, restores_iff (by decide) reached .persistent _⟩

/-- Two pairs come back in the other order, so that the next eviction drops the
one used last. -/
theorem not_restored : ∃ (t : Used) (saved : StateFiles) (back : FlowHashCache),
    Reaches (step 2) OfDigests (start 2) t ∧
      t.cache.save .persistent (fun _ => none) = some saved ∧
      load 2 .persistent saved { cacheSize := 2 } = some back ∧
      back.entries ≠ t.cache.entries ∧ ∃ later,
      answers 2 t.cache later = some [some (List.replicate 20 8)] ∧
      answers 2 back later = some [none] := by
  let later : List Call := [.push (List.replicate 20 3) [], .pop (List.replicate 20 2)]
  have found : (exec (step 2) OfDigests (start 2)
      [.push (List.replicate 20 1) (List.replicate 20 7),
        .push (List.replicate 20 2) (List.replicate 20 8)]).any
      (fun t => (t.cache.save .persistent fun _ => none).any fun saved =>
        (load 2 .persistent saved { cacheSize := 2 }).any fun back =>
          back.entries ≠ t.cache.entries ∧
            answers 2 t.cache later = some [some (List.replicate 20 8)] ∧
            answers 2 back later = some [none]) = true := by decide +kernel
  obtain ⟨t, reached, found⟩ := reached_of_exec found
  obtain ⟨saved, written, found⟩ := (Option.any_eq_true _ _).mp found
  obtain ⟨back, read, found⟩ := (Option.any_eq_true _ _).mp found
  obtain ⟨differ, here, there⟩ := of_decide_eq_true found
  exact ⟨t, saved, back, reached, written, read, differ, later, here, there⟩

end FlowHashFile

end NetifyAgent
