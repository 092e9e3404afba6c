import NetifyAgent.FlowMap
import NetifyAgent.Lib.Calls

/-! `ndFlowMap` one call after another. The flows are spread over buckets by the first
eight bytes of their digests, and each bucket has a lock, which `Lookup` may leave held.
Whatever is called, the answers are those of one map. -/
namespace NetifyAgent
open Calls

/-- A digest: the bytes of the string, and what lies behind them in memory. -/
structure FlowDigest where
  bytes : List UInt8
  behind : List UInt8 := []
  deriving DecidableEq, Repr

/-- `ndFlowMap`, with flows of some kind. A flow pointer may be null. -/
structure NdFlowMap (buckets : Nat) (F : Type) where
  bucket : Fin buckets → AList fun _ : List UInt8 => Option F := fun _ => ∅
  /-- Whether the lock of a bucket is held. -/
  bucketLock : Fin buckets → Bool := fun _ => false

/-- The calls of `ndFlowMap`. `InsertUnlocked` is `Insert` with a third argument. -/
inductive MapCall (F : Type) where
  | lookup (digest : FlowDigest) (acquireLock : Bool)
  | insert (digest : FlowDigest) (flow : Option F) (unlocked : Bool)
  | delete (digest : FlowDigest)
  | release (digest : FlowDigest)

namespace MapCall
variable {F : Type}

def digest : MapCall F → FlowDigest
  | .lookup digest _ | .insert digest _ _ | .delete digest | .release digest => digest

/-- What a call returns. -/
abbrev Answer : MapCall F → Type
  | .lookup _ _ => Option F
  | .insert _ _ _ | .delete _ => Bool
  | .release _ => Unit

/-- A call that unlocks what it locks. -/
def settles : MapCall F → Bool
  | .lookup _ acquireLock => !acquireLock
  | .insert _ _ _ | .delete _ => true
  | .release _ => false

end MapCall

namespace NdFlowMap
variable {F : Type} {buckets : Nat} [NeZero buckets]

/-- `HashToBucket`: the remainder goes through an `unsigned`. -/
def hashToBucket (buckets : Nat) [NeZero buckets] (digest : FlowDigest) : Fin buckets :=
  ⟨FlowSystem.digestWord (digest.bytes ++ digest.behind) % buckets % 2 ^ 32,
    Nat.lt_of_le_of_lt (Nat.mod_le _ _) (Nat.mod_lt _ (NeZero.pos buckets))⟩

/-- A flow takes its place in its bucket. -/
def put (m : NdFlowMap buckets F) (digest : FlowDigest) (flow : Option F) :
    NdFlowMap buckets F :=
  let b := hashToBucket buckets digest
  { m with bucket := Function.update m.bucket b ((m.bucket b).insert digest.bytes flow) }

/-- `Lookup`; it waits for the lock of the bucket. -/
def lookup (m : NdFlowMap buckets F) (digest : FlowDigest) (acquireLock : Bool) :
    Option (Option F × NdFlowMap buckets F) :=
  let b := hashToBucket buckets digest
  if m.bucketLock b then none
  else some (((m.bucket b).lookup digest.bytes).join,
    { m with bucketLock := Function.update m.bucketLock b acquireLock })

/-- `Insert`: what is there stays. -/
def insert (m : NdFlowMap buckets F) (digest : FlowDigest) (flow : Option F) (unlocked : Bool) :
    Option (Bool × NdFlowMap buckets F) :=
  let b := hashToBucket buckets digest
  if unlocked = false ∧ m.bucketLock b = true then none
  else
    match (m.bucket b).lookup digest.bytes with
    | some _ => some (false, m)
    | none => some (true, m.put digest flow)

/-- `Delete`. -/
def delete (m : NdFlowMap buckets F) (digest : FlowDigest) :
    Option (Bool × NdFlowMap buckets F) :=
  let b := hashToBucket buckets digest
  if m.bucketLock b then none
  else
    match (m.bucket b).lookup digest.bytes with
    | some _ => some (true, { m with
        bucket := Function.update m.bucket b ((m.bucket b).erase digest.bytes) })
    | none => some (false, m)

/-- `Release` of a lock that is held. -/
def release (m : NdFlowMap buckets F) (digest : FlowDigest) :
    Option (Unit × NdFlowMap buckets F) :=
  let b := hashToBucket buckets digest
  if m.bucketLock b then
    some ((), { m with bucketLock := Function.update m.bucketLock b false })
  else none

/-- One call; it has no answer while it waits. -/
def serve (m : NdFlowMap buckets F) : (c : MapCall F) → Option (c.Answer × NdFlowMap buckets F)
  | .lookup digest acquireLock => m.lookup digest acquireLock
  | .insert digest flow unlocked => m.insert digest flow unlocked
  | .delete digest => m.delete digest
  | .release digest => m.release digest

end NdFlowMap

/-- One map from digests to flows. -/
abbrev FlowTable (F : Type) : Type := List UInt8 → Option (Option F)

/-- One call to one map, which knows no locks. -/
def FlowTable.serve {F : Type} (m : FlowTable F) : (c : MapCall F) → c.Answer × FlowTable F
  | .lookup digest _ => ((m digest.bytes).join, m)
  | .insert digest flow _ =>
    if (m digest.bytes).isSome then (false, m)
    else (true, Function.update m digest.bytes (some flow))
  | .delete digest => ((m digest.bytes).isSome, Function.update m digest.bytes none)
  | .release _ => ((), m)

/-- The answers of one map, which never waits. -/
def FlowTable.answer {F : Type} (m : FlowTable F) (c : MapCall F) :
    Option (c.Answer × FlowTable F) := some (m.serve c)

namespace NdFlowMap
variable {F : Type} {buckets : Nat} [NeZero buckets] {m m' : NdFlowMap buckets F}
  {digest : FlowDigest}

/-- The buckets as one map. -/
def whole (m : NdFlowMap buckets F) : FlowTable F := fun digest =>
  (m.bucket (hashToBucket buckets ⟨digest, []⟩)).lookup digest

/-! ## Buckets -/

/-- Up to 2³² buckets the conversion changes nothing. -/
theorem hashToBucket_eq (few : buckets ≤ 2 ^ 32) (digest : FlowDigest) :
    hashToBucket buckets digest =
      FlowSystem.hashToBucket buckets (digest.bytes ++ digest.behind) := by
  apply Fin.ext
  have inside := Nat.mod_lt (FlowSystem.digestWord (digest.bytes ++ digest.behind))
    (NeZero.pos buckets)
  exact Nat.mod_eq_of_lt (Nat.lt_of_lt_of_le inside few)

/-- Of a digest of eight bytes no byte behind it is read. -/
theorem hashToBucket_long (long : 8 ≤ digest.bytes.length) :
    hashToBucket buckets digest = hashToBucket buckets ⟨digest.bytes, []⟩ := by
  have word : FlowSystem.digestWord (digest.bytes ++ digest.behind) =
      FlowSystem.digestWord (digest.bytes ++ []) := by
    unfold FlowSystem.digestWord
    rw [List.take_append_of_le_length long, List.append_nil]
  unfold hashToBucket
  simp only [word]

theorem whole_eq (long : 8 ≤ digest.bytes.length) :
    m.whole digest.bytes = (m.bucket (hashToBucket buckets digest)).lookup digest.bytes := by
  rw [hashToBucket_long long, whole]

/-- A bucket that changes at a digest changes the map there. -/
theorem whole_update (long : 8 ≤ digest.bytes.length)
    {bucket : AList fun _ : List UInt8 => Option F} {value : Option (Option F)}
    (here : bucket.lookup digest.bytes = value)
    (apart : ∀ other, other ≠ digest.bytes →
      bucket.lookup other = (m.bucket (hashToBucket buckets digest)).lookup other) :
    whole { m with bucket := Function.update m.bucket (hashToBucket buckets digest) bucket } =
      Function.update m.whole digest.bytes value := by
  funext other
  by_cases same : other = digest.bytes
  · rw [same, Function.update_self, whole_eq long]
    simp only [Function.update_self, here]
  · rw [Function.update_of_ne same]
    unfold whole
    by_cases together : hashToBucket buckets ⟨other, []⟩ = hashToBucket buckets digest
    · simp only [together, Function.update_self]
      exact apart other same
    · simp only [Function.update_of_ne together]

theorem whole_put (m : NdFlowMap buckets F) (digest : FlowDigest) (long : 8 ≤ digest.bytes.length)
    (flow : Option F) :
    (m.put digest flow).whole = Function.update m.whole digest.bytes (some flow) := by
  have filled : ((m.bucket (hashToBucket buckets digest)).insert digest.bytes flow).lookup
      digest.bytes = some flow := AList.lookup_insert _
  exact whole_update long filled fun other apart => AList.lookup_insert_ne apart

/-! ## One call -/

/-- **One call** has the answer of one map, and changes the buckets as the map changes. -/
theorem serve_refines {c : MapCall F} (long : 8 ≤ c.digest.bytes.length) {answer : c.Answer}
    (served : m.serve c = some (answer, m')) : m.whole.serve c = (answer, m'.whole) := by
  cases c with
  | lookup digest acquireLock =>
    replace long : 8 ≤ digest.bytes.length := long
    have content := whole_eq (m := m) long
    simp only [serve, lookup] at served
    split at served
    · cases served
    · cases served
      rw [← content]
      rfl
  | insert digest flow unlocked =>
    replace long : 8 ≤ digest.bytes.length := long
    have content := whole_eq (m := m) long
    simp only [serve, insert] at served
    split at served
    · cases served
    cases found : (m.bucket (hashToBucket buckets digest)).lookup digest.bytes with
    | some old =>
      rw [found] at served content
      cases served
      simp [FlowTable.serve, content]
    | none =>
      rw [found] at served content
      cases served
      rw [whole_put _ _ long]
      simp [FlowTable.serve, content]
  | delete digest =>
    replace long : 8 ≤ digest.bytes.length := long
    have content := whole_eq (m := m) long
    simp only [serve, delete] at served
    split at served
    · cases served
    cases found : (m.bucket (hashToBucket buckets digest)).lookup digest.bytes with
    | some old =>
      rw [found] at served content
      cases served
      have changed := @whole_update F buckets _ m digest long _ _ (AList.lookup_erase _ _)
        fun other apart => AList.lookup_erase_ne apart
      rw [changed]
      simp [FlowTable.serve, content]
    | none =>
      rw [found] at served content
      cases served
      have same : Function.update m.whole digest.bytes none = m.whole :=
        Function.update_eq_self_iff.mpr content.symm
      simp [FlowTable.serve, content, same]
  | release digest =>
    simp only [serve, release] at served
    split at served
    · cases served
      rfl
    · cases served

/-- Without a lock that is held, a call that unlocks what it locks is answered, and no lock
is held then. -/
theorem serve_settles {c : MapCall F} (settles : c.settles = true)
    (free : m.bucketLock = fun _ => false) :
    ∃ answer m', m.serve c = some (answer, m') ∧ m'.bucketLock = fun _ => false := by
  cases c with
  | lookup digest acquireLock =>
    have kept : acquireLock = false := by simpa [MapCall.settles] using settles
    refine ⟨_, _, if_neg (by simp [free]), ?_⟩
    rw [kept, free]
    exact Function.update_eq_self_iff.mpr rfl
  | insert digest flow unlocked =>
    cases found : (m.bucket (hashToBucket buckets digest)).lookup digest.bytes with
    | some old =>
      refine ⟨false, m, ?_, free⟩
      simp only [serve, insert, free, found, Bool.false_eq_true, and_false, if_false]
    | none =>
      have served : m.serve (.insert digest flow unlocked) = some (true, m.put digest flow) := by
        simp only [serve, insert, free, found, Bool.false_eq_true, and_false, if_false]
      exact ⟨_, _, served, free⟩
  | delete digest =>
    cases found : (m.bucket (hashToBucket buckets digest)).lookup digest.bytes with
    | some old =>
      have served : m.serve (.delete digest) = some (true, { m with
          bucket := Function.update m.bucket (hashToBucket buckets digest)
            ((m.bucket (hashToBucket buckets digest)).erase digest.bytes) }) := by
        simp only [serve, delete, free, found, Bool.false_eq_true, if_false]
      exact ⟨_, _, served, free⟩
    | none =>
      refine ⟨false, m, ?_, free⟩
      simp only [serve, delete, free, found, Bool.false_eq_true, if_false]
  | release digest => cases settles

/-! ### A lock that is left held -/

/-- The lock of a digest's bucket is held. -/
def acquire (m : NdFlowMap buckets F) (digest : FlowDigest) : NdFlowMap buckets F :=
  { m with bucketLock := Function.update m.bucketLock (hashToBucket buckets digest) true }

/-- A digest whose bucket is not locked. -/
def Free (m : NdFlowMap buckets F) (digest : FlowDigest) : Prop :=
  m.bucketLock (hashToBucket buckets digest) = false

theorem lookup_acquire (free : m.Free digest) (long : 8 ≤ digest.bytes.length) :
    m.lookup digest true = some ((m.whole digest.bytes).join, m.acquire digest) := by
  unfold Free at free
  simp only [lookup, free, whole_eq long, Bool.false_eq_true, if_false]
  rfl

theorem insert_acquired (m : NdFlowMap buckets F) (digest : FlowDigest)
    (long : 8 ≤ digest.bytes.length)
    (absent : m.whole digest.bytes = none) (flow : Option F) :
    (m.acquire digest).insert digest flow true =
      some (true, (m.put digest flow).acquire digest) := by
  rw [whole_eq long] at absent
  simp only [insert, acquire, absent, Bool.true_eq_false, false_and, if_false]
  rfl

theorem release_acquired (free : m.Free digest) :
    (m.acquire digest).release digest = some ((), m) := by
  unfold Free at free
  simp only [release, acquire, Function.update_self, if_true, Function.update_idem]
  rw [Function.update_eq_self_iff.mpr free.symm]

/-! ## Any calls -/

/-- **Any program** has the same result with the buckets as with one map. -/
theorem run_whole {A : Type} {p : Prog (MapCall F) MapCall.Answer A}
    (makes : p.Makes fun c => 8 ≤ c.digest.bytes.length) {result : A}
    (ran : p.run serve m = some (result, m')) :
    p.run FlowTable.answer m.whole = some (result, m'.whole) := by
  have each (s : NdFlowMap buckets F) (t : FlowTable F) (c : MapCall F) (answer : c.Answer)
      (s' : NdFlowMap buckets F) (long : 8 ≤ c.digest.bytes.length) (related : s.whole = t)
      (served : s.serve c = some (answer, s')) :
      ∃ t', FlowTable.answer t c = some (answer, t') ∧ s'.whole = t' :=
    ⟨_, congrArg some (related ▸ serve_refines long served), rfl⟩
  obtain ⟨_, ran', rfl⟩ := Prog.run_refines each makes rfl ran
  exact ran'

/-- Calls that unlock what they lock are all answered. -/
theorem run_settles {calls : List (MapCall F)} (settle : ∀ c ∈ calls, c.settles = true)
    (free : m.bucketLock = fun _ => false) :
    ∃ log m', (Prog.sequence calls).run serve m = some (log, m') := by
  induction calls generalizing m with
  | nil => exact ⟨[], m, rfl⟩
  | cons c rest ih =>
    obtain ⟨answer, m₁, served, free₁⟩ := serve_settles (settle c (List.mem_cons_self ..)) free
    obtain ⟨log, m', ran⟩ := ih (fun c' member => settle c' (List.mem_cons_of_mem _ member)) free₁
    refine ⟨⟨c, answer⟩ :: log, m', ?_⟩
    rw [Prog.sequence, Prog.run, served]
    exact (Prog.run_bind _ _ m₁).trans (by rw [ran]; rfl)

end NdFlowMap

end NetifyAgent
