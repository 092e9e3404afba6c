import NetifyAgent.FlowQueue
import NetifyAgent.IpLayer

/-! One pass of `ndInstance::ProcessFlows` over the flow map. A visit may first expire a flow
that has been idle for too long, and then counts it in one place or erases it. The flows of
the map are objects of their own, whose other owners are counted. -/
namespace NetifyAgent.FlowPurge

/-- `nd_flow_ptr` as the flow map holds it. -/
structure FlowPtr where
  flow : Flow
  /-- The references of others: entries of queues, capture threads and plugins. -/
  others : Nat

/-- `use_count()`. -/
def FlowPtr.useCount (p : FlowPtr) : Nat := p.others + 1

/-- A bucket of the flow map, in the order in which it is traversed. -/
abbrev Bucket := List (List UInt8 × FlowPtr)

/-- `ndInstance::status`, as far as it counts flows. -/
structure FlowStatus where
  flows : Nat := 0
  flowsPrev : Nat := 0
  flowsPurged : Nat := 0
  flowsExpiring : Nat := 0
  flowsExpired : Nat := 0
  flowsActive : Nat := 0
  flowsInUse : Nat := 0

/-- What a pass does not change. -/
structure PurgeEnv where
  now : Int
  ttlIdleFlow : Nat
  ttlIdleTcpFlow : Nat
  /-- `thread_detection.find(id) != thread_detection.end()`. -/
  threadDetection : Int → Bool
  /-- How many references `QueuePacket` and the plugins take of an expiring flow and still have
  when the visit goes on. -/
  taken : Flow → Nat

/-- The status and the local variables of `ProcessFlows`. -/
structure Pass where
  status : FlowStatus
  flowsPreInit : Nat := 0
  flowsTotal : Nat := 0

/-- `ndInstance::ExpireFlow` and what it returns. -/
def expireFlow (env : PurgeEnv) (p : FlowPtr) : FlowPtr × Bool :=
  if p.flow.flags.detectionComplete then ({ p with flow := p.flow.setExpired }, false)
  else if p.flow.flags.expiring = false then
    let flow := p.flow.setExpiring
    if env.threadDetection flow.dpiThreadId then
      ({ flow, others := p.others + env.taken flow }, true)
    else ({ p with flow := flow.setExpired }, false)
  else (p, false)

/-- `ttl`. -/
def ttl (env : PurgeEnv) (flow : Flow) : Nat :=
  if flow.ipProtocol ≠ IPPROTO_TCP.toNat then env.ttlIdleFlow
  else if flow.flags.tcpFinAck ≠ 0 then env.ttlIdleFlow
  else env.ttlIdleTcpFlow

/-- The first half of a visit: a flow that is not expired may have been idle for too long. -/
def age (env : PurgeEnv) (p : FlowPtr) : FlowPtr × Bool :=
  if p.flow.flags.expired = false ∧
      ((p.flow.tsLastSeen / 1000 : Nat) : Int) + ttl env p.flow < env.now then
    expireFlow env p
  else (p, false)

/-- `flows_in_use` is counted before the flow can expire. -/
def countUse (s : Pass) (p : FlowPtr) : Pass :=
  if 1 < p.useCount then
    { s with status := { s.status with flowsInUse := s.status.flowsInUse + 1 } }
  else s

/-- `if (ExpireFlow(i->second)) status.flows_expiring++`. -/
def countExpiring (s : Pass) (expiring : Bool) : Pass :=
  if expiring then
    { s with status := { s.status with flowsExpiring := s.status.flowsExpiring + 1 } }
  else s

/-- The second half of a visit: the flow that stays, if it does, and the counts. -/
def settle (s : Pass) (p : FlowPtr) : Option FlowPtr × Pass :=
  if p.flow.flags.expired then
    let s := { s with status := { s.status with flowsExpired := s.status.flowsExpired + 1 } }
    if p.useCount = 1 then
      (none, { s with status := { s.status with flowsPurged := s.status.flowsPurged + 1 } })
    else (some p, s)
  else if p.flow.flags.detectionInit then
    if p.flow.stats.lowerPackets ≠ 0 ∨ p.flow.stats.upperPackets ≠ 0 then
      (some { p with flow := p.flow.reset false },
        { s with status := { s.status with flowsActive := s.status.flowsActive + 1 } })
    else (some p, s)
  else (some p, { s with flowsPreInit := s.flowsPreInit + 1 })

/-- A visit. -/
def visit (env : PurgeEnv) (s : Pass) (p : FlowPtr) : Option FlowPtr × Pass :=
  settle (countExpiring (countUse s p) (age env p).2) (age env p).1

/-- `while (i != fm.end())`: an erased entry is followed by the next one. -/
def walk (env : PurgeEnv) : Bucket → Pass → Bucket × Pass
  | [], s => ([], s)
  | (digest, p) :: rest, s =>
    let visited := visit env s p
    let walked := walk env rest visited.2
    match visited.1 with
    | some p => ((digest, p) :: walked.1, walked.2)
    | none => walked

/-- One round of the loop over the buckets. -/
def purgeBucket (env : PurgeEnv) (done : List Bucket × Pass) (bucket : Bucket) :
    List Bucket × Pass :=
  let walked := walk env bucket { done.2 with flowsTotal := done.2.flowsTotal + bucket.length }
  (done.1 ++ [walked.1], walked.2)

/-- `ndInstance::ProcessFlows`. -/
def processFlows (env : PurgeEnv) (buckets : List Bucket) (status : FlowStatus) :
    List Bucket × Pass :=
  let status := { status with
    flowsPurged := 0
    flowsExpiring := 0
    flowsExpired := 0
    flowsActive := 0
    flowsInUse := 0 }
  let done := buckets.foldl (purgeBucket env) ([], { status })
  (done.1, { done.2 with status := { done.2.status with
    flowsPrev := done.2.status.flows
    flows := done.2.status.flows - done.2.status.flowsPurged } })

/-- The reported number of idle flows, before it is taken as a `size_t`. -/
def idle (s : Pass) : Int :=
  (s.flowsTotal : Int) - (s.status.flowsActive : Int) - (s.flowsPreInit : Int)

/-! ## The law -/

/-- A flow that is expired when its visit ends. -/
def Expired (env : PurgeEnv) (p : FlowPtr) : Prop := (age env p).1.flow.flags.expired = true

/-- An expired flow that nobody else has. -/
def Gone (env : PurgeEnv) (p : FlowPtr) : Prop := Expired env p ∧ (age env p).1.others = 0

/-- A flow with packets since the last pass, whose detection has begun. -/
def Active (env : PurgeEnv) (p : FlowPtr) : Prop :=
  ¬ Expired env p ∧ p.flow.flags.detectionInit = true ∧
    (p.flow.stats.lowerPackets ≠ 0 ∨ p.flow.stats.upperPackets ≠ 0)

/-- A flow whose detection has not begun. -/
def PreInit (env : PurgeEnv) (p : FlowPtr) : Prop :=
  ¬ Expired env p ∧ p.flow.flags.detectionInit = false

instance (env : PurgeEnv) : DecidablePred (Expired env) := fun _ =>
  inferInstanceAs (Decidable (_ = _))

instance (env : PurgeEnv) : DecidablePred (Gone env) := fun _ =>
  inferInstanceAs (Decidable (_ ∧ _))

instance (env : PurgeEnv) : DecidablePred (Active env) := fun _ =>
  inferInstanceAs (Decidable (_ ∧ _))

instance (env : PurgeEnv) : DecidablePred (PreInit env) := fun _ =>
  inferInstanceAs (Decidable (_ ∧ _))

/-- A flow that stays, as its visit leaves it. -/
def kept (env : PurgeEnv) (p : FlowPtr) : FlowPtr :=
  if Active env p then { (age env p).1 with flow := (age env p).1.flow.reset false }
  else (age env p).1

/-- What is left of an entry. -/
def survivor (env : PurgeEnv) (e : List UInt8 × FlowPtr) : Option (List UInt8 × FlowPtr) :=
  if Gone env e.2 then none else some (e.1, kept env e.2)

/-- The number of flows of a kind. -/
def count (kind : FlowPtr → Prop) [DecidablePred kind] (bucket : Bucket) : Nat :=
  bucket.countP fun e => kind e.2

theorem count_cons (kind : FlowPtr → Prop) [DecidablePred kind] (digest : List UInt8)
    (p : FlowPtr) (rest : Bucket) :
    count kind ((digest, p) :: rest) = (if kind p then 1 else 0) + count kind rest := by
  unfold count
  rw [List.countP_cons, Nat.add_comm]
  simp

theorem count_append (kind : FlowPtr → Prop) [DecidablePred kind] (b₁ b₂ : Bucket) :
    count kind (b₁ ++ b₂) = count kind b₁ + count kind b₂ :=
  List.countP_append

/-! ## One visit -/

variable {env : PurgeEnv} {s : Pass} {p : FlowPtr}

/-- Expiring changes neither what detection has done nor what was counted. -/
theorem age_frame (env : PurgeEnv) (p : FlowPtr) :
    (age env p).1.flow.flags.detectionInit = p.flow.flags.detectionInit ∧
      (age env p).1.flow.stats = p.flow.stats := by
  unfold age expireFlow
  split
  · split
    · exact ⟨rfl, rfl⟩
    · split
      · simp only
        split <;> exact ⟨rfl, rfl⟩
      · exact ⟨rfl, rfl⟩
  · exact ⟨rfl, rfl⟩

/-- What one visit adds to the counts. -/
structure Adds (purged expired active preInit : Nat) (s t : Pass) : Prop where
  purged : t.status.flowsPurged = s.status.flowsPurged + purged
  expired : t.status.flowsExpired = s.status.flowsExpired + expired
  active : t.status.flowsActive = s.status.flowsActive + active
  preInit : t.flowsPreInit = s.flowsPreInit + preInit
  total : t.flowsTotal = s.flowsTotal

theorem FlowPtr.useCount_eq_one (p : FlowPtr) : p.useCount = 1 ↔ p.others = 0 := by
  unfold useCount
  omega

theorem Adds.trans {a₁ a₂ b₁ b₂ c₁ c₂ d₁ d₂ : Nat} {t u : Pass}
    (first : Adds a₁ b₁ c₁ d₁ s t) (second : Adds a₂ b₂ c₂ d₂ t u) :
    Adds (a₁ + a₂) (b₁ + b₂) (c₁ + c₂) (d₁ + d₂) s u where
  purged := by rw [second.purged, first.purged, Nat.add_assoc]
  expired := by rw [second.expired, first.expired, Nat.add_assoc]
  active := by rw [second.active, first.active, Nat.add_assoc]
  preInit := by rw [second.preInit, first.preInit, Nat.add_assoc]
  total := by rw [second.total, first.total]

/-- What is counted after a step that counts none of these. -/
theorem Adds.after {purged expired active preInit : Nat} {t u : Pass}
    (same : Adds 0 0 0 0 s t) (adds : Adds purged expired active preInit t u) :
    Adds purged expired active preInit s u := by
  simpa only [Nat.zero_add] using same.trans adds

theorem Adds.counted (env : PurgeEnv) (s : Pass) (p : FlowPtr) :
    Adds 0 0 0 0 s (countExpiring (countUse s p) (age env p).2) := by
  unfold countExpiring countUse
  constructor <;> split <;> split <;> rfl

/-- **One visit** erases a flow that is gone and keeps any other, and counts it. -/
theorem visit_spec (env : PurgeEnv) (s : Pass) (p : FlowPtr) :
    (visit env s p).1 = (if Gone env p then none else some (kept env p)) ∧
      Adds (if Gone env p then 1 else 0) (if Expired env p then 1 else 0)
        (if Active env p then 1 else 0) (if PreInit env p then 1 else 0) s (visit env s p).2 := by
  obtain ⟨init, stats⟩ := age_frame env p
  have same := Adds.counted env s p
  unfold visit
  generalize countExpiring (countUse s p) (age env p).2 = t at same ⊢
  by_cases expired : Expired env p
  · have active : ¬ Active env p := fun h => h.1 expired
    have preInit : ¬ PreInit env p := fun h => h.1 expired
    have flag : (age env p).1.flow.flags.expired = true := expired
    rw [settle, if_pos flag, if_pos expired, if_neg active, if_neg preInit]
    by_cases alone : (age env p).1.others = 0
    · have gone : Gone env p := ⟨expired, alone⟩
      rw [if_pos ((FlowPtr.useCount_eq_one _).mpr alone), if_pos gone, if_pos gone]
      exact ⟨rfl, same.after ⟨rfl, rfl, rfl, rfl, rfl⟩⟩
    · have held : ¬ Gone env p := fun h => alone h.2
      rw [if_neg fun h => alone ((FlowPtr.useCount_eq_one _).mp h), if_neg held, if_neg held,
        kept, if_neg active]
      exact ⟨rfl, same.after ⟨rfl, rfl, rfl, rfl, rfl⟩⟩
  · have held : ¬ Gone env p := fun h => expired h.1
    have flag : ¬ (age env p).1.flow.flags.expired = true := expired
    rw [settle, if_neg flag, if_neg expired, if_neg held, if_neg held, init, stats, kept]
    by_cases begun : p.flow.flags.detectionInit = true
    · have preInit : ¬ PreInit env p := fun h => absurd begun (ne_true_of_eq_false h.2)
      rw [if_pos begun, if_neg preInit]
      by_cases packets : p.flow.stats.lowerPackets ≠ 0 ∨ p.flow.stats.upperPackets ≠ 0
      · have active : Active env p := ⟨expired, begun, packets⟩
        rw [if_pos packets, if_pos active, if_pos active]
        exact ⟨rfl, same.after ⟨rfl, rfl, rfl, rfl, rfl⟩⟩
      · have quiet : ¬ Active env p := fun h => packets h.2.2
        rw [if_neg packets, if_neg quiet, if_neg quiet]
        exact ⟨rfl, same.after ⟨rfl, rfl, rfl, rfl, rfl⟩⟩
    · have active : ¬ Active env p := fun h => begun h.2.1
      have preInit : PreInit env p := ⟨expired, eq_false_of_ne_true begun⟩
      rw [if_neg begun, if_neg active, if_neg active, if_pos preInit]
      exact ⟨rfl, same.after ⟨rfl, rfl, rfl, rfl, rfl⟩⟩

/-! ## The walk and the pass -/

theorem walk_erased (rest : Bucket) (digest : List UInt8) (erased : (visit env s p).1 = none) :
    walk env ((digest, p) :: rest) s = walk env rest (visit env s p).2 := by
  rw [walk, erased]

theorem walk_kept (rest : Bucket) (digest : List UInt8) {q : FlowPtr}
    (stays : (visit env s p).1 = some q) :
    walk env ((digest, p) :: rest) s =
      ((digest, q) :: (walk env rest (visit env s p).2).1,
        (walk env rest (visit env s p).2).2) := by
  rw [walk, stays]

/-- What a walk over a bucket adds. -/
abbrev Counts (env : PurgeEnv) (bucket : Bucket) : Pass → Pass → Prop :=
  Adds (count (Gone env) bucket) (count (Expired env) bucket) (count (Active env) bucket)
    (count (PreInit env) bucket)

/-- **The walk** leaves the survivors of a bucket in their order and counts every flow. -/
theorem walk_spec (env : PurgeEnv) (bucket : Bucket) (s : Pass) :
    (walk env bucket s).1 = bucket.filterMap (survivor env) ∧
      Counts env bucket s (walk env bucket s).2 := by
  induction bucket generalizing s with
  | nil => exact ⟨rfl, rfl, rfl, rfl, rfl, rfl⟩
  | cons e rest ih =>
    obtain ⟨digest, p⟩ := e
    obtain ⟨stays, adds⟩ := visit_spec env s p
    obtain ⟨rests, more⟩ := ih (visit env s p).2
    have both := adds.trans more
    simp only [← count_cons _ digest] at both
    by_cases gone : Gone env p
    · rw [if_pos gone] at stays
      have none : survivor env (digest, p) = none := if_pos gone
      rw [walk_erased rest digest stays, List.filterMap_cons_none none]
      exact ⟨rests, both⟩
    · rw [if_neg gone] at stays
      have some : survivor env (digest, p) = some (digest, kept env p) := if_neg gone
      rw [walk_kept rest digest stays, List.filterMap_cons_some some, rests]
      exact ⟨rfl, both⟩

/-- What a run over buckets has done: the survivors stay in their buckets, and every flow is
counted. -/
structure Done (env : PurgeEnv) (buckets : List Bucket) (start : Pass)
    (done : List Bucket × Pass) : Prop where
  left : done.1 = buckets.map (List.filterMap (survivor env))
  purged : done.2.status.flowsPurged = start.status.flowsPurged + count (Gone env) buckets.flatten
  expired :
    done.2.status.flowsExpired = start.status.flowsExpired + count (Expired env) buckets.flatten
  active :
    done.2.status.flowsActive = start.status.flowsActive + count (Active env) buckets.flatten
  preInit : done.2.flowsPreInit = start.flowsPreInit + count (PreInit env) buckets.flatten
  total : done.2.flowsTotal = start.flowsTotal + buckets.flatten.length

theorem Done.snoc {buckets : List Bucket} {start : Pass} {done : List Bucket × Pass}
    (before : Done env buckets start done) (bucket : Bucket) :
    Done env (buckets ++ [bucket]) start (purgeBucket env done bucket) := by
  obtain ⟨rests, adds⟩ :=
    walk_spec env bucket { done.2 with flowsTotal := done.2.flowsTotal + bucket.length }
  constructor
  · rw [List.map_append, ← before.left, purgeBucket, rests]
    rfl
  all_goals
    simp only [List.flatten_append, List.flatten_singleton, count_append, List.length_append,
      ← Nat.add_assoc]
  · rw [← before.purged]
    exact adds.purged
  · rw [← before.expired]
    exact adds.expired
  · rw [← before.active]
    exact adds.active
  · rw [← before.preInit]
    exact adds.preInit
  · rw [← before.total]
    exact adds.total

/-- **The loop over the buckets.** -/
theorem foldl_done (env : PurgeEnv) (buckets : List Bucket) (start : Pass) :
    Done env buckets start (buckets.foldl (purgeBucket env) ([], start)) := by
  induction buckets using List.reverseRecOn with
  | nil => exact ⟨rfl, rfl, rfl, rfl, rfl, rfl⟩
  | append_singleton buckets bucket ih =>
    rw [List.foldl_append]
    exact ih.snoc bucket

/-- No flow is counted as active and as one whose detection has not begun. -/
theorem active_add_preInit_le (env : PurgeEnv) (bucket : Bucket) :
    count (Active env) bucket + count (PreInit env) bucket ≤ bucket.length := by
  induction bucket with
  | nil => exact Nat.le_refl 0
  | cons e rest ih =>
    have apart : ¬ (Active env e.2 ∧ PreInit env e.2) := fun both =>
      absurd both.1.2.1 (ne_true_of_eq_false both.2.2)
    rw [count_cons _ e.1, count_cons _ e.1, List.length_cons]
    by_cases active : Active env e.2
    · rw [if_pos active, if_neg fun preInit => apart ⟨active, preInit⟩]
      omega
    · rw [if_neg active]
      split <;> omega

/-- One pass erases exactly the flows that are expired at the end of their visit and that only
the map refers to. It keeps every other flow in its place, counts the erased, expired and active
flows, and the number of idle flows never falls below zero. -/
theorem processFlows_spec (env : PurgeEnv) (buckets : List Bucket) (status : FlowStatus) :
    (processFlows env buckets status).1 = buckets.map (List.filterMap (survivor env)) ∧
      (processFlows env buckets status).2.status.flowsPurged =
        count (Gone env) buckets.flatten ∧
      (processFlows env buckets status).2.status.flowsExpired =
        count (Expired env) buckets.flatten ∧
      (processFlows env buckets status).2.status.flowsActive =
        count (Active env) buckets.flatten ∧
      0 ≤ idle (processFlows env buckets status).2 := by
  have done := foldl_done env buckets { status := { status with
    flowsPurged := 0, flowsExpiring := 0, flowsExpired := 0, flowsActive := 0, flowsInUse := 0 } }
  have apart := active_add_preInit_le env buckets.flatten
  have purged := done.purged
  have expired := done.expired
  have active := done.active
  have preInit := done.preInit
  have total := done.total
  rw [Nat.zero_add] at purged expired active preInit total
  refine ⟨done.left, purged, expired, active, ?_⟩
  unfold idle processFlows
  dsimp only
  rw [active, preInit, total]
  omega

end NetifyAgent.FlowPurge
