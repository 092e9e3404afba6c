import NetifyAgent.FlowBuckets
import NetifyAgent.Frames

/-! `ndCaptureThread::ProcessPacket` by its calls of `ndFlowMap`. `Lookup` leaves the lock
of a bucket held; each of the ways from there on releases it once, whatever the calls
return, and over the buckets the calls do what the thread does with one map. -/
namespace NetifyAgent.BucketRelease
open Calls Dissection

/-- What `ProcessPacket` calls from `flow.Hash` on. -/
inductive CaptureCall where
  /-- `ndi.flow_buckets`. -/
  | flowMap (c : MapCall Flow)
  /-- `ndi.status.flows.load()`. -/
  | loadFlows
  /-- `make_shared<ndFlow>(flow)`, and whether the pointer is one to a copy of the flow. -/
  | makeShared (flow : Flow)
  /-- `ndi.status.flows++`. -/
  | countFlow
  /-- `BroadcastProcessorEvent(EVENT_FLOW_NEW)`. -/
  | flowNew
  /-- What is written to a flow of the map through its pointer. -/
  | write (digest : FlowDigest) (flow : Flow)

/-- What a call returns. -/
abbrev CaptureCall.Answer : CaptureCall → Type
  | .flowMap c => c.Answer
  | .loadFlows => Nat
  | .makeShared _ => Bool
  | .countFlow | .flowNew | .write _ _ => Unit

/-- `ndCaptureThreadException`, by its text. -/
inductive CaptureException where
  | enomem
  | einval
  /-- `detection thread ID not found!`. -/
  | noThread
  deriving DecidableEq, Repr

/-- How `ProcessPacket` ends, and the thread then. -/
inductive Exit where
  | returned (t : CaptureThread)
  | threw (exception : CaptureException) (t : CaptureThread)

abbrev CaptureProg (A : Type) : Type := Prog CaptureCall CaptureCall.Answer A

def lookup (digest : FlowDigest) : CaptureProg (Option Flow) :=
  Prog.ask (CaptureCall.flowMap (.lookup digest true))

def insertUnlocked (digest : FlowDigest) (flow : Flow) : CaptureProg Bool :=
  Prog.ask (CaptureCall.flowMap (.insert digest (some flow) true))

def release (digest : FlowDigest) : CaptureProg Unit :=
  Prog.ask (CaptureCall.flowMap (.release digest))

def loadFlows : CaptureProg Nat := Prog.ask CaptureCall.loadFlows

def makeShared (flow : Flow) : CaptureProg Bool := Prog.ask (CaptureCall.makeShared flow)

def countFlow : CaptureProg Unit := Prog.ask CaptureCall.countFlow

def flowNew : CaptureProg Unit := Prog.ask CaptureCall.flowNew

def write (digest : FlowDigest) (flow : Flow) : CaptureProg Unit :=
  Prog.ask (CaptureCall.write digest flow)

/-- A call and its answer. -/
abbrev CaptureEvent : Type := Calls.Event CaptureCall CaptureCall.Answer

/-- Behind the last `Release`: the packet is counted, read and queued. -/
def finish (cfg : CaptureConfig) (s : CaptureServices) (p : Packet) (h : Headers) (nf : Flow)
    (t : CaptureThread) : CaptureProg Exit := do
  let t' := CaptureThread.seen cfg s p h nf t
  write ⟨t.flow.digestLower, []⟩ ((t'.flowBuckets t.flow.digestLower).getD nf)
  return if t'.thrown then .threw .noThread t' else .returned t'

/-- The flow that is inserted. -/
def copied (h : Headers) (t : CaptureThread) : Flow :=
  { t.flow.copy with direction := h.ip.addrCmp }

/-- A new flow, under the lock of its bucket. -/
def create (cfg : CaptureConfig) (s : CaptureServices) (p : Packet) (h : Headers)
    (digest : FlowDigest) (t : CaptureThread) : CaptureProg Exit := do
  if ← makeShared t.flow then
    if ← insertUnlocked digest (copied h t) then
      countFlow
      flowNew
      release digest
      finish cfg s p h (CaptureThread.fresh p h t) t
    else
      release digest
      return .threw .einval t
  else
    -- The lock is still held here.
    return .threw .enomem t

/-- A digest that is not in the map, with the number of flows. -/
def addFlow (cfg : CaptureConfig) (s : CaptureServices) (p : Packet) (h : Headers)
    (digest : FlowDigest) (t : CaptureThread) (flows : Nat) : CaptureProg Exit := do
  if 0 < cfg.maxFlows ∧ cfg.maxFlows < flows + 1 then
    release digest
    return .returned (CaptureThread.dropped p t)
  else if cfg.synScanProtection = true ∧ h.ip.ipProtocol = IPPROTO_TCP ∧
      CaptureThread.thFlags p h ≠ 0x12 then
    release digest
    return .returned (CaptureThread.dropped p t)
  else
    create cfg s p h digest t

/-- From `flow.Hash` on. -/
def hashed (cfg : CaptureConfig) (s : CaptureServices) (p : Packet) (h : Headers)
    (t : CaptureThread) : CaptureProg Exit := do
  let t := { t with flow := t.flow.hash s.sha1 cfg.tag }
  let digest : FlowDigest := ⟨t.flow.digestLower, []⟩
  match ← lookup digest with
  | some nf =>
    release digest
    finish cfg s p h (CaptureThread.known p h nf) t
  | none =>
    addFlow cfg s p h digest t (← loadFlows)

/-- `ProcessPacket`, if its loops end within the fuel. -/
def processPacket (cfg : CaptureConfig) (s : CaptureServices) (fuel : Nat) (p : Packet)
    (t : CaptureThread) : Option (CaptureProg Exit) :=
  let dissected := dissect s.extensions cfg.dlType p fuel
  let t := dissected.log.foldl (CaptureThread.perform p)
    (CaptureThread.arrived p (CaptureThread.tsPkt cfg p t))
  match dissected.outcome with
  | .ok h => some (hashed cfg s p h t)
  | .left => some (.done (.returned t))
  | .spun => none

/-! ## Locks -/

/-- What a call does to the lock of a bucket, or under it. -/
inductive LockEvent where
  | acquired (digest : FlowDigest)
  | inserted (digest : FlowDigest)
  | released (digest : FlowDigest)
  deriving DecidableEq, Repr

def lockEvent (event : CaptureEvent) : Option LockEvent :=
  match event.1 with
  | .flowMap (.lookup digest true) => some (.acquired digest)
  | .flowMap (.insert digest _ true) => some (.inserted digest)
  | .flowMap (.release digest) => some (.released digest)
  | _ => none

/-- The lock is released once behind its acquisition, perhaps with an insertion between. -/
def ReleasedOnce (digest : FlowDigest) (log : List CaptureEvent) :
    Prop :=
  log.filterMap lockEvent = [.acquired digest, .released digest] ∨
    log.filterMap lockEvent = [.acquired digest, .inserted digest, .released digest]

/-- `make_shared` does not return a null pointer: without memory it throws an exception of
its own. -/
def Allocates (log : List CaptureEvent) : Prop :=
  ∀ flow, ⟨.makeShared flow, false⟩ ∉ log

section
variable {cfg : CaptureConfig} {s : CaptureServices} {p : Packet} {h : Headers}
  {t : CaptureThread} {log : List CaptureEvent} {exit : Exit}

/-- Behind the last `Release` no lock is touched. -/
theorem finish_lockless {nf : Flow} (path : Path (finish cfg s p h nf t) log exit) :
    log.filterMap lockEvent = [] := by
  obtain ⟨answer, rest, rfl, further⟩ := path_ask.mp path
  obtain ⟨rfl, -⟩ := path_done.mp further
  rfl

/-- A way that ends with `Release`. -/
theorem released {digest : FlowDigest} {result : Exit}
    (path : Path (release digest >>= fun _ => .done result) log exit) :
    log.filterMap lockEvent = [.released digest] := by
  obtain ⟨answer, rest, rfl, further⟩ := path_ask.mp path
  obtain ⟨rfl, -⟩ := path_done.mp further
  rfl

/-- A way on behind `Release`. -/
theorem released_finish {digest : FlowDigest} {nf : Flow}
    (path : Path (release digest >>= fun _ => finish cfg s p h nf t) log exit) :
    log.filterMap lockEvent = [.released digest] := by
  obtain ⟨answer, rest, rfl, further⟩ := path_ask.mp path
  exact congrArg (LockEvent.released digest :: ·) (finish_lockless further)

/-- The ways from `make_shared` on. -/
theorem create_released {digest : FlowDigest} (path : Path (create cfg s p h digest t) log exit)
    (allocates : Allocates log) :
    log.filterMap lockEvent = [.inserted digest, .released digest] := by
  obtain ⟨allocated, rest, rfl, inserting⟩ := path_ask.mp path
  cases allocated with
  | false => exact absurd (List.mem_cons_self ..) (allocates t.flow)
  | true =>
    rw [if_pos rfl] at inserting
    obtain ⟨inserted, rest, rfl, counting⟩ := path_ask.mp inserting
    cases inserted with
    | false => exact congrArg (LockEvent.inserted digest :: ·) (released counting)
    | true =>
      rw [if_pos rfl] at counting
      obtain ⟨-, rest, rfl, telling⟩ := path_ask.mp counting
      obtain ⟨-, rest, rfl, leaving⟩ := path_ask.mp telling
      have left := released_finish leaving
      exact congrArg (LockEvent.inserted digest :: ·) left

/-- The ways from the test of the limit on. -/
theorem addFlow_released {digest : FlowDigest} {flows : Nat}
    (path : Path (addFlow cfg s p h digest t flows) log exit) (allocates : Allocates log) :
    log.filterMap lockEvent = [.released digest] ∨
      log.filterMap lockEvent = [.inserted digest, .released digest] := by
  unfold addFlow at path
  split at path
  · exact .inl (released path)
  split at path
  · exact .inl (released path)
  · exact .inr (create_released path allocates)

/-- **Each way from `Lookup` on** releases the lock once. -/
theorem hashed_released (path : Path (hashed cfg s p h t) log exit) (allocates : Allocates log) :
    ReleasedOnce ⟨(t.flow.hash s.sha1 cfg.tag).digestLower, []⟩ log := by
  obtain ⟨found, rest, rfl, further⟩ := path_ask.mp path
  cases found with
  | some nf => exact .inl (congrArg (LockEvent.acquired _ :: ·) (released_finish further))
  | none =>
    obtain ⟨flows, rest, rfl, adding⟩ := path_ask.mp further
    have allocates' : Allocates rest := fun flow member =>
      allocates flow (List.mem_cons_of_mem _ (List.mem_cons_of_mem _ member))
    refine (addFlow_released adding allocates').imp ?_ ?_
    · exact fun left => congrArg (LockEvent.acquired _ :: ·) left
    · exact fun left => congrArg (LockEvent.acquired _ :: ·) left

/-- Without `Lookup` no lock is touched, with it the lock is released once. -/
theorem processPacket_released {fuel : Nat} {program : CaptureProg Exit}
    (ended : processPacket cfg s fuel p t = some program) (path : Path program log exit)
    (allocates : Allocates log) : log = [] ∨ ∃ digest, ReleasedOnce digest log := by
  unfold processPacket at ended
  simp only at ended
  split at ended
  · cases ended
    exact .inr ⟨_, hashed_released path allocates⟩
  · cases ended
    exact .inl (path_done.mp path).1
  · cases ended

end

/-! ## Over the buckets -/

/-- What the threads share. -/
structure Shared (buckets : Nat) where
  /-- `ndi.flow_buckets`. -/
  flowBuckets : NdFlowMap buckets Flow := {}
  /-- `ndi.status.flows`. -/
  flows : Nat := 0

section
variable {buckets : Nat} [NeZero buckets]

/-- The answers of what is shared. -/
def Shared.serve (m : Shared buckets) : (c : CaptureCall) → Option (c.Answer × Shared buckets)
  | .flowMap c =>
    (m.flowBuckets.serve c).map fun served => (served.1, { m with flowBuckets := served.2 })
  | .loadFlows => some (m.flows, m)
  | .makeShared _ => some (true, m)
  | .countFlow => some ((), { m with flows := m.flows + 1 })
  | .flowNew => some ((), m)
  | .write digest flow => some ((), { m with flowBuckets := m.flowBuckets.put digest (some flow) })

/-- The thread knows as one map what the buckets hold. -/
structure Agrees (m : Shared buckets) (t : CaptureThread) : Prop where
  flows : m.flows = t.flows
  whole : ∀ digest, m.flowBuckets.whole digest = (t.flowBuckets digest).map some

/-- How a thread ends. -/
def exitOf (t : CaptureThread) : Exit := if t.thrown then .threw .noThread t else .returned t

variable {cfg : CaptureConfig} {s : CaptureServices} {p : Packet} {h : Headers}
  {t : CaptureThread} {m : Shared buckets}

/-- The number of flows is of no account behind the limit. -/
theorem seen_flows (cfg : CaptureConfig) (s : CaptureServices) (p : Packet) (h : Headers) (nf : Flow)
    (t : CaptureThread) (flows : Nat) :
    CaptureThread.seen cfg s p h nf { t with flows } =
      { CaptureThread.seen cfg s p h nf t with flows } := by
  unfold CaptureThread.seen CaptureThread.queuePacket
  simp only
  split_ifs <;> rfl

/-- A packet of a flow changes the map at its digest. -/
theorem seen_flowBuckets (cfg : CaptureConfig) (s : CaptureServices) (p : Packet) (h : Headers)
    (nf : Flow) (t : CaptureThread) :
    ∃ nf', (CaptureThread.seen cfg s p h nf t).flowBuckets =
      Function.update t.flowBuckets t.flow.digestLower (some nf') := by
  unfold CaptureThread.seen CaptureThread.queuePacket
  simp only
  split_ifs <;> exact ⟨_, rfl⟩

/-- Behind the last `Release` the flow of the digest is written. -/
theorem run_finish {flows : Nat} (counted : m.flows = flows)
    (others : ∀ digest, digest ≠ t.flow.digestLower →
      m.flowBuckets.whole digest = (t.flowBuckets digest).map some)
    (long : 8 ≤ t.flow.digestLower.length) (nf : Flow) :
    ∃ m', (finish cfg s p h nf t).run Shared.serve m =
        some (exitOf (CaptureThread.seen cfg s p h nf t), m') ∧
      Agrees m' (CaptureThread.seen cfg s p h nf { t with flows }) ∧
      m'.flowBuckets.bucketLock = m.flowBuckets.bucketLock := by
  obtain ⟨nf', stored⟩ := seen_flowBuckets cfg s p h nf t
  rw [seen_flows cfg s p h nf t flows]
  refine ⟨_, rfl, ⟨counted, fun digest => ?_⟩, rfl⟩
  have put := m.flowBuckets.whole_put ⟨t.flow.digestLower, []⟩ long (some nf')
  simp only [stored, Function.update_self, Option.getD_some]
  refine (congrFun put digest).trans ?_
  by_cases same : digest = t.flow.digestLower
  · rw [same, Function.update_self, Function.update_self]
    rfl
  · rw [Function.update_of_ne same, Function.update_of_ne same]
    exact others digest same

/-- A lock that is held is released. -/
theorem run_release (m : Shared buckets) (digest : FlowDigest) (free : m.flowBuckets.Free digest)
    (rest : Unit → CaptureProg Exit) :
    (release digest >>= rest).run Shared.serve
        { m with flowBuckets := m.flowBuckets.acquire digest } = (rest ()).run Shared.serve m := by
  rw [release, Prog.bind_ask]
  simp only [Prog.run, Shared.serve, NdFlowMap.serve, NdFlowMap.release_acquired free]
  rfl

/-- A flow that exists, under the lock of its bucket. -/
theorem run_known (agrees : Agrees m t) (long : 8 ≤ t.flow.digestLower.length)
    (free : m.flowBuckets.Free ⟨t.flow.digestLower, []⟩) (nf : Flow) :
    ∃ m', (release ⟨t.flow.digestLower, []⟩ >>= fun _ => finish cfg s p h nf t).run Shared.serve
          { m with flowBuckets := m.flowBuckets.acquire ⟨t.flow.digestLower, []⟩ } =
        some (exitOf (CaptureThread.seen cfg s p h nf t), m') ∧
      Agrees m' (CaptureThread.seen cfg s p h nf t) ∧
      m'.flowBuckets.bucketLock = m.flowBuckets.bucketLock := by
  rw [run_release m _ free]
  exact run_finish agrees.flows (fun digest _ => agrees.whole digest) long nf

/-- A packet that is dropped, under the lock of the bucket. -/
theorem run_dropped (agrees : Agrees m t) (going : t.thrown = false) {digest : FlowDigest}
    (free : m.flowBuckets.Free digest) :
    ∃ m', (release digest >>= fun _ => .done (.returned (CaptureThread.dropped p t))).run
          Shared.serve { m with flowBuckets := m.flowBuckets.acquire digest } =
        some (exitOf (CaptureThread.dropped p t), m') ∧
      Agrees m' (CaptureThread.dropped p t) ∧
      m'.flowBuckets.bucketLock = m.flowBuckets.bucketLock := by
  rw [run_release m _ free]
  have returned : exitOf (CaptureThread.dropped p t) = .returned (CaptureThread.dropped p t) :=
    if_neg (by simp [CaptureThread.dropped, going])
  exact ⟨m, by rw [returned]; rfl, ⟨agrees.flows, agrees.whole⟩, rfl⟩

/-- A new flow, under the lock of its bucket. -/
theorem run_create (cfg : CaptureConfig) (s : CaptureServices) (p : Packet) (h : Headers)
    (agrees : Agrees m t) (long : 8 ≤ t.flow.digestLower.length)
    (free : m.flowBuckets.Free ⟨t.flow.digestLower, []⟩)
    (absent : t.flowBuckets t.flow.digestLower = none) :
    ∃ m', (create cfg s p h ⟨t.flow.digestLower, []⟩ t).run Shared.serve
          { m with flowBuckets := m.flowBuckets.acquire ⟨t.flow.digestLower, []⟩ } =
        some (exitOf (CaptureThread.seen cfg s p h (CaptureThread.fresh p h t) t), m') ∧
      Agrees m' (CaptureThread.seen cfg s p h (CaptureThread.fresh p h t)
        { t with flows := t.flows + 1 }) ∧
      m'.flowBuckets.bucketLock = m.flowBuckets.bucketLock := by
  have content := agrees.whole t.flow.digestLower
  rw [absent] at content
  have inserted := m.flowBuckets.insert_acquired ⟨t.flow.digestLower, []⟩ long content
    (some (copied h t))
  have put := m.flowBuckets.whole_put ⟨t.flow.digestLower, []⟩ long (some (copied h t))
  have released := run_release ⟨m.flowBuckets.put ⟨t.flow.digestLower, []⟩ (some (copied h t)),
    m.flows + 1⟩ ⟨t.flow.digestLower, []⟩ free
    fun _ => finish cfg s p h (CaptureThread.fresh p h t) t
  unfold create
  simp only [makeShared, insertUnlocked, countFlow, flowNew, Prog.bind_ask, Prog.run, Shared.serve,
    NdFlowMap.serve, inserted, Option.map_some, Option.bind_some, if_true]
  rw [released]
  refine run_finish (congrArg (· + 1) agrees.flows) (fun digest apart => ?_) long
    (CaptureThread.fresh p h t)
  refine (congrFun put digest).trans ?_
  rw [Function.update_of_ne apart]
  exact agrees.whole digest

/-- What a thread makes of a digest that is not in the map. -/
def flowAdded (cfg : CaptureConfig) (s : CaptureServices) (p : Packet) (h : Headers)
    (t : CaptureThread) : CaptureThread :=
  if 0 < cfg.maxFlows ∧ cfg.maxFlows < t.flows + 1 then CaptureThread.dropped p t
  else if cfg.synScanProtection = true ∧ h.ip.ipProtocol = IPPROTO_TCP ∧
      CaptureThread.thFlags p h ≠ 0x12 then CaptureThread.dropped p t
  else CaptureThread.seen cfg s p h (CaptureThread.fresh p h t) { t with flows := t.flows + 1 }

/-- A digest that is not in the map, under the lock of its bucket. -/
theorem run_addFlow (agrees : Agrees m t) (going : t.thrown = false)
    (long : 8 ≤ t.flow.digestLower.length) (free : m.flowBuckets.Free ⟨t.flow.digestLower, []⟩)
    (absent : t.flowBuckets t.flow.digestLower = none) :
    ∃ m', (addFlow cfg s p h ⟨t.flow.digestLower, []⟩ t m.flows).run Shared.serve
          { m with flowBuckets := m.flowBuckets.acquire ⟨t.flow.digestLower, []⟩ } =
        some (exitOf { flowAdded cfg s p h t with flows := t.flows }, m') ∧
      Agrees m' (flowAdded cfg s p h t) ∧
      m'.flowBuckets.bucketLock = m.flowBuckets.bucketLock := by
  have counted : m.flows = t.flows := agrees.flows
  unfold addFlow flowAdded
  by_cases full : 0 < cfg.maxFlows ∧ cfg.maxFlows < t.flows + 1
  · rw [if_pos (counted ▸ full), if_pos full]
    exact run_dropped agrees going free
  rw [if_neg (counted ▸ full), if_neg full]
  by_cases scan : cfg.synScanProtection = true ∧ h.ip.ipProtocol = IPPROTO_TCP ∧
      CaptureThread.thFlags p h ≠ 0x12
  · rw [if_pos scan, if_pos scan]
    exact run_dropped agrees going free
  · rw [if_neg scan, if_neg scan]
    have same := seen_flows cfg s p h (CaptureThread.fresh p h t) t
      (t.flows + 1)
    obtain ⟨m', ran, agrees', unlocked⟩ := run_create cfg s p h agrees long
      free absent
    refine ⟨m', ran.trans ?_, agrees', unlocked⟩
    rw [same]
    have kept := seen_flows cfg s p h (CaptureThread.fresh p h t) t
      t.flows
    exact congrArg (fun t' => some (exitOf t', m')) kept

/-- **From `flow.Hash` on** the thread leaves in the buckets what it leaves in one map, ends
as with one map, and every lock as it was. -/
theorem run_hashed (agrees : Agrees m t) (going : t.thrown = false)
    (long : 8 ≤ (t.flow.hash s.sha1 cfg.tag).digestLower.length)
    (free : m.flowBuckets.Free ⟨(t.flow.hash s.sha1 cfg.tag).digestLower, []⟩) :
    ∃ m', (hashed cfg s p h t).run Shared.serve m =
        some (exitOf { CaptureThread.hashed cfg s p h t with flows := t.flows }, m') ∧
      Agrees m' (CaptureThread.hashed cfg s p h t) ∧
      m'.flowBuckets.bucketLock = m.flowBuckets.bucketLock := by
  have agrees' : Agrees m { t with flow := t.flow.hash s.sha1 cfg.tag } :=
    ⟨agrees.flows, agrees.whole⟩
  have content := agrees.whole (t.flow.hash s.sha1 cfg.tag).digestLower
  have looked := NdFlowMap.lookup_acquire free long
  unfold hashed CaptureThread.hashed
  simp only [lookup, Prog.bind_ask, Prog.run, Shared.serve, NdFlowMap.serve, looked,
    Option.map_some, Option.bind_some]
  cases found : t.flowBuckets (t.flow.hash s.sha1 cfg.tag).digestLower with
  | some nf =>
    rw [found] at content
    simp only [content]
    rw [← seen_flows]
    exact run_known agrees' long free (CaptureThread.known p h nf)
  | none =>
    rw [found] at content
    simp only [content]
    exact run_addFlow agrees' going long free found

end

/-! ## One map, and one release -/

/-- **`ndFlowMap` is one map**: the answers to any calls are those of one map, and calls that
leave no lock held are all answered. **`ProcessPacket`** releases the lock that `Lookup` leaves
held once, on each of its ways to its end. -/
theorem flow_map_refined (buckets : Nat) [NeZero buckets] :
    (∀ {F : Type} (calls : List (MapCall F)) (m : NdFlowMap buckets F),
      (∀ c ∈ calls, 8 ≤ c.digest.bytes.length) →
        (∀ log m', (Prog.sequence calls).run NdFlowMap.serve m = some (log, m') →
          (Prog.sequence calls).run FlowTable.answer m.whole = some (log, m'.whole)) ∧
        ((∀ c ∈ calls, c.settles = true) → (m.bucketLock = fun _ => false) →
          ∃ log m', (Prog.sequence calls).run NdFlowMap.serve m = some (log, m'))) ∧
      ∀ cfg s fuel p t program log exit, processPacket cfg s fuel p t = some program →
        Path program log exit → Allocates log → ∀ digest answer,
          ⟨.flowMap (.lookup digest true), answer⟩ ∈ log → ReleasedOnce digest log := by
  refine ⟨fun calls m long => ⟨fun log m' ran => ?_, fun settle free => ?_⟩, ?_⟩
  · exact NdFlowMap.run_whole (Prog.makes_sequence long) ran
  · exact NdFlowMap.run_settles settle free
  · intro cfg s fuel p t program log exit ended path allocates digest answer looked
    rcases processPacket_released ended path allocates with rfl | ⟨digest', once⟩
    · cases looked
    · have acquired : LockEvent.acquired digest ∈ log.filterMap lockEvent :=
        List.mem_filterMap.mpr ⟨_, looked, rfl⟩
      have same : digest = digest' := by
        rcases once with locks | locks
        · rw [locks] at acquired
          simpa using acquired
        · rw [locks] at acquired
          simpa using acquired
      exact same ▸ once

/-- A digest of eight bytes. -/
def oneDigest : FlowDigest := ⟨List.replicate 8 1, []⟩

/-- A frame of a flow. -/
def frame : Packet := Frames.udpFrame 1 2 4000 53 []

theorem frame_hashed : ∃ h t, processPacket (Frames.eth0 .en10mb) Frames.services 2 frame {} =
    some (hashed (Frames.eth0 .en10mb) Frames.services frame h t) := by
  have walked : (match (dissect Frames.services.extensions (Frames.eth0 .en10mb).dlType frame
      2).outcome with
    | .ok _ => true
    | _ => false) = true := by decide +kernel
  unfold processPacket
  simp only
  split at walked
  case h_1 h ended =>
    rw [ended]
    exact ⟨h, _, rfl⟩
  case h_2 => cases walked

/-- Two insertions under one digest and a search, over two buckets, and a packet of a flow
that is in the map. -/
theorem two_buckets :
    (∃ m', (Prog.sequence [.insert oneDigest (some 1) false, .insert oneDigest (some 2) false,
        .lookup oneDigest false]).run FlowTable.answer
          ({} : NdFlowMap 2 Nat).whole = some ([⟨.insert oneDigest (some 1) false, true⟩,
            ⟨.insert oneDigest (some 2) false, false⟩, ⟨.lookup oneDigest false, some 1⟩], m')) ∧
      ∃ program log exit digest, processPacket (Frames.eth0 .en10mb) Frames.services 2 frame {} =
          some program ∧ Path program log exit ∧
        ⟨.flowMap (.lookup digest true), some {}⟩ ∈ log ∧ ReleasedOnce digest log := by
  have refined := @flow_map_refined 2 _
  constructor
  · exact ⟨_, (refined.1 [.insert oneDigest (some 1) false, .insert oneDigest (some 2) false,
      .lookup oneDigest false] {} (by decide)).1 _ _ rfl⟩
  · obtain ⟨h, t, ended⟩ := frame_hashed
    have path : ∃ digest flow exit, Path (hashed (Frames.eth0 .en10mb) Frames.services frame h t)
        [⟨.flowMap (.lookup digest true), some {}⟩, ⟨.flowMap (.release digest), ()⟩,
          ⟨.write digest flow, ()⟩] exit :=
      ⟨_, _, _, path_ask.mpr ⟨some {}, _, rfl, path_ask.mpr ⟨(), _, rfl,
        path_ask.mpr ⟨(), _, rfl, path_done.mpr ⟨rfl, rfl⟩⟩⟩⟩⟩
    obtain ⟨digest, flow, exit, path⟩ := path
    have allocates : Allocates [⟨.flowMap (.lookup digest true), some {}⟩,
        ⟨.flowMap (.release digest), ()⟩, ⟨.write digest flow, ()⟩] := by
      intro flow member
      simp at member
    exact ⟨_, _, exit, digest, ended, path, List.mem_cons_self ..,
      refined.2 _ _ _ _ _ _ _ _ ended path allocates digest (some {}) (List.mem_cons_self ..)⟩

end NetifyAgent.BucketRelease
