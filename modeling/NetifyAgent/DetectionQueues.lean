import NetifyAgent.FlowMap
import NetifyAgent.FlowQueue

/-! The detection thread of a flow. Capture threads of one interface find the same flow in
the flow map, and what they do with it once they gave its bucket back is under no lock: they
test whether it has a detection thread, assign the next one of their own, and queue the
packet to the one they find assigned. The instance thread expires flows while it holds their
bucket. -/
namespace NetifyAgent.DetectionQueues
open Runs

/-! ## Threads and queues -/

/-- Where a capture thread stands in `ProcessPacket`. A flow is known by its number. -/
inductive QueuePoint where
  | idle
  /-- The flow was found or inserted, and its bucket released. -/
  | captured (flow : Nat)
  /-- The flow still wants packets. -/
  | wanted (flow : Nat)
  /-- `dpi_thread_id` was tested and was negative. -/
  | unassigned (flow : Nat)
  | assigned (flow : Nat)
  /-- The detection thread was found. -/
  | found (flow dpi : Nat)
  /-- There is no such detection thread, the thread threw. -/
  | failed
  deriving DecidableEq

/-- Where the instance thread stands in `ExpireFlow`. -/
inductive ExpirePoint where
  | idle
  /-- `detection_complete` was tested and was clear. -/
  | incomplete (flow : Nat)
  /-- `expiring` was set. -/
  | marked (flow : Nat)
  /-- The detection thread was found. -/
  | found (flow dpi : Nat)
  deriving DecidableEq

/-- The flow that is held. -/
def QueuePoint.flow : QueuePoint → Option Nat
  | .idle | .failed => none
  | .captured f | .wanted f | .unassigned f | .assigned f | .found f _ => some f

def ExpirePoint.flow : ExpirePoint → Option Nat
  | .idle => none
  | .incomplete f | .marked f | .found f _ => some f

/-- The detection thread that was found for a flow and not queued to yet. -/
def QueuePoint.dpi : QueuePoint → Nat → Option Nat
  | .found f k, flow => if f = flow then some k else none
  | _, _ => none

def ExpirePoint.dpi : ExpirePoint → Nat → Option Nat
  | .found f k, flow => if f = flow then some k else none
  | _, _ => none

/-- Who queued an entry. -/
inductive Source (threads : Nat) where
  /-- A capture thread, with the number of its packet. -/
  | packet (i : Fin threads) (n : Nat)
  | expiry
  deriving DecidableEq

/-- `ndDetectionQueueEntry`. -/
structure QueueEntry (threads : Nat) where
  flow : Nat
  source : Source threads
  deriving DecidableEq

/-- The flows, and where every thread stands. -/
structure DpiSystem (threads buckets : Nat) where
  /-- `ndFlowMap`. -/
  flowMap : List UInt8 → Option Nat := fun _ => none
  flows : Nat → Flow := fun _ => {}
  /-- The number of flows that were made. -/
  made : Nat := 0
  capture : Fin threads → QueuePoint := fun _ => .idle
  /-- The packets that each capture thread has taken up. -/
  packets : Fin threads → Nat := fun _ => 0
  /-- `ndCaptureThread::dpi_thread_id`. -/
  dpiThreadId : Fin threads → Nat
  /-- The bucket that `ProcessFlows` holds. -/
  acquired : Option (Fin buckets) := none
  expire : ExpirePoint := .idle
  /-- `ndDetectionThread::pkt_queue`. -/
  pktQueue : Nat → List (QueueEntry threads) := fun _ => []
  /-- The calls of `QueuePacket`, each with its detection thread. -/
  queued : List (Nat × QueueEntry threads) := []

/-- The steps of the threads. -/
inductive Action (threads buckets : Nat) where
  /-- `Lookup`, and `InsertUnlocked` where the flow is new and may be inserted. -/
  | lookup (i : Fin threads) (template : Flow) (admitted : Bool)
  /-- The test whether the flow still wants packets. -/
  | want (i : Fin threads)
  /-- The test of `dpi_thread_id`. -/
  | test (i : Fin threads)
  /-- The assignment. -/
  | assign (i : Fin threads)
  /-- `threads_dpi.find`. -/
  | find (i : Fin threads)
  | queuePacket (i : Fin threads)
  | acquire (b : Fin buckets)
  /-- `ExpireFlow` tests `detection_complete`. -/
  | expireTest (digest : List UInt8)
  /-- `ExpireFlow` tests and sets `expiring`. -/
  | expireMark
  /-- `thread_detection.find`. -/
  | expireFind
  | expireQueue
  /-- `ProcessFlows` erases an expired flow that nobody holds. -/
  | erase (digest : List UInt8)
  | release
  /-- A detection thread takes an entry. -/
  | detect (k : Nat)
  /-- Whatever else is done to a flow. Nothing else assigns its `dpi_thread_id`. -/
  | change (f : Nat) (flow : Flow)

/-- What the agent was configured with. -/
structure DpiConfig where
  /-- `threads_dpi.size()`; the threads are numbered from zero. -/
  threadsDpi : Nat
  maxDetectionPkts : Nat

variable {threads buckets : Nat}

namespace DpiSystem

def setCapture (s : DpiSystem threads buckets) (i : Fin threads) (p : QueuePoint) :
    DpiSystem threads buckets :=
  { s with capture := Function.update s.capture i p }

def setFlow (s : DpiSystem threads buckets) (f : Nat) (flow : Flow) : DpiSystem threads buckets :=
  { s with flows := Function.update s.flows f flow }

/-- `QueuePacket`. -/
def push (s : DpiSystem threads buckets) (k : Nat) (entry : QueueEntry threads) :
    DpiSystem threads buckets :=
  { s with
    pktQueue := Function.update s.pktQueue k (s.pktQueue k ++ [entry])
    queued := s.queued ++ [(k, entry)] }

/-- `use_count() > 1`. -/
def InUse (s : DpiSystem threads buckets) (cfg : DpiConfig) (f : Nat) : Prop :=
  (∃ i, (s.capture i).flow = some f) ∨
    ∃ k < cfg.threadsDpi, ∃ entry ∈ s.pktQueue k, entry.flow = f

instance (s : DpiSystem threads buckets) (cfg : DpiConfig) (f : Nat) :
    Decidable (s.InUse cfg f) :=
  inferInstanceAs (Decidable (_ ∨ _))

end DpiSystem

/-- `find(dpi_thread_id)`. -/
def findDpi (cfg : DpiConfig) (id : Int) : Option Nat :=
  if 0 ≤ id ∧ id < cfg.threadsDpi then some id.toNat else none

variable [NeZero buckets]

/-- The end of `ndCaptureThread::ProcessPacket`, from the lookup on. -/
def captureStep (cfg : DpiConfig) (s : DpiSystem threads buckets) :
    Action threads buckets → Option (DpiSystem threads buckets)
  | .lookup i template admitted =>
    if s.capture i = .idle ∧
        s.acquired ≠ some (FlowSystem.hashToBucket buckets template.digestLower) then
      let s := { s with packets := Function.update s.packets i (s.packets i + 1) }
      match s.flowMap template.digestLower with
      | some f => some (s.setCapture i (.captured f))
      | none =>
        if admitted then some {
          (s.setCapture i (.captured s.made)).setFlow s.made template.copy with
          flowMap := Function.update s.flowMap template.digestLower (some s.made)
          made := s.made + 1 }
        else some s
    else none
  | .want i =>
    match s.capture i with
    | .captured f =>
      some (s.setCapture i
        (if wantsPacket cfg.maxDetectionPkts (s.flows f) then .wanted f else .idle))
    | _ => none
  | .test i =>
    match s.capture i with
    | .wanted f =>
      some (s.setCapture i (if (s.flows f).dpiThreadId < 0 then .unassigned f else .assigned f))
    | _ => none
  | .assign i =>
    match s.capture i with
    | .unassigned f =>
      let next := if s.dpiThreadId i + 1 = cfg.threadsDpi then 0 else s.dpiThreadId i + 1
      some { (s.setCapture i (.assigned f)).setFlow f
          { s.flows f with dpiThreadId := s.dpiThreadId i } with
        dpiThreadId := Function.update s.dpiThreadId i next }
    | _ => none
  | .find i =>
    match s.capture i with
    | .assigned f =>
      match findDpi cfg (s.flows f).dpiThreadId with
      | some k => some (s.setCapture i (.found f k))
      | none => some (s.setCapture i .failed)
    | _ => none
  | .queuePacket i =>
    match s.capture i with
    | .found f k => some ((s.setCapture i .idle).push k ⟨f, .packet i (s.packets i)⟩)
    | _ => none
  | _ => none

/-- `ndInstance::ExpireFlow` and what `ProcessFlows` does around it. -/
def instanceStep (cfg : DpiConfig) (s : DpiSystem threads buckets) :
    Action threads buckets → Option (DpiSystem threads buckets)
  | .acquire b => if s.acquired = none then some { s with acquired := some b } else none
  | .expireTest digest =>
    if s.acquired = some (FlowSystem.hashToBucket buckets digest) ∧ s.expire = .idle then
      match s.flowMap digest with
      | some f =>
        if (s.flows f).flags.expired then none
        else if (s.flows f).flags.detectionComplete then
          some (s.setFlow f (s.flows f).setExpired)
        else some { s with expire := .incomplete f }
      | none => none
    else none
  | .expireMark =>
    match s.expire with
    | .incomplete f =>
      if (s.flows f).flags.expiring then some { s with expire := .idle }
      else some { s.setFlow f (s.flows f).setExpiring with expire := .marked f }
    | _ => none
  | .expireFind =>
    match s.expire with
    | .marked f =>
      match findDpi cfg (s.flows f).dpiThreadId with
      | some k => some { s with expire := .found f k }
      | none => some { s.setFlow f (s.flows f).setExpired with expire := .idle }
    | _ => none
  | .expireQueue =>
    match s.expire with
    | .found f k => some { s.push k ⟨f, .expiry⟩ with expire := .idle }
    | _ => none
  | .erase digest =>
    if s.acquired = some (FlowSystem.hashToBucket buckets digest) ∧ s.expire = .idle then
      match s.flowMap digest with
      | some f =>
        if (s.flows f).flags.expired ∧ ¬ s.InUse cfg f then
          some { s with flowMap := Function.update s.flowMap digest none }
        else none
      | none => none
    else none
  | .release =>
    if s.acquired ≠ none ∧ s.expire = .idle then some { s with acquired := none } else none
  | _ => none

def step (cfg : DpiConfig) (s : DpiSystem threads buckets) :
    Action threads buckets → Option (DpiSystem threads buckets)
  | .detect k =>
    match s.pktQueue k with
    | [] => none
    | _ :: rest => some { s with pktQueue := Function.update s.pktQueue k rest }
  | .change f flow =>
    if f < s.made then
      some (s.setFlow f { flow with dpiThreadId := (s.flows f).dpiThreadId })
    else none
  | action => (captureStep cfg s action).or (instanceStep cfg s action)

/-! ## One detection thread for a flow -/

omit [NeZero buckets]

/-- The packets of a capture thread among the entries. -/
def packetsOf (i : Fin threads) (queued : List (Nat × QueueEntry threads)) : List Nat :=
  queued.filterMap fun q =>
    match q.2.source with
    | .packet j n => if j = i then some n else none
    | .expiry => none

/-- The entries of a flow go to one detection thread and those of a capture thread are queued
in the order of its packets; a detection thread has them in the order they were queued in. -/
structure OneThread (s : DpiSystem threads buckets) : Prop where
  same : ∀ p ∈ s.queued, ∀ q ∈ s.queued, p.2.flow = q.2.flow → p.1 = q.1
  order : ∀ i, (packetsOf i s.queued).Pairwise (· < ·)
  waiting : ∀ k, s.pktQueue k <:+ (s.queued.filter (·.1 = k)).map (·.2)

/-- The detection threads that entries of a flow were queued to, or are about to be. -/
def DpiSystem.destinations (s : DpiSystem threads buckets) (f : Nat) : List Nat :=
  (List.finRange threads).filterMap (fun i => (s.capture i).dpi f) ++ (s.expire.dpi f).toList ++
    (s.queued.filter (·.2.flow = f)).map (·.1)

/-- No flow is assigned another detection thread than one that was found for it. -/
def Undivided (s : DpiSystem threads buckets) : Action threads buckets → Prop
  | .assign i => ∀ f ∈ (s.capture i).flow, ∀ k ∈ s.destinations f, k = s.dpiThreadId i
  | _ => True

/-! ## Assignments -/

/-- A flow that is held was made, and the detection thread that was found is its own. -/
def Fits (s : DpiSystem threads buckets) (flow : Option Nat) (dpi : Nat → Option Nat) : Prop :=
  ∀ f ∈ flow, f < s.made ∧ ∀ k ∈ dpi f, (s.flows f).dpiThreadId = k

/-- Every detection thread that was found for a flow is the one it has. -/
structure Aimed (s : DpiSystem threads buckets) : Prop where
  capture : ∀ i, Fits s (s.capture i).flow (s.capture i).dpi
  expire : Fits s s.expire.flow s.expire.dpi
  mapped : ∀ d, Fits s (s.flowMap d) fun _ => none
  queued : ∀ q ∈ s.queued, Fits s (some q.2.flow) fun _ => some q.1

/-- No flow that was made gets another detection thread. -/
def Keeps (s t : DpiSystem threads buckets) : Prop :=
  s.made ≤ t.made ∧ ∀ f < s.made, (t.flows f).dpiThreadId = (s.flows f).dpiThreadId

variable {s t : DpiSystem threads buckets} {cfg : DpiConfig}

theorem Keeps.refl (s : DpiSystem threads buckets) : Keeps s s := ⟨Nat.le_refl _, fun _ _ => rfl⟩

theorem Fits.keep {flow : Option Nat} {dpi : Nat → Option Nat} (fits : Fits s flow dpi)
    (keeps : Keeps s t) : Fits t flow dpi := by
  intro f held
  obtain ⟨made, own⟩ := fits f held
  refine ⟨Nat.lt_of_lt_of_le made keeps.1, fun k found => ?_⟩
  rw [keeps.2 f made]
  exact own k found

/-- Only what is new has to be looked at. -/
theorem Aimed.keep (aimed : Aimed s) (keeps : Keeps s t)
    (capture : ∀ i, t.capture i = s.capture i ∨ Fits t (t.capture i).flow (t.capture i).dpi)
    (expire : t.expire = s.expire ∨ Fits t t.expire.flow t.expire.dpi)
    (mapped : ∀ d, t.flowMap d = s.flowMap d ∨ Fits t (t.flowMap d) fun _ => none)
    (queued : ∀ q ∈ t.queued, q ∈ s.queued ∨ Fits t (some q.2.flow) fun _ => some q.1) :
    Aimed t := by
  refine ⟨fun i => ?_, ?_, fun d => ?_, fun q member => ?_⟩
  · rcases capture i with same | fits
    · rw [same]
      exact (aimed.capture i).keep keeps
    · exact fits
  · rcases expire with same | fits
    · rw [same]
      exact aimed.expire.keep keeps
    · exact fits
  · rcases mapped d with same | fits
    · rw [same]
      exact (aimed.mapped d).keep keeps
    · exact fits
  · rcases queued q member with before | fits
    · exact (aimed.queued q before).keep keeps
    · exact fits

/-- A capture thread moves on with the flow it holds. -/
theorem aimed_setCapture {i : Fin threads} {p : QueuePoint} (aimed : Aimed s)
    (fits : Fits s p.flow p.dpi) : Aimed (s.setCapture i p) := by
  refine aimed.keep (Keeps.refl s) (fun j => ?_) (.inl rfl) (fun _ => .inl rfl) fun _ => .inl
  by_cases mine : j = i
  · subst mine
    have there : (s.setCapture j p).capture j = p := Function.update_self ..
    rw [there]
    exact .inr fits
  · exact .inl (Function.update_of_ne mine ..)

theorem keeps_setFlow {f : Nat} {flow : Flow}
    (same : flow.dpiThreadId = (s.flows f).dpiThreadId) : Keeps s (s.setFlow f flow) := by
  refine ⟨Nat.le_refl _, fun g _ => ?_⟩
  by_cases mine : g = f
  · subst mine
    have there : (s.setFlow g flow).flows g = flow := Function.update_self ..
    rw [there, same]
  · exact congrArg Flow.dpiThreadId (Function.update_of_ne mine ..)

/-- Whatever else happens to a flow. -/
theorem aimed_setFlow {f : Nat} {flow : Flow} (aimed : Aimed s)
    (same : flow.dpiThreadId = (s.flows f).dpiThreadId) : Aimed (s.setFlow f flow) :=
  aimed.keep (keeps_setFlow same) (fun _ => .inl rfl) (.inl rfl) (fun _ => .inl rfl)
    fun _ => .inl

theorem aimed_expire {p : ExpirePoint} (aimed : Aimed s) (fits : Fits s p.flow p.dpi) :
    Aimed { s with expire := p } :=
  aimed.keep (Keeps.refl s) (fun _ => .inl rfl) (.inr fits) (fun _ => .inl rfl) fun _ => .inl

theorem aimed_push {k f : Nat} {source : Source threads} (aimed : Aimed s)
    (fits : Fits s (some f) fun _ => some k) : Aimed (s.push k ⟨f, source⟩) := by
  refine aimed.keep (Keeps.refl s) (fun _ => .inl rfl) (.inl rfl) (fun _ => .inl rfl)
    fun q member => ?_
  rcases List.mem_append.mp member with before | last
  · exact .inl before
  · obtain rfl := List.mem_singleton.mp last
    exact .inr fits

/-- A new flow has no number that is in use. -/
theorem keeps_made {flow : Flow} : Keeps s { s.setFlow s.made flow with made := s.made + 1 } :=
  ⟨Nat.le_succ _, fun _ made => congrArg Flow.dpiThreadId
    (Function.update_of_ne (Nat.ne_of_lt made) ..)⟩

theorem findDpi_eq_some {id : Int} {k : Nat} (found : findDpi cfg id = some k) : id = k := by
  unfold findDpi at found
  split at found
  · cases found
    omega
  · cases found

section
variable [NeZero buckets] {i : Fin threads} {f k : Nat}

theorem aimed_lookup {template : Flow} {admitted : Bool} (aimed : Aimed s)
    (taken : captureStep cfg s (.lookup i template admitted) = some t) : Aimed t := by
  simp only [captureStep] at taken
  have counted : Aimed { s with packets := Function.update s.packets i (s.packets i + 1) } :=
    ⟨aimed.capture, aimed.expire, aimed.mapped, aimed.queued⟩
  split at taken
  · split at taken
    · rename_i f there
      cases taken
      refine aimed_setCapture counted fun g held => ?_
      obtain rfl := Option.some.inj held
      exact ⟨(aimed.mapped _ f there).1, by rintro k ⟨⟩⟩
    · split at taken
      · cases taken
        refine Aimed.keep counted keeps_made (fun j => ?_) (.inl rfl) (fun d => ?_) fun _ => .inl
        · by_cases mine : j = i
          · subst mine
            refine .inr fun g held => ?_
            have there : (some s.made : Option Nat) = some g := by
              simpa [DpiSystem.setFlow, DpiSystem.setCapture, QueuePoint.flow] using held
            obtain rfl := Option.some.inj there
            refine ⟨Nat.lt_succ_self _, fun k found => ?_⟩
            simp [DpiSystem.setFlow, DpiSystem.setCapture, QueuePoint.dpi] at found
          · exact .inl (Function.update_of_ne mine ..)
        · by_cases mine : d = template.digestLower
          · subst mine
            refine .inr fun g held => ?_
            have there : (some s.made : Option Nat) = some g :=
              (Function.update_self template.digestLower _ s.flowMap).symm.trans held
            obtain rfl := Option.some.inj there
            exact ⟨Nat.lt_succ_self _, by rintro k ⟨⟩⟩
          · exact .inl (Function.update_of_ne mine ..)
      · cases taken
        exact counted
  · cases taken

theorem mem_destinations : k ∈ s.destinations f ↔ (∃ i, k ∈ (s.capture i).dpi f) ∨
    k ∈ s.expire.dpi f ∨ ∃ q ∈ s.queued, q.2.flow = f ∧ q.1 = k := by
  simp [DpiSystem.destinations, and_assoc]

/-- What was found for a flow is what it is assigned. -/
theorem Fits.assign {id : Nat} {flow : Option Nat} {dpi : Nat → Option Nat}
    (fits : Fits s flow dpi) (meant : f ∈ flow → ∀ k ∈ dpi f, k = id) :
    Fits (s.setFlow f { s.flows f with dpiThreadId := id }) flow dpi := by
  intro g held
  refine ⟨(fits g held).1, fun k found => ?_⟩
  by_cases mine : g = f
  · subst mine
    have there : (s.setFlow g { s.flows g with dpiThreadId := id }).flows g =
        { s.flows g with dpiThreadId := id } := Function.update_self ..
    rw [there, meant held k found]
  · have there : (s.setFlow f { s.flows f with dpiThreadId := id }).flows g = s.flows g :=
      Function.update_of_ne mine ..
    rw [there]
    exact (fits g held).2 k found

/-- **The assignment.** What was found for the flow before is what is assigned. -/
theorem aimed_assign (aimed : Aimed s) (undivided : Undivided s (.assign i))
    (taken : captureStep cfg s (.assign i) = some t) : Aimed t := by
  simp only [captureStep] at taken
  split at taken
  · rename_i f stands
    cases taken
    have meant : ∀ k ∈ s.destinations f, k = s.dpiThreadId i :=
      undivided f (by rw [stands]; rfl)
    have moved := aimed_setCapture (i := i) (p := .assigned f) aimed fun g held =>
      ⟨(aimed.capture i g (by rw [stands]; exact held)).1, by rintro k ⟨⟩⟩
    refine ⟨fun j => (moved.capture j).assign fun _ k found => ?_,
      moved.expire.assign fun _ k found => meant k (mem_destinations.mpr (.inr (.inl found))),
      fun d => (moved.mapped d).assign (by rintro - k ⟨⟩),
      fun q member => (moved.queued q member).assign fun own k found => ?_⟩
    · by_cases mine : j = i
      · subst mine
        have there : (s.setCapture j (.assigned f)).capture j = .assigned f :=
          Function.update_self ..
        rw [there] at found
        cases found
      · have there : (s.setCapture i (.assigned f)).capture j = s.capture j :=
          Function.update_of_ne mine ..
        rw [there] at found
        exact meant k (mem_destinations.mpr (.inl ⟨j, found⟩))
    · exact meant k (mem_destinations.mpr
        (.inr (.inr ⟨q, member, Option.some.inj own, Option.some.inj found⟩)))
  · cases taken

/-- **One step** of a capture thread. -/
theorem aimed_captureStep {action : Action threads buckets} (aimed : Aimed s)
    (taken : captureStep cfg s action = some t) (undivided : Undivided s action) : Aimed t := by
  -- a point with the flow that was held before and without a detection thread
  have held {i : Fin threads} {f : Nat} (stands : (s.capture i).flow = some f) :
      Fits s (some f) fun _ => none := fun g same =>
    ⟨(aimed.capture i g (stands.trans same)).1, by rintro k ⟨⟩⟩
  have none {dpi : Nat → Option Nat} : Fits s none dpi := by rintro f ⟨⟩
  cases action with
  | lookup i template admitted => exact aimed_lookup aimed taken
  | want i =>
    simp only [captureStep] at taken
    split at taken
    · rename_i f stands
      cases taken
      refine aimed_setCapture aimed ?_
      split
      · exact held (by rw [stands]; rfl)
      · exact none
    · cases taken
  | test i =>
    simp only [captureStep] at taken
    split at taken
    · rename_i f stands
      cases taken
      refine aimed_setCapture aimed ?_
      split
      · exact held (by rw [stands]; rfl)
      · exact held (by rw [stands]; rfl)
    · cases taken
  | assign i => exact aimed_assign aimed undivided taken
  | find i =>
    simp only [captureStep] at taken
    split at taken
    · rename_i f stands
      split at taken
      · rename_i k found
        cases taken
        refine aimed_setCapture aimed fun g same => ?_
        refine ⟨(held (by rw [stands]; rfl) g same).1, fun k' own => ?_⟩
        obtain rfl := Option.some.inj same
        simp only [QueuePoint.dpi, ↓reduceIte, Option.mem_def, Option.some.injEq] at own
        rw [findDpi_eq_some found, own]
      · cases taken
        exact aimed_setCapture aimed none
    · cases taken
  | queuePacket i =>
    simp only [captureStep] at taken
    split at taken
    · rename_i f k stands
      cases taken
      refine aimed_push (aimed_setCapture aimed none) fun g same => ?_
      obtain rfl := Option.some.inj same
      have fits := aimed.capture i f (by rw [stands]; rfl)
      rw [stands] at fits
      exact ⟨fits.1, fun k' own => fits.2 k' (by simpa [QueuePoint.dpi] using own)⟩
    · cases taken
  | _ => cases taken

/-- **One step** of the instance thread. -/
theorem aimed_instanceStep {action : Action threads buckets} (aimed : Aimed s)
    (taken : instanceStep cfg s action = some t) : Aimed t := by
  have expired {f : Nat} (stands : s.expire.flow = some f) : Fits s (some f) fun _ => none :=
    fun g same => ⟨(aimed.expire g (stands.trans same)).1, by rintro k ⟨⟩⟩
  have none {dpi : Nat → Option Nat} : Fits s none dpi := by rintro f ⟨⟩
  cases action with
  | acquire b =>
    simp only [instanceStep] at taken
    split at taken
    · cases taken
      exact ⟨aimed.capture, aimed.expire, aimed.mapped, aimed.queued⟩
    · cases taken
  | expireTest digest =>
    simp only [instanceStep] at taken
    split at taken
    · split at taken
      · rename_i f there
        split at taken
        · cases taken
        · split at taken
          · cases taken
            exact aimed_setFlow aimed rfl
          · cases taken
            refine aimed_expire aimed fun g same => ?_
            obtain rfl := Option.some.inj same
            exact ⟨(aimed.mapped digest f there).1, by rintro k ⟨⟩⟩
      · cases taken
    · cases taken
  | expireMark =>
    simp only [instanceStep] at taken
    split at taken
    · rename_i f stands
      split at taken
      · cases taken
        exact aimed_expire aimed none
      · cases taken
        exact aimed_expire (aimed_setFlow aimed rfl)
          (Fits.keep (expired (by rw [stands]; rfl)) (keeps_setFlow rfl))
    · cases taken
  | expireFind =>
    simp only [instanceStep] at taken
    split at taken
    · rename_i f stands
      split at taken
      · rename_i k found
        cases taken
        refine aimed_expire aimed fun g same => ?_
        refine ⟨(expired (by rw [stands]; rfl) g same).1, fun k' own => ?_⟩
        obtain rfl := Option.some.inj same
        simp only [ExpirePoint.dpi, ↓reduceIte, Option.mem_def, Option.some.injEq] at own
        rw [findDpi_eq_some found, own]
      · cases taken
        exact aimed_expire (aimed_setFlow aimed rfl) (by rintro f ⟨⟩)
    · cases taken
  | expireQueue =>
    simp only [instanceStep] at taken
    split at taken
    · rename_i f k stands
      cases taken
      refine aimed_expire (aimed_push aimed fun g same => ?_) (by rintro f ⟨⟩)
      obtain rfl := Option.some.inj same
      have fits := aimed.expire f (by rw [stands]; rfl)
      rw [stands] at fits
      exact ⟨fits.1, fun k' own => fits.2 k' (by simpa [ExpirePoint.dpi] using own)⟩
    · cases taken
  | erase digest =>
    simp only [instanceStep] at taken
    split at taken
    · split at taken
      · split at taken
        · cases taken
          refine aimed.keep (Keeps.refl s) (fun _ => .inl rfl) (.inl rfl) (fun d => ?_)
            fun _ => .inl
          by_cases mine : d = digest
          · subst mine
            refine .inr fun g same => ?_
            cases (Function.update_self d _ s.flowMap).symm.trans same
          · exact .inl (Function.update_of_ne mine ..)
        · cases taken
      · cases taken
    · cases taken
  | release =>
    simp only [instanceStep] at taken
    split at taken
    · cases taken
      exact ⟨aimed.capture, aimed.expire, aimed.mapped, aimed.queued⟩
    · cases taken
  | _ => cases taken

theorem aimed_step {action : Action threads buckets} (aimed : Aimed s)
    (taken : step cfg s action = some t) (undivided : Undivided s action) : Aimed t := by
  unfold step at taken
  split at taken
  · split at taken
    · cases taken
    · cases taken
      exact ⟨aimed.capture, aimed.expire, aimed.mapped, aimed.queued⟩
  · split at taken
    · cases taken
      exact aimed_setFlow aimed rfl
    · cases taken
  · rcases Option.or_eq_some_iff.mp taken with capture | ⟨-, expiry⟩
    · exact aimed_captureStep aimed capture undivided
    · exact aimed_instanceStep aimed expiry

end

/-! ## Order -/

/-- The packets of a capture thread were queued in their order, before the one that it has
taken up, and a detection thread has what was queued to it last. -/
structure Ordered (s : DpiSystem threads buckets) : Prop where
  order : ∀ i, (packetsOf i s.queued).Pairwise (· < ·)
  older : ∀ i, ∀ n ∈ packetsOf i s.queued,
    n ≤ s.packets i ∧ (s.capture i ≠ .idle → n < s.packets i)
  waiting : ∀ k, s.pktQueue k <:+ (s.queued.filter (·.1 = k)).map (·.2)

theorem Ordered.same (ordered : Ordered s) (capture : t.capture = s.capture)
    (packets : t.packets = s.packets) (pktQueue : t.pktQueue = s.pktQueue)
    (queued : t.queued = s.queued) : Ordered t := by
  refine ⟨?_, ?_, ?_⟩
  · rw [queued]
    exact ordered.order
  · rw [queued, packets, capture]
    exact ordered.older
  · rw [queued, pktQueue]
    exact ordered.waiting

theorem packetsOf_push (i : Fin threads) (k : Nat) (entry : QueueEntry threads) :
    packetsOf i (s.push k entry).queued = packetsOf i s.queued ++ packetsOf i [(k, entry)] :=
  List.filterMap_append

/-- What is pushed stands last. -/
theorem waiting_push {k : Nat} {entry : QueueEntry threads}
    (waiting : ∀ k, s.pktQueue k <:+ (s.queued.filter (·.1 = k)).map (·.2)) (k' : Nat) :
    (s.push k entry).pktQueue k' <:+ ((s.push k entry).queued.filter (·.1 = k')).map (·.2) := by
  obtain ⟨taken, all⟩ := waiting k'
  by_cases mine : k' = k
  · subst mine
    refine ⟨taken, ?_⟩
    simp only [DpiSystem.push, Function.update_self, List.filter_append, List.map_append, ← all]
    simp
  · refine ⟨taken, ?_⟩
    have other : ¬ k = k' := fun same => mine same.symm
    simp only [DpiSystem.push, Function.update_of_ne mine, List.filter_append, List.map_append,
      ← all]
    simp [other]

/-- A capture thread that has a packet goes on with it or puts it away. -/
theorem ordered_setCapture {i : Fin threads} {p : QueuePoint} (ordered : Ordered s)
    (busy : s.capture i ≠ .idle) : Ordered (s.setCapture i p) := by
  refine ⟨ordered.order, fun j n member => ?_, ordered.waiting⟩
  obtain ⟨le, lt⟩ := ordered.older j n member
  refine ⟨le, fun busy' => ?_⟩
  by_cases mine : j = i
  · subst mine
    exact lt busy
  · have there : (s.setCapture i p).capture j = s.capture j := Function.update_of_ne mine ..
    rw [there] at busy'
    exact lt busy'

/-- The packet that is queued is the newest of its thread. -/
theorem ordered_queuePacket {i : Fin threads} {f k : Nat} (ordered : Ordered s)
    (busy : s.capture i ≠ .idle) :
    Ordered ((s.setCapture i .idle).push k ⟨f, .packet i (s.packets i)⟩) := by
  have moved : Ordered (s.setCapture i .idle) := ordered_setCapture ordered busy
  refine ⟨fun j => ?_, fun j n member => ?_, waiting_push moved.waiting⟩
  · rw [packetsOf_push]
    by_cases mine : i = j
    · subst mine
      refine List.pairwise_append.mpr ⟨ordered.order i, ?_, fun n before m last => ?_⟩
      · simp [packetsOf]
      · obtain rfl : m = s.packets i := by simpa [packetsOf] using last
        exact (ordered.older i n before).2 busy
    · have other : packetsOf j [(k, QueueEntry.mk f (.packet i (s.packets i)))] = [] := by
        simp [packetsOf, mine]
      rw [other, List.append_nil]
      exact ordered.order j
  · rw [packetsOf_push] at member
    rcases List.mem_append.mp member with before | last
    · exact moved.older j n before
    · by_cases mine : i = j
      · subst mine
        obtain rfl : n = s.packets i := by simpa [packetsOf] using last
        have there : (s.setCapture i .idle).capture i = .idle := Function.update_self ..
        exact ⟨Nat.le_refl _, fun busy' => absurd there busy'⟩
      · simp [packetsOf, mine] at last

theorem ordered_expireQueue {f k : Nat} (ordered : Ordered s) :
    Ordered { s.push k ⟨f, .expiry⟩ with expire := .idle } := by
  have same (j : Fin threads) : packetsOf j (s.push k ⟨f, .expiry⟩).queued =
      packetsOf j s.queued := by
    rw [packetsOf_push]
    exact List.append_nil _
  refine ⟨fun j => ?_, fun j n member => ?_, waiting_push ordered.waiting⟩
  · exact (same j).symm ▸ ordered.order j
  · exact ordered.older j n ((same j) ▸ member)

section
variable [NeZero buckets]

theorem ordered_captureStep {action : Action threads buckets} (ordered : Ordered s)
    (taken : captureStep cfg s action = some t) : Ordered t := by
  cases action with
  | lookup i template admitted =>
    simp only [captureStep] at taken
    split at taken
    · rename_i free
      have counted (p : QueuePoint) : Ordered ({ s with
          packets := Function.update s.packets i (s.packets i + 1) }.setCapture i p) := by
        refine ⟨ordered.order, fun j n member => ?_, ordered.waiting⟩
        obtain ⟨le, lt⟩ := ordered.older j n member
        by_cases mine : j = i
        · subst mine
          simp only [DpiSystem.setCapture, Function.update_self]
          omega
        · simp only [DpiSystem.setCapture, Function.update_of_ne mine]
          exact ⟨le, lt⟩
      split at taken
      · cases taken
        exact counted _
      · split at taken
        · cases taken
          exact (counted (.captured s.made)).same rfl rfl rfl rfl
        · cases taken
          have same := counted .idle
          rw [DpiSystem.setCapture, ← free.1, Function.update_eq_self] at same
          exact same
    · cases taken
  | want i =>
    simp only [captureStep] at taken
    split at taken
    · rename_i f stands
      cases taken
      exact ordered_setCapture ordered (by rw [stands]; exact nofun)
    · cases taken
  | test i =>
    simp only [captureStep] at taken
    split at taken
    · rename_i f stands
      cases taken
      exact ordered_setCapture ordered (by rw [stands]; exact nofun)
    · cases taken
  | assign i =>
    simp only [captureStep] at taken
    split at taken
    · rename_i f stands
      cases taken
      have moved : Ordered (s.setCapture i (.assigned f)) :=
        ordered_setCapture ordered (by rw [stands]; exact nofun)
      exact moved.same rfl rfl rfl rfl
    · cases taken
  | find i =>
    simp only [captureStep] at taken
    split at taken
    · rename_i f stands
      split at taken
      · cases taken
        exact ordered_setCapture ordered (by rw [stands]; exact nofun)
      · cases taken
        exact ordered_setCapture ordered (by rw [stands]; exact nofun)
    · cases taken
  | queuePacket i =>
    simp only [captureStep] at taken
    split at taken
    · rename_i f k stands
      cases taken
      exact ordered_queuePacket ordered (by rw [stands]; exact nofun)
    · cases taken
  | _ => cases taken

/-- The instance thread queues nothing but expiry entries. -/
theorem ordered_instanceStep {action : Action threads buckets} (ordered : Ordered s)
    (taken : instanceStep cfg s action = some t) : Ordered t := by
  cases action with
  | expireQueue =>
    simp only [instanceStep] at taken
    split at taken
    · cases taken
      exact ordered_expireQueue ordered
    · cases taken
  | acquire b =>
    simp only [instanceStep] at taken
    split at taken
    · cases taken
      exact ordered.same rfl rfl rfl rfl
    · cases taken
  | expireTest digest =>
    simp only [instanceStep] at taken
    split at taken
    · split at taken
      · split at taken
        · cases taken
        · split at taken
          · cases taken
            exact ordered.same rfl rfl rfl rfl
          · cases taken
            exact ordered.same rfl rfl rfl rfl
      · cases taken
    · cases taken
  | expireMark =>
    simp only [instanceStep] at taken
    split at taken
    · split at taken
      · cases taken
        exact ordered.same rfl rfl rfl rfl
      · cases taken
        exact ordered.same rfl rfl rfl rfl
    · cases taken
  | expireFind =>
    simp only [instanceStep] at taken
    split at taken
    · split at taken
      · cases taken
        exact ordered.same rfl rfl rfl rfl
      · cases taken
        exact ordered.same rfl rfl rfl rfl
    · cases taken
  | erase digest =>
    simp only [instanceStep] at taken
    split at taken
    · split at taken
      · split at taken
        · cases taken
          exact ordered.same rfl rfl rfl rfl
        · cases taken
      · cases taken
    · cases taken
  | release =>
    simp only [instanceStep] at taken
    split at taken
    · cases taken
      exact ordered.same rfl rfl rfl rfl
    · cases taken
  | _ => cases taken

theorem ordered_step {action : Action threads buckets} (ordered : Ordered s)
    (taken : step cfg s action = some t) : Ordered t := by
  unfold step at taken
  split at taken
  · rename_i k
    split at taken
    · cases taken
    · rename_i entry rest queue
      cases taken
      refine ⟨ordered.order, ordered.older, fun k' => ?_⟩
      by_cases mine : k' = k
      · subst mine
        have waits := ordered.waiting k'
        rw [queue] at waits
        simp only [Function.update_self]
        exact (List.suffix_cons entry rest).trans waits
      · simp only [Function.update_of_ne mine]
        exact ordered.waiting k'
  · split at taken
    · cases taken
      exact ordered.same rfl rfl rfl rfl
    · cases taken
  · rcases Option.or_eq_some_iff.mp taken with capture | ⟨-, expiry⟩
    · exact ordered_captureStep ordered capture
    · exact ordered_instanceStep ordered expiry

/-! ## Every interleaving -/

/-- **One detection thread for a flow**, as long as no flow is assigned another than one that
was found for it. -/
theorem one_thread_reached {counters : Fin threads → Nat}
    (reached : Reaches (step cfg) Undivided
      ({ dpiThreadId := counters } : DpiSystem threads buckets) s) : OneThread s := by
  have aimed : Aimed s := by
    refine reached.invariant (I := Aimed) ?_ fun _ _ _ before taken undivided =>
      aimed_step before taken undivided
    exact ⟨by rintro i f ⟨⟩, by rintro f ⟨⟩, by rintro d f ⟨⟩, by rintro q ⟨⟩⟩
  have ordered : Ordered s := by
    refine reached.invariant (I := Ordered) ?_ fun _ _ _ before taken _ =>
      ordered_step before taken
    exact ⟨fun i => .nil, by rintro i n ⟨⟩, fun k => List.suffix_refl []⟩
  refine ⟨fun p first q second same => ?_, ordered.order, ordered.waiting⟩
  have own := (aimed.queued p first p.2.flow rfl).2 p.1 rfl
  have own' := (aimed.queued q second q.2.flow rfl).2 q.1 rfl
  rw [same, own'] at own
  exact (Int.ofNat.inj own).symm

instance : DecidableRel (Undivided : DpiSystem threads buckets → Action threads buckets → Prop)
  | s, .assign i => inferInstanceAs
      (Decidable (∀ f ∈ (s.capture i).flow, ∀ k ∈ s.destinations f, k = s.dpiThreadId i))
  | _, .lookup .. | _, .want _ | _, .test _ | _, .find _ | _, .queuePacket _ => .isTrue trivial
  | _, .acquire _ | _, .expireTest _ | _, .expireMark | _, .expireFind => .isTrue trivial
  | _, .expireQueue | _, .erase _ | _, .release | _, .detect _ | _, .change .. => .isTrue trivial

end

/-- Two detection threads. -/
def twoThreads : DpiConfig where
  threadsDpi := 2
  maxDetectionPkts := 32

/-- Two capture threads, of which one starts with each detection thread. -/
def twoCaptures : DpiSystem 2 1 where
  dpiThreadId i := i

/-- A flow that the other capture thread finds assigned, and that expires. -/
theorem assigned_once : ∃ s : DpiSystem 2 1,
    Reaches (step twoThreads) Undivided twoCaptures s ∧
      s.queued = [(0, ⟨0, .packet 0 1⟩), (0, ⟨0, .packet 1 1⟩), (0, ⟨0, .expiry⟩)] ∧
      OneThread s := by
  have found : (exec (step twoThreads) Undivided twoCaptures
      [.lookup 0 {} true, .lookup 1 {} true, .want 0, .want 1, .test 0, .assign 0, .test 1,
        .find 1, .find 0, .queuePacket 0, .queuePacket 1, .acquire 0, .expireTest [], .expireMark,
        .expireFind, .expireQueue, .release]).any
      (fun s => s.queued = [(0, ⟨0, .packet 0 1⟩), (0, ⟨0, .packet 1 1⟩), (0, ⟨0, .expiry⟩)]) =
        true := by
    decide +kernel
  obtain ⟨s, reached, queued⟩ := reached_of_exec found
  exact ⟨s, reached, of_decide_eq_true queued, one_thread_reached reached⟩

/-- Both capture threads find the new flow without a detection thread, and each assigns one. -/
theorem threads_divided : ∃ s : DpiSystem 2 1,
    Reaches (step twoThreads) Always twoCaptures s ∧ ¬ OneThread s := by
  have found : (exec (step twoThreads) Always twoCaptures
      [.lookup 0 {} true, .lookup 1 {} true, .want 0, .want 1, .test 0, .test 1, .assign 0,
        .find 0, .queuePacket 0, .assign 1, .find 1, .queuePacket 1]).any
      (fun s => s.queued = [(0, ⟨0, .packet 0 1⟩), (1, ⟨0, .packet 1 1⟩)]) = true := by
    decide +kernel
  obtain ⟨s, reached, queued⟩ := reached_of_exec found
  have both := of_decide_eq_true queued
  refine ⟨s, reached, fun one => ?_⟩
  have same := one.same (0, ⟨0, .packet 0 1⟩) (by simp [both]) (1, ⟨0, .packet 1 1⟩)
    (by simp [both]) rfl
  cases same

end NetifyAgent.DetectionQueues
