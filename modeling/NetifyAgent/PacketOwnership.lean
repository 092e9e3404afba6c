import NetifyAgent.DetectionQueues

/-! Who deletes a packet. A capture thread deletes those that `ProcessPacket` returns, the
others are deleted with the entry of the detection queue they were put in. A detection thread
empties its queue until it is told to terminate, and once more then. The instance thread
deletes the capture threads, and when it has ended the detection threads are deleted. -/
namespace NetifyAgent.PacketOwnership
open Runs DetectionQueues

variable {threads buckets : Nat}

/-! ## Detection threads -/

/-- Where `ndDetectionThread::Entry` stands. -/
inductive DetectPoint (threads : Nat) where
  /-- In front of `pthread_cond_timedwait`. -/
  | waiting
  /-- In `ProcessPacketQueue`, in front of the lock; for the last time after the loop. -/
  | draining (last : Bool)
  /-- An entry was taken out of the queue. -/
  | handling (last : Bool) (entry : QueueEntry threads)
  /-- In front of `ShouldTerminate`. -/
  | drained
  /-- `Entry` has returned, or an exception has left an entry behind. -/
  | ended (lost : Option (QueueEntry threads))
  /-- The destructor is done. -/
  | destroyed (lost : Option (QueueEntry threads))
  deriving DecidableEq

/-- The entry that is in no queue and was not deleted. -/
def DetectPoint.entry : DetectPoint threads → Option (QueueEntry threads)
  | .handling _ entry => some entry
  | .ended lost | .destroyed lost => lost
  | .waiting | .draining _ | .drained => none

/-- The threads of the agent. -/
structure Agent (threads buckets : Nat) where
  dpis : DpiSystem threads buckets
  /-- The capture threads that were deleted. -/
  joined : Fin threads → Bool := fun _ => false
  /-- `ndInstance::Entry` has returned. -/
  instanceEnded : Bool := false
  terminate : Nat → Bool := fun _ => false
  point : Nat → DetectPoint threads := fun _ => .waiting
  /-- The packets that `ProcessPacket` returned, which were deleted. -/
  returned : List (Fin threads × Nat) := []
  /-- The entries that a detection thread handled and deleted. -/
  handled : Nat → List (QueueEntry threads) := fun _ => []
  /-- The entries that its destructor deleted. -/
  dropped : Nat → List (QueueEntry threads) := fun _ => []

/-- What happens next. -/
inductive Action (threads buckets : Nat) where
  /-- `ProcessPacket` returns a packet that has come to no flow. -/
  | discard (i : Fin threads)
  /-- A capture thread or the instance thread takes a step. -/
  | dpi (action : DetectionQueues.Action threads buckets)
  /-- `delete it_instance`. -/
  | joinCapture (i : Fin threads)
  /-- `ndInstance::Entry` returns. -/
  | instanceEnds
  /-- `~ndInstance`: `Terminate` of a detection thread. -/
  | terminate (k : Nat)
  /-- `pthread_cond_timedwait` returns. -/
  | wake (k : Nat)
  | pop (k : Nat)
  /-- The entry was handled and is deleted, or an exception is thrown. -/
  | handled (k : Nat) (throws : Bool)
  | shouldTerminate (k : Nat)
  /-- `~ndDetectionThread`. -/
  | destroy (k : Nat)

namespace Agent

def setPoint (s : Agent threads buckets) (k : Nat) (p : DetectPoint threads) :
    Agent threads buckets :=
  { s with point := Function.update s.point k p }

/-- Whether the thread that takes a step has not been deleted. Flows may be changed by all. -/
def takes (s : Agent threads buckets) : DetectionQueues.Action threads buckets → Bool
  | .lookup i .. | .want i | .test i | .assign i | .find i | .queuePacket i => !s.joined i
  | .detect _ => false
  | .change .. => true
  | .acquire _ | .expireTest _ | .expireMark | .expireFind | .expireQueue | .erase _ | .release =>
    !s.instanceEnded

end Agent

/-- The packet that the capture thread deletes after a step. -/
def freed (s : DpiSystem threads buckets) :
    DetectionQueues.Action threads buckets → List (Fin threads × Nat)
  | .lookup i .. | .want i => if s.capture i = .idle then [(i, s.packets i)] else []
  | _ => []

/-- What the agent does around detection. -/
def step [NeZero buckets] (cfg : DpiConfig) (s : Agent threads buckets) :
    Action threads buckets → Option (Agent threads buckets)
  | .discard i =>
    if s.joined i = false ∧ s.dpis.capture i = .idle then some { s with
      dpis := { s.dpis with packets := Function.update s.dpis.packets i (s.dpis.packets i + 1) }
      returned := s.returned ++ [(i, s.dpis.packets i + 1)] }
    else none
  | .dpi action =>
    if s.takes action then
      (DetectionQueues.step cfg s.dpis action).map fun dpis =>
        { s with dpis := dpis, returned := s.returned ++ freed dpis action }
    else none
  | .joinCapture i =>
    if s.instanceEnded = false ∧ (s.dpis.capture i = .idle ∨ s.dpis.capture i = .failed) then
      some { s with joined := Function.update s.joined i true }
    else none
  | .instanceEnds =>
    if (∀ i, s.joined i = true) ∧ s.dpis.acquired = none then
      some { s with instanceEnded := true }
    else none
  | .terminate k =>
    if s.instanceEnded then some { s with terminate := Function.update s.terminate k true }
    else none
  | .wake k =>
    match s.point k with
    | .waiting => some (s.setPoint k (.draining false))
    | _ => none
  | .pop k =>
    match s.point k with
    | .draining last =>
      match s.dpis.pktQueue k with
      | [] => some (s.setPoint k (if last then .ended none else .drained))
      | entry :: _ =>
        (DetectionQueues.step cfg s.dpis (.detect k)).map fun dpis =>
          { s.setPoint k (.handling last entry) with dpis := dpis }
    | _ => none
  | .handled k throws =>
    match s.point k with
    | .handling last entry =>
      if throws then some (s.setPoint k (.ended (some entry)))
      else some { s.setPoint k (.draining last) with
        handled := Function.update s.handled k (s.handled k ++ [entry]) }
    | _ => none
  | .shouldTerminate k =>
    match s.point k with
    | .drained => some (s.setPoint k (if s.terminate k then .draining true else .waiting))
    | _ => none
  | .destroy k =>
    match s.point k with
    | .ended lost =>
      -- all of them were told to terminate before the first is deleted
      if k < cfg.threadsDpi ∧ ∀ j < cfg.threadsDpi, s.terminate j = true then some {
        s.setPoint k (.destroyed lost) with
        dpis := { s.dpis with pktQueue := Function.update s.dpis.pktQueue k [] }
        dropped := Function.update s.dropped k (s.dpis.pktQueue k) }
      else none
    | _ => none

/-! ## Detection threads are found -/

variable {cfg : DpiConfig} {s t : DpiSystem threads buckets}

/-- A capture thread stands where it finds a detection thread. -/
def Stands (cfg : DpiConfig) (s : DpiSystem threads buckets) : QueuePoint → Prop
  | .idle => True
  | .captured f | .wanted f | .unassigned f => f < s.made
  | .assigned f => f < s.made ∧ 0 ≤ (s.flows f).dpiThreadId
  | .found f k => f < s.made ∧ k < cfg.threadsDpi
  | .failed => False

/-- The detection threads that flows are assigned exist. -/
structure Numbered (cfg : DpiConfig) (s : DpiSystem threads buckets) : Prop where
  counter : ∀ i, s.dpiThreadId i < cfg.threadsDpi
  small : ∀ f < s.made, (s.flows f).dpiThreadId < cfg.threadsDpi
  stands : ∀ i, Stands cfg s (s.capture i)
  expire : ∀ f k, s.expire = .found f k → k < cfg.threadsDpi
  mapped : ∀ d f, s.flowMap d = some f → f < s.made
  queued : ∀ q ∈ s.queued, q.1 < cfg.threadsDpi

/-- No flow loses its detection thread. -/
theorem Stands.keep {p : QueuePoint} (stands : Stands cfg s p) (made : s.made ≤ t.made)
    (flows : ∀ f < s.made, 0 ≤ (s.flows f).dpiThreadId → 0 ≤ (t.flows f).dpiThreadId) :
    Stands cfg t p := by
  cases p with
  | idle => trivial
  | captured f | wanted f | unassigned f => exact Nat.lt_of_lt_of_le (m := s.made) stands made
  | assigned f => exact ⟨Nat.lt_of_lt_of_le stands.1 made, flows f stands.1 stands.2⟩
  | found f k => exact ⟨Nat.lt_of_lt_of_le stands.1 made, stands.2⟩
  | failed => exact stands

theorem numbered_setCapture {i : Fin threads} {p : QueuePoint} (numbered : Numbered cfg s)
    (stands : Stands cfg s p) : Numbered cfg (s.setCapture i p) := by
  refine { numbered with stands := fun j => ?_ }
  by_cases mine : j = i
  · subst mine
    simp only [DpiSystem.setCapture, Function.update_self]
    exact stands.keep (Nat.le_refl _) fun _ _ => id
  · simp only [DpiSystem.setCapture, Function.update_of_ne mine]
    exact (numbered.stands j).keep (Nat.le_refl _) fun _ _ => id

/-- A flow is given the number of a detection thread, or keeps its own. -/
theorem numbered_setFlow {f : Nat} {flow : Flow} (numbered : Numbered cfg s)
    (small : f < s.made → flow.dpiThreadId < cfg.threadsDpi)
    (keeps : 0 ≤ (s.flows f).dpiThreadId → 0 ≤ flow.dpiThreadId) :
    Numbered cfg (s.setFlow f flow) := by
  refine { numbered with small := fun g made => ?_, stands := fun j => ?_ }
  · by_cases mine : g = f
    · subst mine
      simpa only [DpiSystem.setFlow, Function.update_self] using small made
    · simpa only [DpiSystem.setFlow, Function.update_of_ne mine] using numbered.small g made
  · refine (numbered.stands j).keep (Nat.le_refl _) fun g _ own => ?_
    by_cases mine : g = f
    · subst mine
      simpa only [DpiSystem.setFlow, Function.update_self] using keeps own
    · simpa only [DpiSystem.setFlow, Function.update_of_ne mine] using own

theorem numbered_same {f : Nat} {flow : Flow} (numbered : Numbered cfg s)
    (same : flow.dpiThreadId = (s.flows f).dpiThreadId) : Numbered cfg (s.setFlow f flow) :=
  numbered_setFlow numbered (fun made => same ▸ numbered.small f made) fun own => same ▸ own

theorem numbered_expire {p : ExpirePoint} (numbered : Numbered cfg s)
    (found : ∀ f k, p = .found f k → k < cfg.threadsDpi) : Numbered cfg { s with expire := p } :=
  { numbered with expire := found }

theorem numbered_push {k : Nat} {entry : QueueEntry threads} (numbered : Numbered cfg s)
    (there : k < cfg.threadsDpi) : Numbered cfg (s.push k entry) := by
  refine { numbered with queued := fun q member => ?_ }
  rcases List.mem_append.mp member with before | last
  · exact numbered.queued q before
  · obtain rfl := List.mem_singleton.mp last
    exact there

theorem findDpi_lt {id : Int} {k : Nat} (found : findDpi cfg id = some k) :
    k < cfg.threadsDpi := by
  unfold findDpi at found
  split at found
  · cases found
    omega
  · cases found

section
variable [NeZero buckets] {action : DetectionQueues.Action threads buckets}

theorem numbered_lookup {i : Fin threads} {template : Flow} {admitted : Bool}
    (numbered : Numbered cfg s)
    (taken : captureStep cfg s (.lookup i template admitted) = some t) : Numbered cfg t := by
  have counted : Numbered cfg { s with packets := Function.update s.packets i (s.packets i + 1) } :=
    { numbered with }
  simp only [captureStep] at taken
  split at taken
  · split at taken
    · rename_i f there
      cases taken
      exact numbered_setCapture counted (numbered.mapped _ f there)
    · split at taken
      · cases taken
        have other {f : Nat} (made : f < s.made) (flow : Flow) :
            Function.update s.flows s.made flow f = s.flows f :=
          Function.update_of_ne (Nat.ne_of_lt made) ..
        refine { numbered with
          small := fun f made => ?_
          stands := fun j => ?_
          mapped := fun d f there => ?_ }
        · rcases Nat.lt_succ_iff_lt_or_eq.mp made with before | rfl
          · simpa only [DpiSystem.setFlow, DpiSystem.setCapture, other before]
              using numbered.small f before
          · simp only [DpiSystem.setFlow, DpiSystem.setCapture, Function.update_self]
            have none : template.copy.dpiThreadId = -1 := rfl
            have positive := numbered.counter i
            omega
        · by_cases mine : j = i
          · subst mine
            simp only [DpiSystem.setFlow, DpiSystem.setCapture, Function.update_self]
            exact Nat.lt_succ_self _
          · simp only [DpiSystem.setFlow, DpiSystem.setCapture, Function.update_of_ne mine]
            refine (numbered.stands j).keep (Nat.le_succ _) fun f made own => ?_
            simpa only [other made] using own
        · by_cases mine : d = template.digestLower
          · subst mine
            have new : some s.made = some f :=
              (Function.update_self template.digestLower _ s.flowMap).symm.trans there
            obtain rfl := Option.some.inj new
            exact Nat.lt_succ_self _
          · have old : s.flowMap d = some f :=
              (Function.update_of_ne mine _ s.flowMap).symm.trans there
            exact Nat.lt_succ_of_lt (numbered.mapped d f old)
      · cases taken
        exact counted
  · cases taken

/-- **The round robin**: the counter of a capture thread goes from the last detection thread
back to the first. -/
theorem numbered_assign {i : Fin threads} (numbered : Numbered cfg s)
    (taken : captureStep cfg s (.assign i) = some t) : Numbered cfg t := by
  simp only [captureStep] at taken
  split at taken
  · rename_i f stands
    cases taken
    have own : f < s.made := by
      have held := numbered.stands i
      rw [stands] at held
      exact held
    have counter := numbered.counter i
    have assigned : Numbered cfg (s.setFlow f { s.flows f with dpiThreadId := s.dpiThreadId i }) :=
      numbered_setFlow numbered (fun _ => by simpa using counter) fun _ => by simp
    have moved := numbered_setCapture (i := i) (p := .assigned f) assigned
      ⟨own, by simp [DpiSystem.setFlow]⟩
    refine { moved with counter := fun j => ?_ }
    by_cases mine : j = i
    · subst mine
      simp only [Function.update_self]
      split <;> omega
    · simpa only [Function.update_of_ne mine] using numbered.counter j
  · cases taken

/-- **One step** of a capture thread. -/
theorem numbered_captureStep (numbered : Numbered cfg s)
    (taken : captureStep cfg s action = some t) : Numbered cfg t := by
  have held {i : Fin threads} {p : QueuePoint} (stands : s.capture i = p) : Stands cfg s p :=
    stands ▸ numbered.stands i
  cases action with
  | lookup i template admitted => exact numbered_lookup numbered taken
  | want i =>
    simp only [captureStep] at taken
    split at taken
    · rename_i f stands
      cases taken
      have made : f < s.made := held stands
      refine numbered_setCapture numbered ?_
      split
      · exact made
      · trivial
    · cases taken
  | test i =>
    simp only [captureStep] at taken
    split at taken
    · rename_i f stands
      cases taken
      have made : f < s.made := held stands
      refine numbered_setCapture numbered ?_
      split
      · exact made
      · exact ⟨made, Int.not_lt.mp ‹_›⟩
    · cases taken
  | assign i => exact numbered_assign numbered taken
  | find i =>
    simp only [captureStep] at taken
    split at taken
    · rename_i f stands
      obtain ⟨made, assigned⟩ := held stands
      split at taken
      · rename_i k found
        cases taken
        exact numbered_setCapture numbered ⟨made, findDpi_lt found⟩
      · rename_i missing
        have small := numbered.small f made
        simp [findDpi, assigned, small] at missing
    · cases taken
  | queuePacket i =>
    simp only [captureStep] at taken
    split at taken
    · rename_i f k stands
      cases taken
      exact numbered_push (numbered_setCapture numbered trivial) (held stands).2
    · cases taken
  | _ => cases taken

/-- **One step** of the instance thread. -/
theorem numbered_instanceStep (numbered : Numbered cfg s)
    (taken : instanceStep cfg s action = some t) : Numbered cfg t := by
  cases action with
  | acquire b =>
    simp only [instanceStep] at taken
    split at taken
    · cases taken
      exact { numbered with }
    · cases taken
  | expireTest digest =>
    simp only [instanceStep] at taken
    split at taken
    · split at taken
      · split at taken
        · cases taken
        · split at taken
          · cases taken
            exact numbered_same numbered rfl
          · cases taken
            exact numbered_expire numbered (by simp)
      · cases taken
    · cases taken
  | expireMark =>
    simp only [instanceStep] at taken
    split at taken
    · split at taken
      · cases taken
        exact numbered_expire numbered (by simp)
      · cases taken
        exact numbered_expire (numbered_same numbered rfl) (by simp)
    · cases taken
  | expireFind =>
    simp only [instanceStep] at taken
    split at taken
    · split at taken
      · rename_i found
        cases taken
        refine numbered_expire numbered fun _ _ same => ?_
        cases same
        exact findDpi_lt found
      · cases taken
        exact numbered_expire (numbered_same numbered rfl) (by simp)
    · cases taken
  | expireQueue =>
    simp only [instanceStep] at taken
    split at taken
    · rename_i f k stands
      cases taken
      exact numbered_expire (numbered_push numbered (numbered.expire f k stands)) (by simp)
    · cases taken
  | erase digest =>
    simp only [instanceStep] at taken
    split at taken
    · split at taken
      · split at taken
        · cases taken
          refine { numbered with mapped := fun d f there => ?_ }
          by_cases mine : d = digest
          · subst mine
            cases (Function.update_self d _ s.flowMap).symm.trans there
          · exact numbered.mapped d f ((Function.update_of_ne mine _ s.flowMap).symm.trans there)
        · cases taken
      · cases taken
    · cases taken
  | release =>
    simp only [instanceStep] at taken
    split at taken
    · cases taken
      exact { numbered with }
    · cases taken
  | _ => cases taken

theorem numbered_step (numbered : Numbered cfg s)
    (taken : DetectionQueues.step cfg s action = some t) : Numbered cfg t := by
  unfold DetectionQueues.step at taken
  split at taken
  · split at taken
    · cases taken
    · cases taken
      exact { numbered with }
  · split at taken
    · cases taken
      exact numbered_same numbered rfl
    · cases taken
  · rcases Option.or_eq_some_iff.mp taken with capture | ⟨-, expiry⟩
    · exact numbered_captureStep numbered capture
    · exact numbered_instanceStep numbered expiry

end

/-! ## Where a packet is -/

/-- The entries that were queued to a detection thread. -/
def entriesOf (k : Nat) (queued : List (Nat × QueueEntry threads)) : List (QueueEntry threads) :=
  (queued.filter (·.1 = k)).map (·.2)

@[simp]
theorem entriesOf_append (k : Nat) (a b : List (Nat × QueueEntry threads)) :
    entriesOf k (a ++ b) = entriesOf k a ++ entriesOf k b := by
  simp [entriesOf]

/-- Whether a capture thread has taken a packet up and not been done with it. -/
def holds (s : DpiSystem threads buckets) (i : Fin threads) (n : Nat) : Nat :=
  if s.capture i ≠ .idle ∧ n = s.packets i then 1 else 0

/-- Whether a packet was taken up. -/
def takenUp (s : DpiSystem threads buckets) (i : Fin threads) (n : Nat) : Nat :=
  if 0 < n ∧ n ≤ s.packets i then 1 else 0

/-- The number of places a packet is in: with its capture thread, returned and deleted, or
queued. -/
def places (s : DpiSystem threads buckets) (returned : List (Fin threads × Nat))
    (i : Fin threads) (n : Nat) : Nat :=
  holds s i n + returned.count (i, n) + s.queued.countP (·.2.source = .packet i n)

/-- What becomes of the packets that capture threads hold, of which some are deleted and some
entries are queued, where some of the threads may take a packet up. -/
inductive Moves (free : Fin threads → Prop) (s t : DpiSystem threads buckets) :
    List (Fin threads × Nat) → List (Nat × QueueEntry threads) → Prop where
  /-- A packet is taken up. -/
  | takeUp {i : Fin threads} {p : QueuePoint} (may : free i) (idle : s.capture i = .idle)
    (capture : t.capture = Function.update s.capture i p)
    (packets : t.packets = Function.update s.packets i (s.packets i + 1)) :
    Moves free s t (if p = .idle then [(i, s.packets i + 1)] else []) []
  /-- The thread goes on with its packet, or returns it. -/
  | goOn {i : Fin threads} {p : QueuePoint} (busy : s.capture i ≠ .idle)
    (capture : t.capture = Function.update s.capture i p) (packets : t.packets = s.packets) :
    Moves free s t (if p = .idle then [(i, s.packets i)] else []) []
  | queue {i : Fin threads} {k f : Nat} (busy : s.capture i ≠ .idle)
    (capture : t.capture = Function.update s.capture i .idle) (packets : t.packets = s.packets) :
    Moves free s t [] [(k, ⟨f, .packet i (s.packets i)⟩)]
  | stay {pushed : List (Nat × QueueEntry threads)} (capture : t.capture = s.capture)
    (packets : t.packets = s.packets) (expiry : ∀ q ∈ pushed, q.2.source = .expiry) :
    Moves free s t [] pushed

/-- The packet that a busy thread holds is the one it has taken up last. -/
theorem holds_eq {i : Fin threads} {p : QueuePoint} {m : Nat} (capture : t.capture i = p)
    (packets : t.packets i = m) (n : Nat) :
    holds t i n + (if p = .idle then [(i, m)] else []).count (i, n) = if n = m then 1 else 0 := by
  subst capture packets
  by_cases done : t.capture i = .idle
  · by_cases last : n = t.packets i
    · simp [holds, done, last]
    · simp [holds, done, last, Ne.symm last]
  · simp [holds, done]

theorem takenUp_succ {i : Fin threads} (packets : t.packets i = s.packets i + 1) (n : Nat) :
    takenUp t i n = takenUp s i n + if n = s.packets i + 1 then 1 else 0 := by
  unfold takenUp
  rw [packets]
  split <;> split <;> split <;> omega

/-- **Packets are moved.** Each that was taken up is in one place, if it was before. -/
theorem Moves.places {free : Fin threads → Prop} {freed returned : List (Fin threads × Nat)}
    {pushed : List (Nat × QueueEntry threads)} (moves : Moves free s t freed pushed)
    (queued : t.queued = s.queued ++ pushed) (i : Fin threads) (n : Nat)
    (one : places s returned i n = takenUp s i n) :
    places t (returned ++ freed) i n = takenUp t i n := by
  -- nothing happens to the packets of another thread
  have other {j : Fin threads} (not : ¬ i = j) (m : Nat) : [(j, m)].count (i, n) = 0 := by
    simp [Ne.symm not]
  unfold PacketOwnership.places at one ⊢
  rw [queued, List.count_append, List.countP_append]
  cases moves with
  | @takeUp j p may idle capture packets =>
    by_cases mine : i = j
    · subst mine
      have held := holds_eq (t := t) (i := i) (by rw [capture, Function.update_self])
        (by rw [packets, Function.update_self]) n
      have more := takenUp_succ (s := s) (t := t) (i := i) (by rw [packets, Function.update_self]) n
      have none : holds s i n = 0 := by simp [holds, idle]
      simp only [List.countP_nil]
      omega
    · have same : holds t i n = holds s i n ∧ takenUp t i n = takenUp s i n := by
        simp only [holds, takenUp, capture, packets, Function.update_of_ne mine, and_self]
      have none : (if p = .idle then [(j, s.packets j + 1)] else []).count (i, n) = 0 := by
        split
        · exact other mine _
        · rfl
      rw [same.1, same.2, none]
      simpa using one
  | @goOn j p busy capture packets =>
    have taken : takenUp t i n = takenUp s i n := by simp only [takenUp, packets]
    rw [taken, List.countP_nil]
    by_cases mine : i = j
    · subst mine
      have held := holds_eq (t := t) (i := i) (by rw [capture, Function.update_self])
        (congrFun packets i) n
      have before := holds_eq (t := s) (i := i) rfl rfl n
      simp only [busy, ↓reduceIte, List.count_nil] at before
      omega
    · have same : holds t i n = holds s i n := by
        simp only [holds, capture, packets, Function.update_of_ne mine]
      have none : (if p = .idle then [(j, s.packets j)] else []).count (i, n) = 0 := by
        split
        · exact other mine _
        · rfl
      rw [same, none]
      simpa using one
  | @queue j k f busy capture packets =>
    have taken : takenUp t i n = takenUp s i n := by simp only [takenUp, packets]
    rw [taken, List.count_nil]
    by_cases mine : i = j
    · subst mine
      have before := holds_eq (t := s) (i := i) rfl rfl n
      simp only [busy, ↓reduceIte, List.count_nil] at before
      have none : holds t i n = 0 := by simp [holds, capture]
      have last : [(k, QueueEntry.mk f (.packet i (s.packets i)))].countP
          (·.2.source = .packet i n) = if n = s.packets i then 1 else 0 := by
        simp [List.countP_cons, eq_comm]
      omega
    · have same : holds t i n = holds s i n := by
        simp only [holds, capture, packets, Function.update_of_ne mine]
      have none : [(k, QueueEntry.mk f (.packet j (s.packets j)))].countP
          (·.2.source = .packet i n) = 0 := by
        simp [Ne.symm mine]
      omega
  | stay capture packets expiry =>
    have same : holds t i n = holds s i n ∧ takenUp t i n = takenUp s i n := by
      simp only [holds, takenUp, capture, packets, and_self]
    have none : pushed.countP (·.2.source = .packet i n) = 0 := by
      refine List.countP_eq_zero.mpr fun q member => ?_
      simp [expiry q member]
    rw [same.1, same.2, none, List.count_nil]
    omega

/-- Whether a thread takes a packet up. -/
def Looks (action : DetectionQueues.Action threads buckets) (i : Fin threads) : Prop :=
  ∃ template admitted, action = .lookup i template admitted

/-- What a step does to the packets, and what it puts at the end of the queues. -/
def Passes (s : DpiSystem threads buckets) (action : DetectionQueues.Action threads buckets)
    (t : DpiSystem threads buckets) : Prop :=
  ∃ pushed, Moves (Looks action) s t (freed t action) pushed ∧ t.queued = s.queued ++ pushed ∧
    ∀ k, t.pktQueue k = s.pktQueue k ++ entriesOf k pushed

theorem passes_of_moves {action : DetectionQueues.Action threads buckets}
    {gone : List (Fin threads × Nat)}
    (moves : Moves (Looks action) s t gone [])
    (free : freed t action = gone) (queued : t.queued = s.queued)
    (pktQueue : t.pktQueue = s.pktQueue) : Passes s action t := by
  subst free
  exact ⟨[], moves, by rw [queued, List.append_nil], fun k => by simp [pktQueue, entriesOf]⟩

theorem push_pktQueue (k : Nat) (entry : QueueEntry threads) (j : Nat) :
    (s.push k entry).pktQueue j = s.pktQueue j ++ entriesOf j [(k, entry)] := by
  by_cases mine : j = k
  · subst mine
    simp [DpiSystem.push, entriesOf]
  · simp [DpiSystem.push, entriesOf, mine, Ne.symm mine]

section
variable [NeZero buckets] {action : DetectionQueues.Action threads buckets}

/-- **One step** of a capture thread. -/
theorem passes_captureStep (taken : captureStep cfg s action = some t) : Passes s action t := by
  have busy {i : Fin threads} {p : QueuePoint} (stands : s.capture i = p) (not : p ≠ .idle) :
      s.capture i ≠ .idle := stands ▸ not
  cases action with
  | lookup i template admitted =>
    simp only [captureStep] at taken
    split at taken
    · rename_i free
      split at taken
      · cases taken
        refine passes_of_moves (.takeUp (p := .captured _) ⟨_, _, rfl⟩ free.1 rfl rfl) ?_ rfl rfl
        simp [freed, DpiSystem.setCapture]
      · split at taken
        · cases taken
          refine passes_of_moves (.takeUp (p := .captured _) ⟨_, _, rfl⟩ free.1 rfl rfl) ?_ rfl rfl
          simp [freed, DpiSystem.setCapture, DpiSystem.setFlow]
        · cases taken
          refine passes_of_moves (.takeUp (p := .idle) ⟨_, _, rfl⟩ free.1 ?_ rfl) ?_ rfl rfl
          · rw [← free.1, Function.update_eq_self]
          · simp [freed, free.1]
    · cases taken
  | want i =>
    simp only [captureStep] at taken
    split at taken
    · rename_i f stands
      cases taken
      refine passes_of_moves (.goOn (busy stands (by simp)) rfl rfl) ?_ rfl rfl
      simp [freed, DpiSystem.setCapture]
    · cases taken
  | test i =>
    simp only [captureStep] at taken
    split at taken
    · rename_i f stands
      cases taken
      refine passes_of_moves (.goOn (busy stands (by simp)) rfl rfl) ?_ rfl rfl
      simp only [freed]
      split <;> rfl
    · cases taken
  | assign i =>
    simp only [captureStep] at taken
    split at taken
    · rename_i f stands
      cases taken
      exact passes_of_moves (.goOn (p := .assigned f) (busy stands (by simp)) rfl rfl) rfl rfl rfl
    · cases taken
  | find i =>
    simp only [captureStep] at taken
    split at taken
    · rename_i f stands
      split at taken
      · cases taken
        exact passes_of_moves (.goOn (p := .found ..) (busy stands (by simp)) rfl rfl) rfl rfl rfl
      · cases taken
        exact passes_of_moves (.goOn (p := .failed) (busy stands (by simp)) rfl rfl) rfl rfl rfl
    · cases taken
  | queuePacket i =>
    simp only [captureStep] at taken
    split at taken
    · rename_i f k stands
      cases taken
      exact ⟨_, .queue (busy stands (by simp)) rfl rfl, rfl, push_pktQueue k _⟩
    · cases taken
  | _ => cases taken

/-- **One step** of the instance thread, which holds no packets. -/
theorem passes_instanceStep (taken : instanceStep cfg s action = some t) :
    Passes s action t := by
  cases action with
  | acquire b =>
    simp only [instanceStep] at taken
    split at taken
    · cases taken
      exact passes_of_moves (.stay rfl rfl (List.forall_mem_nil _)) rfl rfl rfl
    · cases taken
  | expireTest digest =>
    simp only [instanceStep] at taken
    split at taken
    · split at taken
      · split at taken
        · cases taken
        · split at taken
          · cases taken
            exact passes_of_moves (.stay rfl rfl (List.forall_mem_nil _)) rfl rfl rfl
          · cases taken
            exact passes_of_moves (.stay rfl rfl (List.forall_mem_nil _)) rfl rfl rfl
      · cases taken
    · cases taken
  | expireMark =>
    simp only [instanceStep] at taken
    split at taken
    · split at taken
      · cases taken
        exact passes_of_moves (.stay rfl rfl (List.forall_mem_nil _)) rfl rfl rfl
      · cases taken
        exact passes_of_moves (.stay rfl rfl (List.forall_mem_nil _)) rfl rfl rfl
    · cases taken
  | expireFind =>
    simp only [instanceStep] at taken
    split at taken
    · split at taken
      · cases taken
        exact passes_of_moves (.stay rfl rfl (List.forall_mem_nil _)) rfl rfl rfl
      · cases taken
        exact passes_of_moves (.stay rfl rfl (List.forall_mem_nil _)) rfl rfl rfl
    · cases taken
  | expireQueue =>
    simp only [instanceStep] at taken
    split at taken
    · rename_i f k stands
      cases taken
      refine ⟨[(k, ⟨f, .expiry⟩)], .stay rfl rfl fun q member => ?_, rfl, push_pktQueue k _⟩
      obtain rfl := List.mem_singleton.mp member
      rfl
    · cases taken
  | erase digest =>
    simp only [instanceStep] at taken
    split at taken
    · split at taken
      · split at taken
        · cases taken
          exact passes_of_moves (.stay rfl rfl (List.forall_mem_nil _)) rfl rfl rfl
        · cases taken
      · cases taken
    · cases taken
  | release =>
    simp only [instanceStep] at taken
    split at taken
    · cases taken
      exact passes_of_moves (.stay rfl rfl (List.forall_mem_nil _)) rfl rfl rfl
    · cases taken
  | _ => cases taken

/-- Every thread but a detection thread. -/
theorem passes_step (taken : DetectionQueues.step cfg s action = some t)
    (capturing : ∀ k, action ≠ .detect k) : Passes s action t := by
  unfold DetectionQueues.step at taken
  split at taken
  · exact absurd rfl (capturing _)
  · split at taken
    · cases taken
      exact passes_of_moves (.stay rfl rfl (List.forall_mem_nil _)) rfl rfl rfl
    · cases taken
  · rcases Option.or_eq_some_iff.mp taken with capture | ⟨-, expiry⟩
    · exact passes_captureStep capture
    · exact passes_instanceStep expiry

end

/-! ## Every run -/

/-- Where a detection thread stands, its queue is what it says. -/
def Settled (s : Agent threads buckets) (k : Nat) : DetectPoint threads → Prop
  | .waiting | .draining false | .handling false _ | .drained | .ended (some _) => s.dropped k = []
  | .draining true | .handling true _ => s.dropped k = [] ∧ s.instanceEnded = true
  | .ended none => s.dropped k = [] ∧ s.instanceEnded = true ∧ s.dpis.pktQueue k = []
  | .destroyed lost => s.instanceEnded = true ∧ s.dpis.pktQueue k = [] ∧
      (lost = none → s.dropped k = [])

/-- What holds of the threads and their packets. -/
structure Sound (cfg : DpiConfig) (s : Agent threads buckets) : Prop where
  numbered : Numbered cfg s.dpis
  one : ∀ i n, places s.dpis s.returned i n = takenUp s.dpis i n
  order : ∀ k, entriesOf k s.dpis.queued =
    s.handled k ++ (s.point k).entry.toList ++ s.dpis.pktQueue k ++ s.dropped k
  joined : ∀ i, s.joined i = true → s.dpis.capture i = .idle
  ended : s.instanceEnded = true → ∀ i, s.joined i = true
  told : ∀ k, s.terminate k = true → s.instanceEnded = true
  settled : ∀ k, Settled s k (s.point k)

section
variable {s t : Agent threads buckets}

/-- When the instance has ended, nothing is queued any more. -/
theorem Settled.keep {k : Nat} {p : DetectPoint threads} (settled : Settled s k p)
    (dropped : t.dropped k = s.dropped k)
    (after : s.instanceEnded = true →
      t.instanceEnded = true ∧ t.dpis.pktQueue k = s.dpis.pktQueue k) : Settled t k p := by
  match p, settled with
  | .waiting, empty | .draining false, empty | .handling false _, empty | .drained, empty
  | .ended (some _), empty => exact dropped.trans empty
  | .draining true, ⟨empty, ended⟩ | .handling true _, ⟨empty, ended⟩ =>
    exact ⟨dropped.trans empty, (after ended).1⟩
  | .ended none, ⟨empty, ended, queue⟩ =>
    exact ⟨dropped.trans empty, (after ended).1, (after ended).2.trans queue⟩
  | .destroyed lost, ⟨ended, queue, empty⟩ =>
    exact ⟨(after ended).1, (after ended).2.trans queue, fun none => dropped.trans (empty none)⟩

/-- A detection thread goes on, with its own queue. -/
theorem settled_setPoint {k : Nat} {p : DetectPoint threads}
    (settled : ∀ j, Settled s j (s.point j)) (point : t.point = Function.update s.point k p)
    (mine : Settled t k p) (dropped : ∀ j, j ≠ k → t.dropped j = s.dropped j)
    (ended : t.instanceEnded = s.instanceEnded)
    (pktQueue : ∀ j, j ≠ k → t.dpis.pktQueue j = s.dpis.pktQueue j) (j : Nat) :
    Settled t j (t.point j) := by
  by_cases same : j = k
  · subst same
    rwa [point, Function.update_self]
  · rw [point, Function.update_of_ne same]
    exact (settled j).keep (dropped j same) fun after => ⟨ended.trans after, pktQueue j same⟩

theorem Settled.empty {k : Nat} {p : DetectPoint threads} (settled : Settled s k p)
    (running : s.instanceEnded = false) : s.dropped k = [] := by
  match p, settled with
  | .waiting, empty | .draining false, empty | .handling false _, empty | .drained, empty
  | .ended (some _), empty => exact empty
  | .draining true, ⟨empty, _⟩ | .handling true _, ⟨empty, _⟩ => exact empty
  | .ended none, ⟨empty, _⟩ => exact empty
  | .destroyed _, ⟨ended, _⟩ => exact absurd ended (by simp [running])

/-- A capture thread that was deleted takes nothing up. -/
theorem Moves.idle {free : Fin threads → Prop} {dpis dpis' : DpiSystem threads buckets}
    {freed : List (Fin threads × Nat)} {pushed : List (Nat × QueueEntry threads)}
    (moves : Moves free dpis dpis' freed pushed) {i : Fin threads} (not : ¬ free i)
    (idle : dpis.capture i = .idle) : dpis'.capture i = .idle := by
  cases moves with
  | @takeUp j p may _ capture _ =>
    rw [capture, Function.update_of_ne fun same : i = j => not (same ▸ may), idle]
  | @goOn j p busy capture _ | @queue j k f busy capture _ =>
    rw [capture, Function.update_of_ne fun same : i = j => busy (same ▸ idle), idle]
  | stay capture => rw [capture, idle]

/-- A detection thread goes on without an entry. -/
theorem sound_setPoint {k : Nat} {p : DetectPoint threads} (sound : Sound cfg s)
    (entry : p.entry = (s.point k).entry) (settled : Settled s k p) :
    Sound cfg (s.setPoint k p) := by
  refine { sound with order := fun j => ?_, settled := fun j => ?_ }
  · rw [show (s.setPoint k p).dpis = s.dpis from rfl, sound.order j]
    by_cases mine : j = k
    · subst mine
      simp [Agent.setPoint, entry]
    · simp [Agent.setPoint, Function.update_of_ne mine]
  · exact settled_setPoint (t := s.setPoint k p) sound.settled rfl
      (settled.keep rfl fun ended => ⟨ended, rfl⟩) (fun _ _ => rfl) rfl (fun _ _ => rfl) j

variable [NeZero buckets] {action : DetectionQueues.Action threads buckets}

/-- When the instance has ended, only flows are changed. -/
theorem quiet_dpi {dpis : DpiSystem threads buckets} (sound : Sound cfg s)
    (takes : s.takes action = true) (ended : s.instanceEnded = true)
    (stepped : DetectionQueues.step cfg s.dpis action = some dpis) :
    dpis.queued = s.dpis.queued := by
  have joined := sound.ended ended
  cases action with
  | change f flow =>
    simp only [DetectionQueues.step] at stepped
    split at stepped
    · cases stepped
      rfl
    · cases stepped
  | _ => simp [Agent.takes, ended, joined] at takes

/-- A capture thread or the instance thread takes a step. -/
theorem sound_dpi (sound : Sound cfg s) (taken : step cfg s (.dpi action) = some t) :
    Sound cfg t := by
  simp only [step] at taken
  split at taken
  · rename_i takes
    obtain ⟨dpis, stepped, rfl⟩ := Option.map_eq_some_iff.mp taken
    obtain ⟨pushed, moves, queued, pktQueue⟩ := passes_step stepped fun k same => by
      subst same
      cases takes
    have none (ended : s.instanceEnded = true) : pushed = [] :=
      List.append_right_eq_self.mp (queued.symm.trans (quiet_dpi sound takes ended stepped))
    refine ⟨numbered_step sound.numbered stepped,
      fun i n => moves.places queued i n (sound.one i n), fun k => ?_, fun i joined => ?_,
      sound.ended, sound.told, fun k => ?_⟩
    · simp only [queued, pktQueue, entriesOf_append, sound.order k]
      cases ended : s.instanceEnded with
      | true => simp [none ended, entriesOf]
      | false => simp [(sound.settled k).empty ended]
    · refine moves.idle (fun looks => ?_) (sound.joined i joined)
      obtain ⟨template, admitted, rfl⟩ := looks
      have there : s.joined i = false := by simpa [Agent.takes] using takes
      exact absurd joined (by simp [there])
    · refine (sound.settled k).keep rfl fun ended => ⟨ended, ?_⟩
      simp [pktQueue, none ended, entriesOf]
  · cases taken

theorem sound_discard {i : Fin threads} (sound : Sound cfg s)
    (taken : step cfg s (.discard i) = some t) : Sound cfg t := by
  simp only [step] at taken
  split at taken
  · rename_i free
    cases taken
    have moves : Moves (· = i) s.dpis
        { s.dpis with packets := Function.update s.dpis.packets i (s.dpis.packets i + 1) }
        [(i, s.dpis.packets i + 1)] [] :=
      .takeUp (p := .idle) rfl free.2 (by rw [← free.2, Function.update_eq_self]) rfl
    refine { sound with
      numbered := { sound.numbered with }
      one := fun j n => moves.places (List.append_nil _).symm j n (sound.one j n)
      settled := fun k => (sound.settled k).keep rfl fun ended => ⟨ended, rfl⟩ }
  · cases taken

/-- The instance thread deletes the capture threads before it returns, and the detection
threads are told to terminate after that. -/
theorem sound_ending {a : Action threads buckets} (sound : Sound cfg s)
    (ending : (∃ i, a = .joinCapture i) ∨ a = .instanceEnds ∨ ∃ k, a = .terminate k)
    (taken : step cfg s a = some t) : Sound cfg t := by
  rcases ending with ⟨i, rfl⟩ | rfl | ⟨k, rfl⟩
  · simp only [step] at taken
    split at taken
    · rename_i stands
      cases taken
      have idle : s.dpis.capture i = .idle := by
        rcases stands.2 with idle | failed
        · exact idle
        · exact absurd (sound.numbered.stands i) (by simp [failed, Stands])
      refine { sound with
        joined := fun j joined => ?_
        ended := fun (ended : s.instanceEnded = true) => absurd stands.1 (by simp [ended])
        settled := fun k => (sound.settled k).keep rfl fun ended => ⟨ended, rfl⟩ }
      by_cases mine : j = i
      · exact mine ▸ idle
      · exact sound.joined j ((Function.update_of_ne mine true s.joined).symm.trans joined)
    · cases taken
  · simp only [step] at taken
    split at taken
    · rename_i all
      cases taken
      exact { sound with
        ended := fun _ => all.1
        told := fun _ _ => rfl
        settled := fun k => (sound.settled k).keep rfl fun _ => ⟨rfl, rfl⟩ }
    · cases taken
  · simp only [step] at taken
    split at taken
    · rename_i ended
      cases taken
      exact { sound with
        told := fun _ _ => ended
        settled := fun k => (sound.settled k).keep rfl fun ended => ⟨ended, rfl⟩ }
    · cases taken

/-- A detection thread takes an entry out of its queue. -/
theorem sound_pop {k : Nat} (sound : Sound cfg s) (taken : step cfg s (.pop k) = some t) :
    Sound cfg t := by
  simp only [step] at taken
  split at taken
  · rename_i last stands
    have settled : Settled s k (.draining last) := stands ▸ sound.settled k
    split at taken
    · rename_i empty
      cases taken
      cases last with
      | true => exact sound_setPoint sound (by rw [stands]; rfl) ⟨settled.1, settled.2, empty⟩
      | false => exact sound_setPoint sound (by rw [stands]; rfl) settled
    · rename_i entry rest queue
      simp only [DetectionQueues.step, queue, Option.map_some] at taken
      cases taken
      refine { sound with
        numbered := { sound.numbered with }
        order := fun j => ?_
        settled := settled_setPoint (p := .handling last entry) sound.settled rfl ?_
          (fun _ _ => rfl) rfl fun j other => Function.update_of_ne other .. }
      · by_cases mine : j = k
        · subst mine
          have before := sound.order j
          simp only [stands, DetectPoint.entry, Option.toList_none, List.append_nil, queue]
            at before
          simp [Agent.setPoint, DetectPoint.entry, before]
        · simpa only [Agent.setPoint, Function.update_of_ne mine] using sound.order j
      · cases last with
        | true => exact settled
        | false => exact settled
  · cases taken

/-- The entry is deleted with its packet, or left by an exception. -/
theorem sound_handled {k : Nat} {throws : Bool} (sound : Sound cfg s)
    (taken : step cfg s (.handled k throws) = some t) : Sound cfg t := by
  simp only [step] at taken
  split at taken
  · rename_i last entry stands
    have settled : Settled s k (.handling last entry) := stands ▸ sound.settled k
    split at taken
    · cases taken
      refine sound_setPoint sound (by rw [stands]; rfl) ?_
      cases last with
      | true => exact settled.1
      | false => exact settled
    · cases taken
      refine { sound with
        order := fun j => ?_
        settled := settled_setPoint (p := .draining last) sound.settled rfl ?_
          (fun _ _ => rfl) rfl fun _ _ => rfl }
      · by_cases mine : j = k
        · subst mine
          have before := sound.order j
          simp only [stands, DetectPoint.entry, Option.toList_some] at before
          simp [Agent.setPoint, DetectPoint.entry, before]
        · simpa only [Agent.setPoint, Function.update_of_ne mine] using sound.order j
      · cases last with
        | true => exact settled
        | false => exact settled
  · cases taken

/-- The destructor deletes what is in the queue. -/
theorem sound_destroy {k : Nat} (sound : Sound cfg s)
    (taken : step cfg s (.destroy k) = some t) : Sound cfg t := by
  simp only [step] at taken
  split at taken
  · rename_i lost stands
    split at taken
    · rename_i told
      cases taken
      have ended : s.instanceEnded = true := sound.told k (told.2 k told.1)
      have settled : Settled s k (.ended lost) := stands ▸ sound.settled k
      refine { sound with
        numbered := { sound.numbered with }
        order := fun j => ?_
        settled := settled_setPoint (p := .destroyed lost) sound.settled rfl ?_
          (fun j other => Function.update_of_ne other ..) rfl
          fun j other => Function.update_of_ne other .. }
      · by_cases mine : j = k
        · subst mine
          have before := sound.order j
          have empty : s.dropped j = [] := by
            cases lost with
            | none => exact settled.1
            | some entry => exact settled
          simp only [stands, DetectPoint.entry, empty] at before
          simp [Agent.setPoint, DetectPoint.entry, before]
        · simpa only [Agent.setPoint, Function.update_of_ne mine] using sound.order j
      · refine ⟨ended, Function.update_self .., fun none => ?_⟩
        subst none
        exact (Function.update_self k _ s.dropped).trans settled.2.2
    · cases taken
  · cases taken

/-- **One step** of the agent. -/
theorem sound_step {a : Action threads buckets} (sound : Sound cfg s)
    (taken : step cfg s a = some t) : Sound cfg t := by
  cases a with
  | discard i => exact sound_discard sound taken
  | dpi action => exact sound_dpi sound taken
  | joinCapture i => exact sound_ending sound (.inl ⟨i, rfl⟩) taken
  | instanceEnds => exact sound_ending sound (.inr (.inl rfl)) taken
  | terminate k => exact sound_ending sound (.inr (.inr ⟨k, rfl⟩)) taken
  | wake k =>
    simp only [step] at taken
    split at taken
    · rename_i stands
      cases taken
      have settled : Settled s k .waiting := stands ▸ sound.settled k
      exact sound_setPoint sound (by rw [stands]; rfl) settled
    · cases taken
  | pop k => exact sound_pop sound taken
  | handled k throws => exact sound_handled sound taken
  | shouldTerminate k =>
    simp only [step] at taken
    split at taken
    · rename_i stands
      cases taken
      have settled : Settled s k .drained := stands ▸ sound.settled k
      split
      · exact sound_setPoint sound (by rw [stands]; rfl) ⟨settled, sound.told k ‹_›⟩
      · exact sound_setPoint sound (by rw [stands]; rfl) settled
    · cases taken
  | destroy k => exact sound_destroy sound taken

/-- **Every packet once.** However the threads take turns, each capture thread finds a detection
thread, and each packet it has taken up is with it, was deleted by it, or was queued, in one of
these places. What was queued to a detection thread was, in that order, handled and deleted, is
being handled, waits, or was deleted by the destructor; and unless an exception has ended it
the destructor finds nothing left. -/
theorem packets_once {counters : Fin threads → Nat} (drawn : ∀ i, counters i < cfg.threadsDpi)
    (reached : Reaches (step cfg) Always
      ({ dpis := { dpiThreadId := counters } } : Agent threads buckets) s) :
    (∀ i, s.dpis.capture i ≠ .failed) ∧
      (∀ i n, places s.dpis s.returned i n = takenUp s.dpis i n) ∧
      (∀ k, entriesOf k s.dpis.queued =
        s.handled k ++ (s.point k).entry.toList ++ s.dpis.pktQueue k ++ s.dropped k) ∧
      ∀ k, s.point k = .destroyed none →
        entriesOf k s.dpis.queued = s.handled k ∧ ∀ i, s.dpis.capture i = .idle := by
  have sound : Sound cfg s := by
    refine reached.invariant (I := Sound cfg) ?_ fun _ _ _ before taken _ =>
      sound_step before taken
    exact {
      numbered := ⟨drawn, nofun, fun _ => trivial, nofun, nofun, nofun⟩
      one := fun i n => by simp [places, holds, takenUp]; omega
      order := fun k => rfl
      joined := nofun
      ended := nofun
      told := nofun
      settled := fun k => rfl }
  refine ⟨fun i failed => ?_, sound.one, sound.order, fun k destroyed => ?_⟩
  · have stands := sound.numbered.stands i
    rw [failed] at stands
    exact stands
  · have settled := sound.settled k
    rw [destroyed] at settled
    obtain ⟨ended, queue, dropped⟩ := settled
    refine ⟨?_, fun i => sound.joined i (sound.ended ended i)⟩
    rw [sound.order k, destroyed, queue, dropped rfl]
    simp [DetectPoint.entry]

end

/-- A packet comes to no flow, the next one is queued and handled, and the agent ends. -/
def twoPackets : List (Action 2 1) :=
  [.discard 0, .dpi (.lookup 0 {} true), .dpi (.want 0), .dpi (.test 0), .dpi (.assign 0),
    .dpi (.find 0), .dpi (.queuePacket 0), .wake 0, .joinCapture 0, .joinCapture 1,
    .instanceEnds, .terminate 0, .terminate 1, .pop 0, .handled 0 false, .pop 0,
    .shouldTerminate 0, .pop 0, .destroy 0]

theorem twoPackets_once : ∃ s : Agent 2 1,
    s.handled 0 = [⟨0, .packet 0 2⟩] ∧ s.returned = [(0, 1)] ∧ s.point 0 = .destroyed none ∧
      (∀ i, s.dpis.capture i ≠ .failed) ∧
      (∀ i n, places s.dpis s.returned i n = takenUp s.dpis i n) ∧
      (∀ k, entriesOf k s.dpis.queued =
        s.handled k ++ (s.point k).entry.toList ++ s.dpis.pktQueue k ++ s.dropped k) ∧
      ∀ k, s.point k = .destroyed none →
        entriesOf k s.dpis.queued = s.handled k ∧ ∀ i, s.dpis.capture i = .idle := by
  have found : (exec (step twoThreads) Always { dpis := twoCaptures } twoPackets).any (fun s =>
      s.handled 0 = [⟨0, .packet 0 2⟩] ∧ s.returned = [(0, 1)] ∧ s.point 0 = .destroyed none) =
        true := by
    decide +kernel
  obtain ⟨s, reached, ended⟩ := reached_of_exec found
  obtain ⟨handled, returned, point⟩ := of_decide_eq_true ended
  have drawn : ∀ i : Fin 2, (i : Nat) < twoThreads.threadsDpi := fun i => i.2
  exact ⟨s, handled, returned, point, packets_once drawn reached⟩

end NetifyAgent.PacketOwnership
