import Mathlib.Data.List.Perm.Basic
import NetifyAgent.DetectionRuns
import NetifyAgent.FlowPurge

/-! Leaving the agent. `DestroyCaptureThreads` makes every flow expire; after that the
detection threads take what waits in their queues, plugins drop what they refer to, and
updates visit the flows, in any order. The loop of `ndInstance::Entry` is left when an
update has brought `status.flows` to zero. -/
namespace NetifyAgent.Shutdown
open Runs FlowPurge DetectionEntry DetectionRuns FlowQueue

/-! ## The agent without capture threads -/

/-- An entry in the queue of a detection thread: its flow, and its packet if it has one. -/
abbrev Entry := List UInt8 × Option Nat

structure Draining where
  /-- The flow map, one bucket behind the other. -/
  flows : Bucket
  /-- The entries in the queues of all detection threads. -/
  waiting : List Entry
  status : FlowStatus := {}
  /-- `status.flows_purged` of an update that is not finished. -/
  erased : Nat := 0
  /-- The entries that were handled. -/
  handled : List Entry := []

/-- A round of the loop with `expire_flows` in `DestroyCaptureThreads`. -/
def forceExpire (env : PurgeEnv) (e : List UInt8 × FlowPtr) (waiting : List Entry) :
    (List UInt8 × FlowPtr) × List Entry :=
  if e.2.flow.flags.expired = false ∧ e.2.flow.flags.expiring = false then
    let done := expireFlow env e.2
    ((e.1, done.1), if done.2 then waiting ++ [(e.1, none)] else waiting)
  else (e, waiting)

def forceFlows (env : PurgeEnv) : Bucket → List Entry → Bucket × List Entry
  | [], waiting => ([], waiting)
  | e :: rest, waiting =>
    let forced := forceExpire env e waiting
    let others := forceFlows env rest forced.2
    (forced.1 :: others.1, others.2)

namespace Draining
variable (s : Draining)

/-- `DestroyCaptureThreads` with `expire_flows`, when the threads are deleted. -/
def destroyCaptureThreads (env : PurgeEnv) : Draining :=
  let forced := forceFlows env s.flows s.waiting
  { s with flows := forced.1, waiting := forced.2 }

def find (digest : List UInt8) : Option FlowPtr :=
  (s.flows.find? fun e => e.1 = digest).map Prod.snd

def put (digest : List UInt8) (p : FlowPtr) : Draining :=
  { s with flows := s.flows.map fun e => if e.1 = digest then (digest, p) else e }

def erase (digest : List UInt8) : Draining :=
  { s with flows := s.flows.filter fun e => e.1 ≠ digest, erased := s.erased + 1 }

end Draining

/-- The steps of the threads that are left. -/
inductive Action where
  /-- A detection thread takes one of the entries that wait. -/
  | detect (i : Nat) (s : Services) (a : Answers)
  /-- Plugins drop or take references of a flow. -/
  | refer (digest : List UInt8) (others : Nat)
  /-- An update visits a flow. -/
  | visit (digest : List UInt8) (env : PurgeEnv)
  /-- The update is finished. -/
  | finish

/-- It is `none` where the detection thread faults. -/
def step (maxDetectionPkts : Nat) (s : Draining) : Action → Option Draining
  | .detect i services a => do
    let entry ← s.waiting[i]?
    let left := { s with waiting := s.waiting.eraseIdx i, handled := s.handled ++ [entry] }
    match s.find entry.1 with
    | none => some left
    | some p =>
      match processEntry maxDetectionPkts services a entry.2 ⟨p.flow, []⟩ with
      | .ok d => some (left.put entry.1 { flow := d.flow, others := p.others - 1 })
      | .error _ => none
  | .refer digest others => do
    let p ← s.find digest
    if s.waiting.countP (fun entry => entry.1 = digest) ≤ others then
      some (s.put digest { p with others })
    else none
  | .visit digest env => do
    let p ← s.find digest
    let s := if (age env p).2 then { s with waiting := s.waiting ++ [(digest, none)] } else s
    match (FlowPurge.visit env { status := s.status } p).1 with
    | some p => some (s.put digest p)
    | none => some (s.erase digest)
  | .finish =>
    some { s with status := { s.status with flows := s.status.flows - s.erased }, erased := 0 }

/-! ## Flows that are to end -/

/-- A flow that is expired, or will be when an entry that waits is handled. -/
def Ends (waiting : List Entry) (e : List UInt8 × FlowPtr) : Prop :=
  e.2.flow.flags.expired = true ∨
    e.2.flow.flags.expiring = true ∧ ∃ packet, (e.1, packet) ∈ waiting

/-- The agent before it is left: the entry of a flow that is expiring waits, and the flows
are counted. -/
structure Steady (s : Draining) : Prop where
  keys : (s.flows.map Prod.fst).Nodup
  expiring : ∀ e ∈ s.flows, e.2.flow.flags.expired = false → e.2.flow.flags.expiring = true →
    ∃ packet, (e.1, packet) ∈ s.waiting
  counted : s.status.flows = s.flows.length
  finished : s.erased = 0
  unhandled : s.handled = []

structure Doomed (entries : List Entry) (s : Draining) : Prop where
  keys : (s.flows.map Prod.fst).Nodup
  ends : ∀ e ∈ s.flows, Ends s.waiting e
  counted : s.status.flows = s.flows.length + s.erased
  entries : (s.handled ++ s.waiting).Perm entries

/-! ## One entry -/

/-- **Expiry.** An entry makes a flow that is expiring expired, and expires no other. -/
theorem processEntry_expiry {maxDetectionPkts : Nat} {s : Services} {a : Answers}
    {packet : Option Nat} {d d' : Det}
    (ran : processEntry maxDetectionPkts s a packet d = .ok d') :
    d'.flow.flags.expired = (d.flow.flags.expired || d.flow.flags.expiring) ∧
      (d.flow.flags.expiring = false → d'.flow.flags.expiring = false) := by
  obtain ⟨e, f, takenE, ended, rfl⟩ := processEntry_ok ran
  have same : e.flow.flags.expired = d.flow.flags.expired ∧
      e.flow.flags.expiring = d.flow.flags.expiring := by
    rcases takenE with ⟨-, traced⟩ | ⟨-, rfl⟩
    · have control := traced.control.trans (taken_control d)
      simp only [Flow.control, Control.mk.injEq] at control
      exact ⟨control.2.2.1, control.2.1⟩
    · exact ⟨rfl, rfl⟩
  rw [released_flags, ← same.1, ← same.2]
  rcases ended with ⟨-, g, traced, -, rfl⟩ | ⟨goesOn, rfl⟩
  · have control : g.flow.flags.expired = e.flow.flags.expired ∧
        g.flow.flags.expiring = e.flow.flags.expiring := by
      have handed := traced.control
      cases packet with
      | none =>
        simp only [ending_none, Flow.control, Control.mk.injEq] at handed
        exact ⟨handed.2.2.1, handed.2.1⟩
      | some id =>
        rw [ending_control e (ending_some_ndpi e id)] at handed
        simp only [Flow.control, Control.mk.injEq] at handed
        exact ⟨handed.2.2.1, handed.2.1⟩
    rw [← control.1, ← control.2]
    show g.flow.settleExpiry.flags.expired = _ ∧ (_ → g.flow.settleExpiry.flags.expiring = false)
    cases expiring : g.flow.flags.expiring <;> simp [Flow.settleExpiry, expiring]
  · have quiet : ¬ (f.flow.flags.expiring = true ∧ f.flow.flags.expired = false) := fun both =>
      absurd goesOn (by simp [endsDetection, both])
    cases expiring : f.flow.flags.expiring with
    | false => exact ⟨(Bool.or_false _).symm, id⟩
    | true =>
      have expired := eq_true_of_ne_false fun running => quiet ⟨expiring, running⟩
      exact ⟨by rw [expired]; rfl, id⟩

/-! ## Queues -/

/-- A flow that is expiring and not expired has its entry in the queue, unless `ExpireFlow`
is about to queue it. -/
def Queued (q : FlowQueue) : Prop :=
  q.fault = none → q.det.flow.flags.expired = false → q.det.flow.flags.expiring = true →
    none ∈ q.queue ∨ q.expire = .marked

theorem queued_step {maxDetectionPkts : Nat} {q q' : FlowQueue} {action : NetifyAgent.Action}
    (queued : Queued q) (taken : FlowQueue.step maxDetectionPkts q action = some q') :
    Queued q' := by
  simp only [FlowQueue.step] at taken
  split at taken
  · next clear =>
    replace queued := queued clear
    cases action with
    | dns m =>
      simp only [act] at taken
      split at taken
      · cases taken
        have flags : (processDnsPacket m.pointerByte m.fuel m.msg m.pkt m.pktLen m.proto
            q.det).1.flow.flags = q.det.flow.flags := by
          rw [(Dns.read_processDnsPacket m.pointerByte m.fuel m.msg m.pkt m.pktLen m.proto
            q.det).frame]
        intro _ expired expiring
        exact queued (flags ▸ expired) (flags ▸ expiring)
      · cases taken
    | reset =>
      simp only [act] at taken
      split at taken
      · cases taken
        intro _ _ expiring
        exact absurd expiring Bool.false_ne_true
      · cases taken
    | accept =>
      simp only [act] at taken
      split at taken
      · cases taken
        exact fun _ => queued
      · cases taken
    | queuePacket =>
      simp only [act] at taken
      split at taken
      · cases taken
        intro _ expired expiring
        exact (queued expired expiring).imp_left (List.mem_append_left _)
      · cases taken
    | expireTest =>
      simp only [act] at taken
      split at taken
      · next idle =>
        split at taken
        · cases taken
          intro _ expired
          exact absurd expired.symm Bool.false_ne_true
        · cases taken
          intro _ expired expiring
          exact .inl ((queued expired expiring).resolve_right (by simp [idle]))
      · cases taken
    | expireMark =>
      simp only [act] at taken
      split at taken
      · next incomplete =>
        split at taken
        · cases taken
          intro _ expired expiring
          exact .inl ((queued expired expiring).resolve_right (by simp [incomplete]))
        · cases taken
          exact fun _ _ _ => .inr rfl
      · cases taken
    | expireQueue found =>
      simp only [act] at taken
      split at taken
      · split at taken
        · cases taken
          exact fun _ _ _ => .inl (List.mem_append_right _ List.mem_cons_self)
        · cases taken
          intro _ expired
          exact absurd expired.symm Bool.false_ne_true
      · cases taken
    | detect services a =>
      simp only [act] at taken
      split at taken
      · cases taken
      · next packet rest waits =>
        split at taken
        · next d ran =>
          cases taken
          obtain ⟨ends, stays⟩ := processEntry_expiry ran
          intro _ expired expiring
          have both := ends.symm.trans expired
          rw [Bool.or_eq_false_iff] at both
          exact absurd (stays both.2) (ne_false_of_eq_true expiring)
        · cases taken
          intro faultless
          cases faultless
  · cases taken

/-- **Flows that are expiring** have an entry that waits, in every run of the threads. -/
theorem queued_reached {maxDetectionPkts : Nat} {template : Flow} {q : FlowQueue}
    (reached : Reaches (FlowQueue.step maxDetectionPkts) Always (fresh template) q) : Queued q :=
  reached.invariant (fun _ _ expiring => absurd expiring Bool.false_ne_true)
    fun _ _ _ queued taken _ => queued_step queued taken

/-! ## Forced expiry -/

section
variable {env : PurgeEnv} {p : FlowPtr} {waiting waiting' : List Entry} {entries : List Entry}

theorem Ends.mono {e : List UInt8 × FlowPtr} (ends : Ends waiting e)
    (grows : ∀ entry ∈ waiting, entry ∈ waiting') : Ends waiting' e :=
  ends.imp_right fun ⟨expiring, packet, waits⟩ => ⟨expiring, packet, grows _ waits⟩

/-- A flow that is expired or expiring is not queued again. -/
theorem expireFlow_expiring (expiring : p.flow.flags.expiring = true) :
    expireFlow env p = (p, false) ∨ expireFlow env p = ({ p with flow := p.flow.setExpired }, false) := by
  unfold expireFlow
  split
  · exact .inr rfl
  · rw [if_neg (by rw [expiring]; exact nofun)]
    exact .inl rfl

theorem forceExpire_spec (env : PurgeEnv) (e : List UInt8 × FlowPtr)
    (known : e.2.flow.flags.expired = false → e.2.flow.flags.expiring = true →
      ∃ packet, (e.1, packet) ∈ waiting) :
    (forceExpire env e waiting).1.1 = e.1 ∧
      Ends (forceExpire env e waiting).2 (forceExpire env e waiting).1 ∧
      ∀ entry ∈ waiting, entry ∈ (forceExpire env e waiting).2 := by
  obtain ⟨digest, p⟩ := e
  unfold forceExpire
  split
  · next fresh =>
    refine ⟨rfl, ?_, ?_⟩
    · unfold expireFlow
      split
      · exact .inl rfl
      · rw [if_pos fresh.2]
        dsimp only
        split
        · exact .inr ⟨rfl, none, List.mem_append_right _ List.mem_cons_self⟩
        · exact .inl rfl
    · intro entry waits
      dsimp only
      split
      · exact List.mem_append_left _ waits
      · exact waits
  · next set =>
    refine ⟨rfl, ?_, fun _ waits => waits⟩
    by_cases expired : p.flow.flags.expired = true
    · exact .inl expired
    · have running := eq_false_of_ne_true expired
      have expiring := eq_true_of_ne_false fun idle => set ⟨running, idle⟩
      exact .inr ⟨expiring, known running expiring⟩

/-- **The forced expiry** leaves every flow expired, or expiring with an entry that waits. -/
theorem forceFlows_spec (env : PurgeEnv) (flows : Bucket) (waiting : List Entry)
    (known : ∀ e ∈ flows, e.2.flow.flags.expired = false → e.2.flow.flags.expiring = true →
      ∃ packet, (e.1, packet) ∈ waiting) :
    (forceFlows env flows waiting).1.map Prod.fst = flows.map Prod.fst ∧
      (∀ e ∈ (forceFlows env flows waiting).1, Ends (forceFlows env flows waiting).2 e) ∧
      ∀ entry ∈ waiting, entry ∈ (forceFlows env flows waiting).2 := by
  induction flows generalizing waiting with
  | nil => exact ⟨rfl, by simp [forceFlows], fun _ waits => waits⟩
  | cons e rest ih =>
    obtain ⟨key, ends, grows⟩ := forceExpire_spec env e (known e List.mem_cons_self)
    obtain ⟨keys, others, more⟩ := ih (forceExpire env e waiting).2
      fun e' member running expiring =>
        have ⟨packet, waits⟩ := known e' (List.mem_cons_of_mem _ member) running expiring
        ⟨packet, grows _ waits⟩
    refine ⟨?_, ?_, fun entry waits => more _ (grows _ waits)⟩
    · rw [forceFlows, List.map_cons, List.map_cons, key, keys]
    · intro e' member
      rcases List.mem_cons.mp member with rfl | later
      · exact ends.mono more
      · exact others e' later

theorem doomed_destroy {start : Draining} (steady : Steady start) :
    Doomed (start.destroyCaptureThreads env).waiting (start.destroyCaptureThreads env) := by
  obtain ⟨keys, ends, -⟩ := forceFlows_spec env start.flows start.waiting steady.expiring
  have length := congrArg List.length keys
  rw [List.length_map, List.length_map] at length
  refine ⟨keys ▸ steady.keys, ends, ?_, ?_⟩
  · show start.status.flows = (forceFlows env start.flows start.waiting).1.length + start.erased
    rw [length, steady.counted, steady.finished, Nat.add_zero]
  · show (start.handled ++ _).Perm _
    rw [steady.unhandled]
    exact .refl _

end

/-! ## Steps -/

section
variable {env : PurgeEnv} {s t : Draining} {digest : List UInt8} {p q : FlowPtr}
  {entries : List Entry}

theorem mem_of_find (found : s.find digest = some p) : (digest, p) ∈ s.flows := by
  obtain ⟨⟨key, p⟩, first, rfl⟩ := Option.map_eq_some_iff.mp found
  have here : key = digest := by simpa using List.find?_some first
  exact here ▸ List.mem_of_find?_eq_some first

theorem put_keys (digest : List UInt8) (q : FlowPtr) :
    (s.put digest q).flows.map Prod.fst = s.flows.map Prod.fst := by
  show (s.flows.map _).map Prod.fst = _
  rw [List.map_map]
  refine List.map_congr_left fun e _ => ?_
  by_cases here : e.1 = digest
  · simp [here]
  · simp [here]

/-- A flow that has changed, and the others. -/
theorem mem_put {e : List UInt8 × FlowPtr} (member : e ∈ (s.put digest q).flows) :
    e = (digest, q) ∨ e.1 ≠ digest ∧ e ∈ s.flows := by
  obtain ⟨e, old, rfl⟩ := List.mem_map.mp member
  by_cases here : e.1 = digest
  · exact .inl (if_pos here)
  · exact .inr (by rw [if_neg here]; exact ⟨here, old⟩)

theorem doomed_put (doomed : Doomed entries s) (ends : Ends s.waiting (digest, q)) :
    Doomed entries (s.put digest q) where
  keys := put_keys (s := s) digest q ▸ doomed.keys
  ends e member := by
    rcases mem_put member with rfl | ⟨-, other⟩
    · exact ends
    · exact doomed.ends e other
  counted := by
    have length := congrArg List.length (put_keys (s := s) digest q)
    rw [List.length_map, List.length_map] at length
    rw [length]
    exact doomed.counted
  entries := doomed.entries

theorem doomed_erase (doomed : Doomed entries s) (member : (digest, p) ∈ s.flows) :
    Doomed entries (s.erase digest) where
  keys := doomed.keys.sublist (List.filter_sublist.map _)
  ends e left := doomed.ends e (List.mem_of_mem_filter left)
  counted := by
    have once : s.flows.countP (fun e => decide (e.1 = digest)) = 1 := by
      have one : (s.flows.map Prod.fst).count digest = 1 := by
        rw [doomed.keys.count, if_pos (List.mem_map_of_mem member)]
      rw [List.count, List.countP_map] at one
      rw [← one]
      exact List.countP_congr fun e _ => by simp
    have parts := List.length_eq_countP_add_countP (fun e => decide (e.1 = digest)) (l := s.flows)
    have rest : (s.erase digest).flows.length =
        s.flows.countP (fun e => decide ¬ decide (e.1 = digest) = true) := by
      rw [List.countP_eq_length_filter]
      exact congrArg List.length (List.filter_congr fun e _ => by simp)
    have counted := doomed.counted
    show s.status.flows = (s.erase digest).flows.length + (s.erased + 1)
    omega
  entries := doomed.entries

/-- Handling an entry: its flow is expired then, and the entries of other flows still wait. -/
theorem doomed_detect {maxDetectionPkts i : Nat} {services : Services} {a : Answers}
    (doomed : Doomed entries s) (taken : step maxDetectionPkts s (.detect i services a) = some t) :
    Doomed entries t := by
  simp only [step, Option.bind_eq_bind, Option.bind_eq_some_iff] at taken
  obtain ⟨entry, waits, taken⟩ := taken
  obtain ⟨within, here⟩ := List.getElem?_eq_some_iff.mp waits
  have order : ((s.handled ++ [entry]) ++ s.waiting.eraseIdx i).Perm entries := by
    rw [List.append_assoc, List.singleton_append, ← here]
    exact ((List.getElem_cons_eraseIdx_perm within).append_left s.handled).trans doomed.entries
  have others (e : List UInt8 × FlowPtr) (ends : Ends s.waiting e) (other : e.1 ≠ entry.1) :
      Ends (s.waiting.eraseIdx i) e := by
    refine ends.imp_right fun ⟨expiring, packet, waits⟩ => ⟨expiring, packet, ?_⟩
    rcases List.mem_cons.mp ((List.getElem_cons_eraseIdx_perm within).mem_iff.mpr waits) with
      same | later
    · exact absurd (congrArg Prod.fst (same.trans here)) other
    · exact later
  cases found : s.find entry.1 with
  | none =>
    simp only [found] at taken
    cases taken
    refine ⟨doomed.keys, fun e member => others e (doomed.ends e member) fun same => ?_,
      doomed.counted, order⟩
    have missing := Option.map_eq_none_iff.mp found
    exact absurd same (by simpa using List.find?_eq_none.mp missing e member)
  | some p =>
    simp only [found] at taken
    split at taken
    · next d ran =>
      cases taken
      have expired : d.flow.flags.expired = true := by
        rw [(processEntry_expiry ran).1]
        rcases doomed.ends _ (mem_of_find found) with expired | ⟨expiring, -⟩
        · exact Bool.or_eq_true_iff.mpr (.inl expired)
        · exact Bool.or_eq_true_iff.mpr (.inr expiring)
      refine ⟨put_keys (s := s) _ _ ▸ doomed.keys, fun e member => ?_, ?_, order⟩
      · rcases mem_put member with rfl | ⟨other, old⟩
        · exact .inl expired
        · exact others e (doomed.ends e old) other
      · have length := congrArg List.length (put_keys (s := s) entry.1
          { flow := d.flow, others := p.others - 1 })
        rw [List.length_map, List.length_map] at length
        exact doomed.counted.trans (congrArg (· + s.erased) length.symm)
    · cases taken

/-- An update does not expire such a flow again. -/
theorem age_doomed (env : PurgeEnv) (set : p.flow.flags.expired = true ∨ p.flow.flags.expiring = true) :
    age env p = (p, false) ∨ age env p = ({ p with flow := p.flow.setExpired }, false) := by
  unfold age
  split
  · next idle =>
    exact expireFlow_expiring (set.resolve_left (ne_true_of_eq_false idle.1))
  · exact .inl rfl

theorem kept_doomed {waiting : List Entry} (ends : Ends waiting (digest, p)) :
    Ends waiting (digest, kept env p) := by
  have flags : (kept env p).flow.flags = (age env p).1.flow.flags := by
    unfold kept
    split <;> rfl
  rcases age_doomed env (ends.imp_right And.left) with same | expired
  · rw [same] at flags
    exact ends.imp (flags ▸ ·) fun ⟨expiring, waits⟩ => ⟨flags ▸ expiring, waits⟩
  · rw [expired] at flags
    exact .inl (flags ▸ rfl)

theorem doomed_step {maxDetectionPkts : Nat} {action : Action} (doomed : Doomed entries s)
    (taken : step maxDetectionPkts s action = some t) : Doomed entries t := by
  cases action with
  | detect i services a => exact doomed_detect doomed taken
  | refer digest others =>
    simp only [step, Option.bind_eq_bind, Option.bind_eq_some_iff] at taken
    obtain ⟨p, found, taken⟩ := taken
    split at taken
    · cases taken
      have ends : Ends s.waiting (digest, p) := doomed.ends _ (mem_of_find found)
      exact doomed_put doomed ends
    · cases taken
  | visit digest env =>
    simp only [step, Option.bind_eq_bind, Option.bind_eq_some_iff] at taken
    obtain ⟨p, found, taken⟩ := taken
    have member := mem_of_find found
    have ends := doomed.ends _ member
    have silent : (age env p).2 = false := by
      rcases age_doomed env (ends.imp_right And.left) with same | expired
      · rw [same]
      · rw [expired]
    rw [silent, if_neg Bool.false_ne_true, (visit_spec env _ p).1] at taken
    split at taken
    · next q stays =>
      cases taken
      split at stays
      · cases stays
      · cases stays
        exact doomed_put doomed (kept_doomed ends)
    · cases taken
      exact doomed_erase doomed member
  | finish =>
    cases taken
    refine ⟨doomed.keys, doomed.ends, ?_, doomed.entries⟩
    have counted := doomed.counted
    show s.status.flows - s.erased = s.flows.length + 0
    omega

/-! ## The last update -/

theorem walk_flows (env : PurgeEnv) (bucket : Bucket) (pass : Pass) :
    (walk env bucket pass).2.status.flows = pass.status.flows := by
  induction bucket generalizing pass with
  | nil => rfl
  | cons e rest ih =>
    have visited : (FlowPurge.visit env pass e.2).2.status.flows = pass.status.flows := by
      unfold FlowPurge.visit settle countExpiring countUse
      split_ifs <;> rfl
    have later := (ih (FlowPurge.visit env pass e.2).2).trans visited
    rw [walk]
    split <;> exact later

theorem foldl_flows (env : PurgeEnv) (buckets : List Bucket) (done : List Bucket × Pass) :
    (buckets.foldl (purgeBucket env) done).2.status.flows = done.2.status.flows := by
  induction buckets generalizing done with
  | nil => rfl
  | cons bucket rest ih => rw [List.foldl_cons, ih, purgeBucket, walk_flows]

/-- An update where every flow is expired and nobody else refers to one. -/
theorem processFlows_last (env : PurgeEnv) (buckets : List Bucket) (status : FlowStatus)
    (gone : ∀ e ∈ buckets.flatten, Gone env e.2) :
    (processFlows env buckets status).1.flatten = [] ∧
      (processFlows env buckets status).2.status.flows = status.flows - buckets.flatten.length := by
  have done := foldl_done env buckets { status := { status with
    flowsPurged := 0, flowsExpiring := 0, flowsExpired := 0, flowsActive := 0, flowsInUse := 0 } }
  have flows := foldl_flows env buckets ([], { status := { status with
    flowsPurged := 0, flowsExpiring := 0, flowsExpired := 0, flowsActive := 0, flowsInUse := 0 } })
  constructor
  · show (buckets.foldl (purgeBucket env) ([], _)).1.flatten = []
    rw [done.left, List.flatten_eq_nil_iff]
    intro left member
    obtain ⟨bucket, inMap, rfl⟩ := List.mem_map.mp member
    refine List.filterMap_eq_nil_iff.mpr fun e inBucket => if_pos ?_
    exact gone e (List.mem_flatten.mpr ⟨bucket, inMap, inBucket⟩)
  · show (buckets.foldl (purgeBucket env) ([], _)).2.status.flows -
      (buckets.foldl (purgeBucket env) ([], _)).2.status.flowsPurged = _
    have all : count (Gone env) buckets.flatten = buckets.flatten.length :=
      List.countP_eq_length.mpr fun e member => decide_eq_true (gone e member)
    rw [flows, done.purged, all, Nat.zero_add]

/-- **Leaving the agent.** When its capture threads are destroyed and every flow is made to
expire, then in every order in which detection threads, plugins and updates go on, no further
entry is queued and none is handled twice; between updates `status.flows` is zero exactly if
the map is empty; and once nothing waits and only the map refers to its flows, the next
update empties it. -/
theorem shutdown_drains {maxDetectionPkts : Nat} {start s : Draining} {env : PurgeEnv}
    (steady : Steady start) (reached : Reaches (step maxDetectionPkts) Always
      (start.destroyCaptureThreads env) s) :
    (s.handled ++ s.waiting).Perm (start.destroyCaptureThreads env).waiting ∧
      (s.erased = 0 → (s.status.flows = 0 ↔ s.flows = [])) ∧
      ∀ (update : PurgeEnv) (buckets : List Bucket), buckets.flatten = s.flows → s.erased = 0 →
        s.waiting = [] → (∀ e ∈ s.flows, e.2.others = 0) →
          (processFlows update buckets s.status).1.flatten = [] ∧
            (processFlows update buckets s.status).2.status.flows = 0 := by
  have doomed : Doomed (start.destroyCaptureThreads env).waiting s :=
    reached.invariant (doomed_destroy steady) fun _ _ _ doomed taken _ => doomed_step doomed taken
  have counted := doomed.counted
  refine ⟨doomed.entries, fun between => ?_, ?_⟩
  · rw [between, Nat.add_zero] at counted
    rw [counted, List.length_eq_zero_iff]
  · rintro update buckets same between quiet alone
    have gone (e : List UInt8 × FlowPtr) (member : e ∈ buckets.flatten) : Gone update e.2 := by
      rw [same] at member
      have expired : e.2.flow.flags.expired = true := by
        rcases doomed.ends e member with expired | ⟨-, packet, waits⟩
        · exact expired
        · rw [quiet] at waits
          cases waits
      have still : age update e.2 = (e.2, false) := by
        unfold age
        rw [if_neg fun idle => absurd expired (ne_true_of_eq_false idle.1)]
      exact ⟨by rw [Expired, still]; exact expired, by rw [still]; exact alone e member⟩
    obtain ⟨empty, flows⟩ := processFlows_last update buckets s.status gone
    refine ⟨empty, flows.trans ?_⟩
    rw [same, counted, between]
    omega

/-- Detection threads of number zero, and one reference for each entry. -/
def oneThread : PurgeEnv where
  now := 1000
  ttlIdleFlow := 30
  ttlIdleTcpFlow := 300
  threadDetection := fun id => id == 0
  taken := fun _ => 1

/-- A flow with a packet that waits, and one whose detection is complete. -/
def twoFlows : Draining where
  flows := [([0], ⟨{ ipVersion := 4, dpiThreadId := 0 }, 1⟩),
    ([1], ⟨{ ipVersion := 4, flags := { detectionComplete := true } }, 0⟩)]
  waiting := [([0], some 0)]
  status := { flows := 2 }

theorem twoFlows_steady : Steady twoFlows where
  keys := by decide
  expiring := by
    intro e member _ expiring
    simp only [twoFlows, List.mem_cons, List.not_mem_nil, or_false] at member
    rcases member with rfl | rfl <;> cases expiring
  counted := rfl
  finished := rfl
  unhandled := rfl

/-- An update comes before the detection thread has taken the two entries of the first flow. -/
theorem shutdown_twoFlows : ∃ s,
    Reaches (step 32) Always (twoFlows.destroyCaptureThreads oneThread) s ∧ s.flows ≠ [] ∧
      (s.handled ++ s.waiting).Perm [([0], some 0), ([0], none)] ∧
      (processFlows oneThread [s.flows] s.status).2.status.flows = 0 := by
  have found : (exec (step 32) Always (twoFlows.destroyCaptureThreads oneThread)
      [.visit [0] oneThread, .detect 0 .bare (.always Proto.http {}), .visit [1] oneThread,
        .finish, .detect 0 .bare (.always Proto.http {})]).any (fun s => s.flows.length == 1 &&
          s.erased == 0 && s.waiting == [] && s.flows.all fun e => e.2.others == 0) = true := by
    decide
  obtain ⟨s, reached, holds⟩ := reached_of_exec found
  simp only [Bool.and_eq_true, beq_iff_eq, List.all_eq_true] at holds
  obtain ⟨⟨⟨one, between⟩, quiet⟩, alone⟩ := holds
  obtain ⟨account, -, last⟩ := shutdown_drains twoFlows_steady reached
  refine ⟨s, reached, fun none => ?_, account, ?_⟩
  · rw [none] at one
    cases one
  · exact (last oneThread [s.flows] (List.append_nil _) between quiet alone).2

end

end NetifyAgent.Shutdown
