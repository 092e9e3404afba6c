import NetifyAgent.Accounting
import NetifyAgent.KeySymmetry

/-! One flow on a capture thread. Its packets come between others, and other threads may change
the flow map at any time, but they leave alone what only the capture thread counts in the
flow. A run keeps the packets of the flow, each with the thread before and after it. -/
namespace NetifyAgent.OneFlow
open NetifyAgent.Dissection NetifyAgent.Runs NetifyAgent.KeyHistory

/-- What tells a flow from others: its digest, and the endpoints it stands for. -/
structure Identity where
  digest : List UInt8
  lower : List UInt8 × Nat
  upper : List UInt8 × Nat

/-- A packet of the flow, with the thread before and after it. -/
structure Taken where
  packet : Packet
  headers : Headers
  before : CaptureThread
  after : CaptureThread

structure FlowRun where
  thread : CaptureThread := {}
  /-- The packets of the flow so far. -/
  log : List Taken := []

inductive FlowAction where
  /-- A packet of the flow. -/
  | mine (fuel : Nat) (p : Packet) (h : Headers)
  | other (action : CaptureAction)

def step (cfg : CaptureConfig) (s : CaptureServices) (r : FlowRun) : FlowAction → Option FlowRun
  | .mine fuel p h => (CaptureThread.step cfg s r.thread (.packet fuel p)).map fun t =>
      { thread := t, log := r.log ++ [⟨p, h, r.thread, t⟩] }
  | .other action => (CaptureThread.step cfg s r.thread action).map fun t => { r with thread := t }

/-- The counters that only the capture thread counts. -/
def counters (s : FlowStats) : FlowStats := { s with detectionPackets := 0 }

/-- What a flow keeps while no packet of it comes. -/
structure Kept (nf nf' : Flow) : Prop where
  ipProtocol : nf'.ipProtocol = nf.ipProtocol
  lowerAddr : nf'.lowerAddr = nf.lowerAddr
  upperAddr : nf'.upperAddr = nf.upperAddr
  tcpLastSeq : nf'.tcpLastSeq = nf.tcpLastSeq
  counters : counters nf'.stats = counters nf.stats

/-- Something else happens than a packet of the flow, or a reset of it. -/
structure Undisturbed (digest : List UInt8) (t t' : CaptureThread) : Prop where
  absent : t.flowBuckets digest = none → t'.flowBuckets digest = none
  kept : ∀ nf, t.flowBuckets digest = some nf →
    ∃ nf', t'.flowBuckets digest = some nf' ∧ Kept nf nf'

/-- The thread has just counted a packet of the flow, and has not reset the flow. -/
structure Joined (id : Identity) (t : CaptureThread) : Prop where
  digest : t.flow.digestLower = id.digest
  lower : t.flow.lowerAddr.endpoint = id.lower
  upper : t.flow.upperAddr.endpoint = id.upper
  found : ∃ nf, t.flowBuckets id.digest = some nf ∧ ∀ flow : Flow, nf ≠ flow.restart

/-- The steps of a run of one flow. -/
def Regular (cfg : CaptureConfig) (s : CaptureServices) (id : Identity) (r : FlowRun) :
    FlowAction → Prop
  | .mine fuel p h => (dissect s.extensions cfg.dlType p fuel).outcome = .ok h ∧
      ∀ t ∈ CaptureThread.step cfg s r.thread (.packet fuel p), Joined id t
  | .other action => ∀ t ∈ CaptureThread.step cfg s r.thread action,
      Undisturbed id.digest r.thread t

/-- A thread before the first packet of the flow, with a fresh template. -/
structure Before (id : Identity) (start : FlowRun) : Prop where
  fresh : start.thread.flow = {}
  absent : start.thread.flowBuckets id.digest = none
  log : start.log = []

/-- The states of the runs of one flow. -/
def Run (cfg : CaptureConfig) (s : CaptureServices) (id : Identity) (start r : FlowRun) : Prop :=
  Before id start ∧ Reaches (step cfg s) (Regular cfg s id) start r

/-! ## What a packet does to its flow -/

/-- The error branch of the sequence check. -/
def Late (p : Packet) (h : Headers) (nf : Flow) : Prop :=
  nf.ipProtocol = IPPROTO_TCP.toNat ∧ CaptureThread.thSeq p h ≤ nf.tcpLastSeq

instance (p : Packet) (h : Headers) (nf : Flow) : Decidable (Late p h nf) :=
  inferInstanceAs (Decidable (_ ∧ _))

/-- What a packet does to its flow. -/
structure Counts (p : Packet) (h : Headers) (nf nf' : Flow) : Prop where
  ipProtocol : nf'.ipProtocol = nf.ipProtocol
  lowerAddr : nf'.lowerAddr = nf.lowerAddr
  upperAddr : nf'.upperAddr = nf.upperAddr
  tcpLastSeq :
    nf'.tcpLastSeq = if Late p h nf then CaptureThread.thSeq p h else nf.tcpLastSeq
  counters : counters nf'.stats =
    counters (CaptureThread.FlowStats.seen nf.stats h.ip.addrCmp p.length.toNat)

section
variable {cfg : CaptureConfig} {s : CaptureServices} {p : Packet} {h : Headers} {nf nf' nf'' : Flow}
  {t t' : CaptureThread}

theorem counters_seen (same : counters nf'.stats = counters nf.stats) (addrCmp : Int)
    (length : Nat) : counters (CaptureThread.FlowStats.seen nf'.stats addrCmp length) =
      counters (CaptureThread.FlowStats.seen nf.stats addrCmp length) := by
  obtain ⟨lowerBytes, upperBytes, totalBytes, lowerPackets, upperPackets, totalPackets, _⟩ :=
    FlowStats.mk.inj same
  unfold counters CaptureThread.FlowStats.seen
  simp only
  split <;> simp [*]

theorem late_kept (kept : Kept nf nf') : Late p h nf' ↔ Late p h nf := by
  unfold Late
  rw [kept.ipProtocol, kept.tcpLastSeq]

/-- What a packet does to its flow may be said of the flow as it was before. -/
theorem Counts.after (counts : Counts p h nf' nf'') (kept : Kept nf nf') : Counts p h nf nf'' where
  ipProtocol := counts.ipProtocol.trans kept.ipProtocol
  lowerAddr := counts.lowerAddr.trans kept.lowerAddr
  upperAddr := counts.upperAddr.trans kept.upperAddr
  tcpLastSeq := by
    rw [counts.tcpLastSeq, kept.tcpLastSeq]
    simp only [late_kept kept]
  counters := counts.counters.trans (counters_seen kept.counters _ _)

theorem tcpSeen_flow (nf : Flow) (stats : PacketStats) :
    ∃ flags, (CaptureThread.tcpSeen p h nf stats).1 =
      { nf with
        flags
        tcpLastSeq := if Late p h nf then CaptureThread.thSeq p h else nf.tcpLastSeq } := by
  unfold CaptureThread.tcpSeen
  by_cases tcp : nf.ipProtocol = IPPROTO_TCP.toNat
  · have same : Late p h nf ↔ CaptureThread.thSeq p h ≤ nf.tcpLastSeq := and_iff_right tcp
    simp only [if_pos tcp, same]
    split
    · split
      · exact ⟨_, rfl⟩
      · exact ⟨_, rfl⟩
    · split
      · exact ⟨_, rfl⟩
      · exact ⟨_, rfl⟩
  · have early : ¬ Late p h nf := fun late => tcp late.1
    rw [if_neg tcp, if_neg early]
    exact ⟨_, rfl⟩

theorem tcpSeen_errors (nf : Flow) (stats : PacketStats) :
    (CaptureThread.tcpSeen p h nf stats).2.tcpSeqErrors =
      stats.tcpSeqErrors + if Late p h nf then 1 else 0 := by
  unfold CaptureThread.tcpSeen Late
  by_cases tcp : nf.ipProtocol = IPPROTO_TCP.toNat
  · simp only [tcp, true_and, if_true]
    split <;> split <;> rfl
  · simp only [tcp, false_and, if_false]
    rfl

/-- A DNS message changes the metadata, or starts the flow over. -/
theorem dnsSeen_flow (nf : Flow) :
    ∃ metadata, CaptureThread.dnsSeen cfg s p h nf = { nf with metadata } ∨
      CaptureThread.dnsSeen cfg s p h nf = ({ nf with metadata } : Flow).restart := by
  unfold CaptureThread.dnsSeen
  split
  · split
    · dsimp only
      split
      · exact ⟨_, .inr (congrArg Flow.restart (Dns.read_processDnsPacket _ _ _ _ _ _ _).frame)⟩
      · exact ⟨_, .inl (Dns.read_processDnsPacket _ _ _ _ _ _ _).frame⟩
    · exact ⟨_, .inl rfl⟩
  · exact ⟨_, .inl rfl⟩

/-- The flow is stored, perhaps with a detection thread. -/
theorem queuePacket_stored (nf : Flow) (t : CaptureThread) :
    ∃ dpiThreadId, (CaptureThread.queuePacket cfg p h nf t).flowBuckets t.flow.digestLower =
      some { nf with dpiThreadId } := by
  unfold CaptureThread.queuePacket
  simp only
  split_ifs <;> exact ⟨_, Function.update_self ..⟩

/-- The flow that a packet leaves in the map. -/
theorem seen_stored (nf : Flow) (t : CaptureThread)
    (stored : (CaptureThread.seen cfg s p h nf t).flowBuckets t.flow.digestLower = some nf') :
    ∃ counted : Flow, (∃ flags metadata dpiThreadId, counted =
        { nf with
          dpiThreadId
          flags
          metadata
          stats := CaptureThread.FlowStats.seen nf.stats h.ip.addrCmp p.length.toNat
          tsLastSeen := t.tsPktLast
          tcpLastSeq := if Late p h nf then CaptureThread.thSeq p h else nf.tcpLastSeq }) ∧
      (nf' = counted ∨ nf' = counted.restart) := by
  unfold CaptureThread.seen at stored
  obtain ⟨flags, tcp⟩ := tcpSeen_flow (p := p) (h := h)
    { nf with
      stats := CaptureThread.FlowStats.seen nf.stats h.ip.addrCmp p.length.toNat
      tsLastSeen := t.tsPktLast }
    (CaptureThread.PacketStats.accepted t.stats nf.ipVersion p.length.toNat)
  simp only [tcp] at stored
  obtain ⟨dpiThreadId, found⟩ := @queuePacket_stored cfg p h _ _
  have same := Option.some.inj (stored.symm.trans found)
  obtain ⟨metadata, dns | dns⟩ := @dnsSeen_flow cfg s p h _
  · rw [dns] at same
    exact ⟨_, ⟨flags, metadata, dpiThreadId, rfl⟩, .inl same⟩
  · rw [dns] at same
    exact ⟨_, ⟨flags, metadata, dpiThreadId, rfl⟩, .inr same⟩

/-- **A packet of a flow** counts in it. -/
theorem seen_counts (nf : Flow) (t : CaptureThread) (stored : (CaptureThread.seen cfg s p h nf
      t).flowBuckets t.flow.digestLower = some nf') (whole : ∀ flow : Flow, nf' ≠ flow.restart) :
    Counts p h nf nf' := by
  obtain ⟨counted, ⟨flags, metadata, dpiThreadId, rfl⟩, rfl | restarted⟩ := seen_stored nf t stored
  · exact ⟨rfl, rfl, rfl, rfl, rfl⟩
  · exact absurd restarted (whole _)

/-- What a packet leaves of a flow in any case. -/
theorem seen_endpoints (nf : Flow) (t : CaptureThread)
    (stored : (CaptureThread.seen cfg s p h nf t).flowBuckets t.flow.digestLower = some nf') :
    nf'.origin = nf.origin ∧ nf'.lowerAddr = nf.lowerAddr ∧ nf'.upperAddr = nf.upperAddr ∧
      nf'.privateLower = nf.privateLower ∧ nf'.privateUpper = nf.privateUpper := by
  obtain ⟨counted, ⟨flags, metadata, dpiThreadId, rfl⟩, rfl | rfl⟩ := seen_stored nf t stored
  · exact ⟨rfl, rfl, rfl, rfl, rfl⟩
  · exact ⟨rfl, rfl, rfl, rfl, rfl⟩

theorem seen_errors (nf : Flow) (t : CaptureThread) :
    (CaptureThread.seen cfg s p h nf t).stats.tcpSeqErrors =
      t.stats.tcpSeqErrors + if Late p h nf then 1 else 0 := by
  unfold CaptureThread.seen
  simp only [Accounting.queuePacket_stats, tcpSeen_errors]
  have accepted : (CaptureThread.PacketStats.accepted t.stats nf.ipVersion
      p.length.toNat).tcpSeqErrors = t.stats.tcpSeqErrors := by
    unfold CaptureThread.PacketStats.accepted
    simp only
    split <;> rfl
  rw [accepted]
  rfl

theorem known_kept (nf : Flow) : Kept nf (CaptureThread.known p h nf) := by
  unfold CaptureThread.known
  split
  · split
    · split <;> exact ⟨rfl, rfl, rfl, rfl, rfl⟩
    · exact ⟨rfl, rfl, rfl, rfl, rfl⟩
  · exact ⟨rfl, rfl, rfl, rfl, rfl⟩

theorem fresh_kept (t : CaptureThread) : Kept t.flow.copy (CaptureThread.fresh p h t) := by
  unfold CaptureThread.fresh
  simp only
  split
  · split <;> exact ⟨rfl, rfl, rfl, rfl, rfl⟩
  · exact ⟨rfl, rfl, rfl, rfl, rfl⟩

/-- The flow that a packet meets: the one of the map, or a copy of the template. -/
def met (t t' : CaptureThread) : Flow := (t.flowBuckets t'.flow.digestLower).getD t'.flow.copy

/-- A packet that meets a flow is counted in it, and is an error of the sequence if it is
late. -/
structure Meets (x : Taken) (nf nf' : Flow) : Prop where
  counts : Counts x.packet x.headers nf nf'
  errors : x.after.stats.tcpSeqErrors =
    x.before.stats.tcpSeqErrors + if Late x.packet x.headers nf then 1 else 0

theorem hashed_met (t : CaptureThread)
    (stored : (CaptureThread.hashed cfg s p h t).flowBuckets
      (t.flow.hash s.sha1 cfg.tag).digestLower = some nf')
    (whole : ∀ flow : Flow, nf' ≠ flow.restart) :
    Meets ⟨p, h, t, CaptureThread.hashed cfg s p h t⟩ (met t (CaptureThread.hashed cfg s p h t))
      nf' := by
  have flow : (CaptureThread.hashed cfg s p h t).flow = _ := hashed_flow t
  have same : met t (CaptureThread.hashed cfg s p h t) =
      (t.flowBuckets (t.flow.hash s.sha1 cfg.tag).digestLower).getD
        (t.flow.hash s.sha1 cfg.tag).copy := by
    rw [met, flow]
  suffices all : Counts p h ((t.flowBuckets (t.flow.hash s.sha1 cfg.tag).digestLower).getD
      (t.flow.hash s.sha1 cfg.tag).copy) nf' ∧
      (CaptureThread.hashed cfg s p h t).stats.tcpSeqErrors = t.stats.tcpSeqErrors +
        if Late p h ((t.flowBuckets (t.flow.hash s.sha1 cfg.tag).digestLower).getD
          (t.flow.hash s.sha1 cfg.tag).copy) then 1 else 0 by
    refine ⟨?_, ?_⟩ <;> simp only [same]
    · exact all.1
    · exact all.2
  unfold CaptureThread.hashed at stored ⊢
  simp only at stored ⊢
  cases found : t.flowBuckets (t.flow.hash s.sha1 cfg.tag).digestLower with
  | some nf =>
    simp only [found, Option.getD_some] at stored ⊢
    have kept := known_kept (p := p) (h := h) nf
    refine ⟨(seen_counts _ _ stored whole).after kept, ?_⟩
    rw [seen_errors]
    simp only [late_kept kept]
  | none =>
    simp only [found, Option.getD_none] at stored ⊢
    split at stored
    · exact absurd (found.symm.trans stored) (by simp)
    split at stored
    · exact absurd (found.symm.trans stored) (by simp)
    rename_i room scan
    rw [if_neg room, if_neg scan]
    have kept := fresh_kept (p := p) (h := h) { t with flow := t.flow.hash s.sha1 cfg.tag }
    refine ⟨(seen_counts _ _ stored whole).after kept, ?_⟩
    rw [seen_errors]
    simp only [late_kept kept]

/-- Dissection touches neither the flow map nor the count of errors. -/
theorem performed_aside (t : CaptureThread) (ws : List Op) :
    (ws.foldl (CaptureThread.perform p) t).flowBuckets = t.flowBuckets ∧
      (ws.foldl (CaptureThread.perform p) t).stats.tcpSeqErrors = t.stats.tcpSeqErrors := by
  induction ws generalizing t with
  | nil => exact ⟨rfl, rfl⟩
  | cons w ws ih =>
    obtain ⟨map, errors⟩ := ih (CaptureThread.perform p t w)
    refine ⟨map.trans ?_, errors.trans ?_⟩
    · cases w <;> rfl
    · cases w with
      | count c => cases c <;> rfl
      | _ => rfl

theorem arrived_aside (t : CaptureThread) :
    (CaptureThread.arrived p (CaptureThread.tsPkt cfg p t)).flowBuckets = t.flowBuckets ∧
      (CaptureThread.arrived p (CaptureThread.tsPkt cfg p t)).stats.tcpSeqErrors =
        t.stats.tcpSeqErrors := by
  unfold CaptureThread.arrived CaptureThread.tsPkt
  simp only
  split <;> exact ⟨rfl, rfl⟩

/-- A packet that ends is handled with the flow map and the count of errors as they were. -/
theorem hashed_of_processPacket {fuel : Nat}
    (ended : (dissect s.extensions cfg.dlType p fuel).outcome = .ok h)
    (taken : CaptureThread.processPacket cfg s fuel p t = some t') :
    ∃ before, before.flowBuckets = t.flowBuckets ∧
      before.stats.tcpSeqErrors = t.stats.tcpSeqErrors ∧
      t' = CaptureThread.hashed cfg s p h before := by
  unfold CaptureThread.processPacket at taken
  simp only [ended, Option.some.injEq] at taken
  obtain ⟨map, errors⟩ := performed_aside (p := p)
    (CaptureThread.arrived p (CaptureThread.tsPkt cfg p t))
    (dissect s.extensions cfg.dlType p fuel).log
  obtain ⟨map', errors'⟩ := @arrived_aside cfg p t
  exact ⟨_, map.trans map', errors.trans errors', taken.symm⟩

theorem processPacket_met {fuel : Nat}
    (ended : (dissect s.extensions cfg.dlType p fuel).outcome = .ok h)
    (taken : CaptureThread.processPacket cfg s fuel p t = some t')
    (stored : t'.flowBuckets t'.flow.digestLower = some nf')
    (whole : ∀ flow : Flow, nf' ≠ flow.restart) : Meets ⟨p, h, t, t'⟩ (met t t') nf' := by
  obtain ⟨before, map, errors, rfl⟩ := hashed_of_processPacket ended taken
  rw [hashed_flow] at stored
  have all := hashed_met before stored whole
  have same : met before (CaptureThread.hashed cfg s p h before) =
      met t (CaptureThread.hashed cfg s p h before) := by
    rw [met, met, map]
  constructor
  · rw [← same]
    exact all.counts
  · rw [all.errors, errors]
    simp only [same]

end

/-! ## Runs -/

section
variable {cfg : CaptureConfig} {s : CaptureServices} {id : Identity} {start r r' : FlowRun}

/-- A template that only dissection has written to: it never assigns `tcp_last_seq`. -/
structure Blank (dl : Datalink) (flow : Flow) : Prop where
  template : Template dl flow
  tcpLastSeq : flow.tcpLastSeq = 0

theorem assigned_tcpLastSeq (flow : Flow) (ws : List Op) :
    (assigned flow ws).tcpLastSeq = flow.tcpLastSeq :=
  @assigned_keeps _ Flow.tcpLastSeq ws (fun w _ flow => (assign_aside flow w).1) flow

theorem processPacket_of_step {t t' : CaptureThread} {fuel : Nat} {p : Packet}
    (taken : CaptureThread.step cfg s t (.packet fuel p) = some t') :
    CaptureThread.processPacket cfg s fuel p t = some t' := by
  simp only [CaptureThread.step] at taken
  split at taken
  · cases taken
  · exact taken

theorem Blank.step {t t' : CaptureThread} {action : CaptureAction} (blank : Blank cfg.dlType t.flow)
    (taken : CaptureThread.step cfg s t action = some t') : Blank cfg.dlType t'.flow := by
  refine ⟨template_step blank.template taken, ?_⟩
  cases action with
  | packet fuel p =>
    rw [processPacket_flow (processPacket_of_step taken)]
    split
    · exact (assigned_tcpLastSeq _ _).trans blank.tcpLastSeq
    · exact (assigned_tcpLastSeq _ _).trans blank.tcpLastSeq
  | share flowBuckets flows =>
    cases taken
    exact blank.tcpLastSeq
  | collect =>
    cases taken
    exact blank.tcpLastSeq

/-- What a run knows of a packet of its flow. -/
structure Recorded (cfg : CaptureConfig) (s : CaptureServices) (id : Identity) (x : Taken) :
    Prop where
  blank : Blank cfg.dlType x.before.flow
  joined : Joined id x.after
  taken : ∃ fuel, CaptureThread.step cfg s x.before (.packet fuel x.packet) = some x.after ∧
    (dissect s.extensions cfg.dlType x.packet fuel).outcome = .ok x.headers
  meets : ∃ nf, x.after.flowBuckets id.digest = some nf ∧ Meets x (met x.before x.after) nf

/-- **A step of a run** records a packet of the flow, or leaves the flow undisturbed. -/
theorem step_cases {a : FlowAction} (blank : Blank cfg.dlType r.thread.flow)
    (taken : step cfg s r a = some r') (regular : Regular cfg s id r a) :
    (∃ x, r' = ⟨x.after, r.log ++ [x]⟩ ∧ x.before = r.thread ∧ Recorded cfg s id x) ∨
      ∃ action, CaptureThread.step cfg s r.thread action = some r'.thread ∧ r'.log = r.log ∧
        Undisturbed id.digest r.thread r'.thread := by
  cases a with
  | mine fuel p h =>
    obtain ⟨t, stepped, rfl⟩ := Option.map_eq_some_iff.mp taken
    have processed := processPacket_of_step stepped
    have joined := regular.2 t stepped
    obtain ⟨nf, stored, whole⟩ := joined.found
    refine .inl ⟨⟨p, h, r.thread, t⟩, rfl, rfl, blank, joined, ⟨fuel, stepped, regular.1⟩, nf,
      stored, ?_⟩
    refine processPacket_met regular.1 processed ?_ whole
    rw [joined.digest]
    exact stored
  | other action =>
    obtain ⟨t, stepped, rfl⟩ := Option.map_eq_some_iff.mp taken
    exact .inr ⟨action, stepped, rfl, regular t stepped⟩

theorem Recorded.blank_after {x : Taken} (recorded : Recorded cfg s id x) :
    Blank cfg.dlType x.after.flow := by
  obtain ⟨fuel, stepped, _⟩ := recorded.taken
  exact recorded.blank.step stepped

/-- The template holds the key of the packet that was recorded last. -/
theorem Recorded.key {x : Taken} (recorded : Recorded cfg s id x) :
    ∃ vlanId, x.after.flow.key = packetKey cfg.dlType x.packet x.headers.ip vlanId := by
  obtain ⟨fuel, stepped, ended⟩ := recorded.taken
  obtain ⟨link, last, reached⟩ := reached_of_dissect ended
  exact ⟨_, (processPacket_key recorded.blank.template reached ended
    (processPacket_of_step stepped)).1⟩

/-- What a run knows of its flow. -/
inductive Stands (J : List Taken → Flow → Prop) (id : Identity) (r : FlowRun) : Prop where
  /-- No packet has come. -/
  | absent (log : r.log = []) (absent : r.thread.flowBuckets id.digest = none)
  | stands (nf : Flow) (stored : r.thread.flowBuckets id.digest = some nf) (holds : J r.log nf)

/-- **Rule for one flow.** What the first packet of a flow brings about, every other packet
carries on and nothing else changes holds of the flow in every run. -/
theorem Run.rule {J : List Taken → Flow → Prop}
    (first : ∀ x nf, Recorded cfg s id x → x.after.flowBuckets id.digest = some nf →
      Meets x x.after.flow.copy nf → J [x] nf)
    (next : ∀ log x nf nf', J log nf → Recorded cfg s id x →
      x.after.flowBuckets id.digest = some nf' → Meets x nf nf' → J (log ++ [x]) nf')
    (kept : ∀ log nf nf', J log nf → Kept nf nf' → J log nf')
    (run : Run cfg s id start r) : Stands J id r ∧ ∀ x ∈ r.log, Recorded cfg s id x := by
  obtain ⟨before, reached⟩ := run
  suffices all : Blank cfg.dlType r.thread.flow ∧ Stands J id r ∧
      ∀ x ∈ r.log, Recorded cfg s id x from all.2
  refine reached.invariant (I := fun r => Blank cfg.dlType r.thread.flow ∧ Stands J id r ∧
    ∀ x ∈ r.log, Recorded cfg s id x) ?_ ?_
  · refine ⟨?_, .absent before.log before.absent, ?_⟩
    · rw [before.fresh]
      exact ⟨template_start _, rfl⟩
    · rw [before.log]
      exact fun x member => absurd member List.not_mem_nil
  · rintro r a r' ⟨blank, stands, known⟩ taken regular
    rcases step_cases blank taken regular with ⟨x, rfl, same, recorded⟩ |
      ⟨action, stepped, log, undisturbed⟩
    · obtain ⟨fuel, stepped, _⟩ := recorded.taken
      obtain ⟨nf', stored', counted⟩ := recorded.meets
      refine ⟨recorded.blank.step stepped, .stands nf' stored' ?_, ?_⟩
      · cases stands with
        | absent log absent =>
          have meets : met x.before x.after = x.after.flow.copy := by
            rw [met, recorded.joined.digest, same, absent, Option.getD_none]
          rw [log]
          exact first x nf' recorded stored' (meets ▸ counted)
        | stands nf stored holds =>
          have meets : met x.before x.after = nf := by
            rw [met, recorded.joined.digest, same, stored, Option.getD_some]
          exact next r.log x nf nf' holds recorded stored' (meets ▸ counted)
      · intro y member
        rcases List.mem_append.mp member with earlier | last
        · exact known y earlier
        · rw [List.mem_singleton.mp last]
          exact recorded
    · refine ⟨blank.step stepped, ?_, ?_⟩
      · cases stands with
        | absent empty absent => exact .absent (log.trans empty) (undisturbed.absent absent)
        | stands nf stored holds =>
          obtain ⟨nf', stored', same⟩ := undisturbed.kept nf stored
          refine .stands nf' stored' ?_
          rw [log]
          exact kept r.log nf nf' holds same
      · rw [log]
        exact known

/-! ## A new flow -/

/-- A thread that began with a fresh template makes a new flow of a packet. -/
structure Creates (cfg : CaptureConfig) (s : CaptureServices) (x : Taken) (nf : Flow) : Prop where
  history : ∃ start, start.flow = {} ∧ Reaches (CaptureThread.step cfg s) Always start x.before
  taken : ∃ fuel, CaptureThread.step cfg s x.before (.packet fuel x.packet) = some x.after ∧
    (dissect s.extensions cfg.dlType x.packet fuel).outcome = .ok x.headers
  absent : x.before.flowBuckets x.after.flow.digestLower = none
  created : x.after.flowBuckets x.after.flow.digestLower = some nf

/-- The flow that a new one starts as. -/
structure Stored (p : Packet) (h : Headers) (template nf : Flow) : Prop where
  origin : ∃ direction tsFirstSeen,
    nf.origin = CaptureThread.origin p h { template.copy with direction, tsFirstSeen }
  lowerAddr : nf.lowerAddr = template.lowerAddr
  upperAddr : nf.upperAddr = template.upperAddr
  privateLower : nf.privateLower = false
  privateUpper : nf.privateUpper = false

theorem fresh_stored {p : Packet} {h : Headers} (t : CaptureThread) :
    Stored p h t.flow (CaptureThread.fresh p h t) := by
  unfold CaptureThread.fresh
  simp only
  split
  · unfold CaptureThread.setTeid
    split <;> exact ⟨⟨_, _, rfl⟩, rfl, rfl, rfl, rfl⟩
  · exact ⟨⟨_, _, rfl⟩, rfl, rfl, rfl, rfl⟩

theorem hashed_stored {p : Packet} {h : Headers} {t : CaptureThread} {nf : Flow}
    (absent : t.flowBuckets (t.flow.hash s.sha1 cfg.tag).digestLower = none)
    (created : (CaptureThread.hashed cfg s p h t).flowBuckets
      (t.flow.hash s.sha1 cfg.tag).digestLower = some nf) :
    Stored p h (t.flow.hash s.sha1 cfg.tag) nf := by
  unfold CaptureThread.hashed at created
  simp only [absent] at created
  split at created
  · exact absurd (absent.symm.trans created) (by simp)
  split at created
  · exact absurd (absent.symm.trans created) (by simp)
  obtain ⟨origin, lower, upper, privateLower, privateUpper⟩ := seen_endpoints _ _ created
  have fresh := fresh_stored (p := p) (h := h) { t with flow := t.flow.hash s.sha1 cfg.tag }
  obtain ⟨direction, tsFirstSeen, named⟩ := fresh.origin
  exact ⟨⟨direction, tsFirstSeen, origin.trans named⟩, lower.trans fresh.lowerAddr,
    upper.trans fresh.upperAddr, privateLower.trans fresh.privateLower,
    privateUpper.trans fresh.privateUpper⟩

variable {x : Taken} {nf : Flow}

theorem Creates.stored (creates : Creates cfg s x nf) :
    Stored x.packet x.headers x.after.flow nf := by
  obtain ⟨fuel, stepped, ended⟩ := creates.taken
  obtain ⟨before, map, _, after⟩ := hashed_of_processPacket ended (processPacket_of_step stepped)
  have absent := creates.absent
  have created := creates.created
  rw [after, hashed_flow] at absent created ⊢
  rw [← map] at absent
  exact hashed_stored absent created

/-- The template holds the key of the packet, in addresses of its version. -/
theorem Creates.typed (creates : Creates cfg s x nf) :
    x.after.flow.Typed ∧
      ∃ vlanId, x.after.flow.key = packetKey cfg.dlType x.packet x.headers.ip vlanId := by
  obtain ⟨start, fresh, history⟩ := creates.history
  obtain ⟨fuel, stepped, ended⟩ := creates.taken
  obtain ⟨link, last, reached⟩ := reached_of_dissect ended
  have flow := processPacket_flow (processPacket_of_step stepped)
  rw [ended] at flow
  obtain ⟨typed, key⟩ := key_of_dissect (template_of_history fresh history) reached
  rw [flow]
  exact ⟨typed, _, key⟩

/-! ## Runs that are executed -/

/-- A flow that has counted a packet was not started over. -/
theorem ne_restart {nf : Flow} (counted : nf.stats.totalPackets ≠ 0) (flow : Flow) :
    nf ≠ flow.restart := by
  rintro rfl
  exact counted rfl

/-- The packet is dissected, and counted in the flow. -/
def Checks (cfg : CaptureConfig) (s : CaptureServices) (id : Identity) (r : FlowRun) :
    FlowAction → Prop
  | .mine fuel p h => (dissect s.extensions cfg.dlType p fuel).outcome = .ok h ∧
      ∀ t ∈ CaptureThread.step cfg s r.thread (.packet fuel p),
        t.flow.digestLower = id.digest ∧ t.flow.lowerAddr.endpoint = id.lower ∧
          t.flow.upperAddr.endpoint = id.upper ∧
          ∃ nf ∈ t.flowBuckets id.digest, nf.stats.totalPackets ≠ 0
  | .other _ => False

instance (cfg : CaptureConfig) (s : CaptureServices) (id : Identity) :
    DecidableRel (Checks cfg s id) := fun r a => by
  cases a with
  | mine fuel p h => exact inferInstanceAs (Decidable (_ ∧ _))
  | other action => exact .isFalse not_false

theorem regular_of_checks {a : FlowAction} (checks : Checks cfg s id r a) :
    Regular cfg s id r a := by
  cases a with
  | mine fuel p h =>
    refine ⟨checks.1, fun t stepped => ?_⟩
    obtain ⟨digest, lower, upper, nf, found, counted⟩ := checks.2 t stepped
    exact ⟨digest, lower, upper, nf, found, ne_restart counted⟩
  | other action => exact absurd checks not_false

end

end NetifyAgent.OneFlow
