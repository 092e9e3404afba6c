import NetifyAgent.FlowPurge
import NetifyAgent.OneFlow

/-! The time-out of one flow. Packets of the flow, passes of `ProcessFlows` and whatever other
threads do to the flow map follow each other in any order. Which time-out a pass takes for a
TCP flow depends on `tcp_fin_ack`, which the capture threads count in eight bits. -/
namespace NetifyAgent.IdleTimeout
open Dissection Runs FlowPurge KeyHistory OneFlow

/-! ## Histories -/

/-- The flow map, and the packets of the flow that it holds under a digest. -/
structure FlowHistory where
  flowBuckets : List UInt8 → Option Flow := fun _ => none
  /-- Each packet with its headers, from the one that has made the flow on. -/
  log : List (Packet × Headers) := []

inductive Action where
  /-- A capture thread takes a packet of the flow. -/
  | packet (thread : CaptureThread) (fuel : Nat) (p : Packet) (h : Headers)
  /-- A pass visits the flow, to which others hold references. -/
  | pass (env : PurgeEnv) (others : Nat)
  /-- Other threads change the flow map, or a pass visits the other flows. -/
  | share (flowBuckets : List UInt8 → Option Flow)

/-- What a visit leaves of the flow under a digest. -/
def visited (env : PurgeEnv) (others : Nat) (nf : Flow) : Option Flow :=
  (visit env { status := {} } ⟨nf, others⟩).1.map FlowPtr.flow

/-- A packet that comes after the flow was erased begins a new history. -/
def step (cfg : CaptureConfig) (s : CaptureServices) (digest : List UInt8) (r : FlowHistory) :
    Action → Option FlowHistory
  | .packet thread fuel p h =>
    (CaptureThread.step cfg s { thread with flowBuckets := r.flowBuckets }
      (.packet fuel p)).map fun t => ⟨t.flowBuckets, r.log ++ [(p, h)]⟩
  | .pass env others =>
    match (r.flowBuckets digest).bind (visited env others) with
    | some nf => some { r with flowBuckets := Function.update r.flowBuckets digest (some nf) }
    | none => some ⟨Function.update r.flowBuckets digest none, []⟩
  | .share flowBuckets => some { r with flowBuckets }

/-- Nobody but the capture threads counts in `tcp_fin_ack`, and only a pass erases a flow. -/
structure Spared (digest : List UInt8) (before after : List UInt8 → Option Flow) : Prop where
  absent : before digest = none → after digest = none
  kept : ∀ nf, before digest = some nf → ∃ nf', after digest = some nf' ∧
    nf'.ipProtocol = nf.ipProtocol ∧ nf'.flags.tcpFinAck = nf.flags.tcpFinAck

/-- The steps of a history. -/
def Regular (cfg : CaptureConfig) (s : CaptureServices) (digest : List UInt8)
    (r : FlowHistory) : Action → Prop
  | .packet thread fuel p h => (dissect s.extensions cfg.dlType p fuel).outcome = .ok h ∧
      ∀ t ∈ CaptureThread.step cfg s { thread with flowBuckets := r.flowBuckets } (.packet fuel p),
        t.flow.digestLower = digest ∧ ∃ nf, t.flowBuckets digest = some nf
  | .pass _ _ => True
  | .share flowBuckets => Spared digest r.flowBuckets flowBuckets

/-! ## The rule -/

/-- A pass calls `ExpireFlow` for the flow. -/
def Calls (env : PurgeEnv) (nf : Flow) : Prop :=
  nf.flags.expired = false ∧ ((nf.tsLastSeen / 1000 : Nat) : Int) + ttl env nf < env.now

instance (env : PurgeEnv) (nf : Flow) : Decidable (Calls env nf) :=
  inferInstanceAs (Decidable (_ ∧ _))

theorem age_calls (env : PurgeEnv) (p : FlowPtr) :
    age env p = if Calls env p.flow then expireFlow env p else (p, false) := rfl

/-- `TH_FIN` and `TH_ACK` are set. -/
def FinAck (x : Packet × Headers) : Prop :=
  CaptureThread.thFin x.1 x.2 = true ∧ CaptureThread.thAck x.1 x.2 = true

instance : DecidablePred FinAck := fun _ => inferInstanceAs (Decidable (_ ∧ _))

/-- How many FIN+ACK packets have been seen. -/
def finAcks (log : List (Packet × Headers)) : Nat := log.countP fun x => FinAck x

/-- The time-out of a flow by what has been seen of it. -/
def ruleTtl (env : PurgeEnv) (log : List (Packet × Headers)) (nf : Flow) : Nat :=
  if nf.ipProtocol ≠ IPPROTO_TCP.toNat then env.ttlIdleFlow
  else if ∃ x ∈ log, FinAck x then env.ttlIdleFlow
  else env.ttlIdleTcpFlow

/-- At any time, a pass calls `ExpireFlow` for an unexpired flow exactly where the flow was
idle for longer than the rule allows. -/
def Ruled (env : PurgeEnv) (log : List (Packet × Headers)) (nf : Flow) : Prop :=
  ∀ now : Int, Calls { env with now } nf ↔
    ((nf.tsLastSeen / 1000 : Nat) : Int) + ruleTtl env log nf < now

/-- The flow is not TCP, or the number of its FIN+ACK packets is zero or no multiple of 256,
or there is but one time-out. -/
def Unwrapped (env : PurgeEnv) (log : List (Packet × Headers)) (nf : Flow) : Prop :=
  nf.ipProtocol = IPPROTO_TCP.toNat → finAcks log = 0 ∨ finAcks log % 256 ≠ 0 ∨
    env.ttlIdleFlow = env.ttlIdleTcpFlow

/-- The eight bits of `tcp_fin_ack` count the FIN+ACK packets of a TCP flow. -/
def Counted (log : List (Packet × Headers)) (nf : Flow) : Prop :=
  nf.ipProtocol = IPPROTO_TCP.toNat → nf.flags.tcpFinAck.toNat = finAcks log % 256

theorem finAcks_eq_zero (log : List (Packet × Headers)) :
    finAcks log = 0 ↔ ¬ ∃ x ∈ log, FinAck x := by
  unfold finAcks
  rw [List.countP_eq_zero]
  simp

/-- Two bounds are exceeded at the same times if they are the same. -/
theorem bounds_iff (lastSeen a b : Nat) :
    (∀ now : Int, (lastSeen : Int) + a < now ↔ (lastSeen : Int) + b < now) ↔ a = b := by
  constructor
  · intro same
    have first := same (lastSeen + a + 1)
    have second := same (lastSeen + b + 1)
    omega
  · rintro rfl now
    exact Iff.rfl

/-- **The rule** is kept exactly where the time-out is that of the rule. -/
theorem ruled_iff_ttl {env : PurgeEnv} {log : List (Packet × Headers)} {nf : Flow}
    (alive : nf.flags.expired = false) : Ruled env log nf ↔ ttl env nf = ruleTtl env log nf := by
  rw [← bounds_iff (nf.tsLastSeen / 1000)]
  refine forall_congr' fun now => ?_
  have same : Calls { env with now } nf ↔
      ((nf.tsLastSeen / 1000 : Nat) : Int) + ttl env nf < now := and_iff_right alive
  rw [same]

theorem ruled_of_counted {env : PurgeEnv} {log : List (Packet × Headers)} {nf : Flow}
    (alive : nf.flags.expired = false) (counted : Counted log nf) :
    Ruled env log nf ↔ Unwrapped env log nf := by
  rw [ruled_iff_ttl alive]
  unfold ttl ruleTtl Unwrapped
  by_cases tcp : nf.ipProtocol = IPPROTO_TCP.toNat
  · have bits := counted tcp
    have zero : nf.flags.tcpFinAck = 0 ↔ finAcks log % 256 = 0 := by
      rw [← bits, ← UInt8.toNat_inj]
      rfl
    have none := finAcks_eq_zero log
    simp only [tcp, ne_eq, not_true_eq_false, if_false, forall_const, zero]
    by_cases wrapped : finAcks log % 256 = 0
    · by_cases seen : ∃ x ∈ log, FinAck x
      · have some : finAcks log ≠ 0 := fun zero => none.mp zero seen
        simp [wrapped, seen, some, eq_comm]
      · simp [seen, none.mpr seen]
    · have seen : ∃ x ∈ log, FinAck x := by
        by_contra unseen
        rw [none.mpr unseen] at wrapped
        exact wrapped rfl
      simp [wrapped, seen]
  · simp [tcp]

/-! ## What a packet counts -/

section
variable {cfg : CaptureConfig} {s : CaptureServices} {p : Packet} {h : Headers} {nf nf' : Flow}
  {t t' : CaptureThread}

/-- What a packet adds to `tcp_fin_ack`. -/
def closes (p : Packet) (h : Headers) (nf : Flow) : UInt8 :=
  if nf.ipProtocol = IPPROTO_TCP.toNat ∧ FinAck (p, h) then 1 else 0

/-- What becomes of a flow in a packet, as far as the time-out depends on it. -/
structure Closing (p : Packet) (h : Headers) (nf nf' : Flow) : Prop where
  ipProtocol : nf'.ipProtocol = nf.ipProtocol
  tcpFinAck : nf'.flags.tcpFinAck = nf.flags.tcpFinAck + closes p h nf
  expired : nf'.flags.expired = true → nf.flags.expired = true

theorem tcpSeen_closes (nf : Flow) (stats : PacketStats) :
    Closing p h nf (CaptureThread.tcpSeen p h nf stats).1 := by
  unfold CaptureThread.tcpSeen
  by_cases tcp : nf.ipProtocol = IPPROTO_TCP.toNat
  · simp only [if_pos tcp]
    by_cases closing : CaptureThread.thFin p h = true ∧ CaptureThread.thAck p h = true
    · have one : closes p h nf = 1 := if_pos ⟨tcp, closing⟩
      rw [if_pos closing]
      split
      · exact ⟨rfl, by rw [one], id⟩
      · exact ⟨rfl, by rw [one], id⟩
    · have none : closes p h nf = 0 := if_neg fun both => closing both.2
      rw [if_neg closing]
      split
      · exact ⟨rfl, by rw [none, UInt8.add_zero], id⟩
      · exact ⟨rfl, by rw [none, UInt8.add_zero], id⟩
  · have none : closes p h nf = 0 := if_neg fun both => tcp both.1
    rw [if_neg tcp]
    exact ⟨rfl, by rw [none, UInt8.add_zero], id⟩

/-- A flow that is started over keeps the count, and is not expired. -/
theorem dnsSeen_frame (nf : Flow) :
    (CaptureThread.dnsSeen cfg s p h nf).ipProtocol = nf.ipProtocol ∧
      (CaptureThread.dnsSeen cfg s p h nf).flags.tcpFinAck = nf.flags.tcpFinAck ∧
      ((CaptureThread.dnsSeen cfg s p h nf).flags.expired = true → nf.flags.expired = true) := by
  obtain ⟨metadata, same | restarted⟩ := @dnsSeen_flow cfg s p h nf
  · rw [same]
    exact ⟨rfl, rfl, id⟩
  · rw [restarted]
    exact ⟨rfl, rfl, fun expired => absurd expired Bool.false_ne_true⟩

theorem seen_closes (nf : Flow) (t : CaptureThread)
    (stored : (CaptureThread.seen cfg s p h nf t).flowBuckets t.flow.digestLower = some nf') :
    Closing p h nf nf' := by
  unfold CaptureThread.seen at stored
  obtain ⟨dpiThreadId, found⟩ := @queuePacket_stored cfg p h _ _
  have same := Option.some.inj (stored.symm.trans found)
  obtain ⟨protocol, count, expired⟩ := @dnsSeen_frame cfg s p h (CaptureThread.tcpSeen p h
    { nf with
      stats := CaptureThread.FlowStats.seen nf.stats h.ip.addrCmp p.length.toNat
      tsLastSeen := t.tsPktLast }
    (CaptureThread.PacketStats.accepted t.stats nf.ipVersion p.length.toNat)).1
  obtain ⟨tcpProtocol, tcpCount, tcpExpired⟩ := @tcpSeen_closes p h
    { nf with
      stats := CaptureThread.FlowStats.seen nf.stats h.ip.addrCmp p.length.toNat
      tsLastSeen := t.tsPktLast }
    (CaptureThread.PacketStats.accepted t.stats nf.ipVersion p.length.toNat)
  rw [same]
  exact ⟨protocol.trans tcpProtocol, count.trans tcpCount, fun ended => tcpExpired (expired ended)⟩

theorem known_frame (nf : Flow) : (CaptureThread.known p h nf).ipProtocol = nf.ipProtocol ∧
    (CaptureThread.known p h nf).flags = nf.flags := by
  unfold CaptureThread.known
  split
  · split
    · split <;> exact ⟨rfl, rfl⟩
    · exact ⟨rfl, rfl⟩
  · exact ⟨rfl, rfl⟩

theorem fresh_frame (t : CaptureThread) :
    (CaptureThread.fresh p h t).ipProtocol = t.flow.ipProtocol ∧
      (CaptureThread.fresh p h t).flags = {} := by
  unfold CaptureThread.fresh
  simp only
  split
  · split <;> exact ⟨rfl, rfl⟩
  · exact ⟨rfl, rfl⟩

/-- A packet is counted in the flow of the map, or in a new one that starts without flags. -/
theorem hashed_closes (t : CaptureThread)
    (stored : (CaptureThread.hashed cfg s p h t).flowBuckets
      (t.flow.hash s.sha1 cfg.tag).digestLower = some nf') :
    ∃ nf, Closing p h nf nf' ∧
      ((∃ old, t.flowBuckets (t.flow.hash s.sha1 cfg.tag).digestLower = some old ∧
          nf.ipProtocol = old.ipProtocol ∧ nf.flags = old.flags) ∨
        (t.flowBuckets (t.flow.hash s.sha1 cfg.tag).digestLower = none ∧
          nf.ipProtocol = t.flow.ipProtocol ∧ nf.flags = {})) := by
  unfold CaptureThread.hashed at stored
  simp only at stored
  cases found : t.flowBuckets (t.flow.hash s.sha1 cfg.tag).digestLower with
  | some old =>
    simp only [found] at stored
    exact ⟨_, seen_closes _ _ stored, .inl ⟨old, rfl, known_frame old⟩⟩
  | none =>
    simp only [found] at stored
    split at stored
    · exact absurd (found.symm.trans stored) (by simp)
    split at stored
    · exact absurd (found.symm.trans stored) (by simp)
    exact ⟨_, seen_closes _ _ stored, .inr ⟨rfl, fresh_frame _⟩⟩

/-! ## What a history keeps -/

/-- The FIN+ACK packets of a longer history. -/
theorem finAcks_snoc (log : List (Packet × Headers)) (x : Packet × Headers) :
    finAcks (log ++ [x]) = finAcks log + if FinAck x then 1 else 0 := by
  unfold finAcks
  rw [List.countP_append, List.countP_singleton]
  simp

/-- **A packet** is counted as it comes. -/
theorem counted_packet {log : List (Packet × Headers)} (closing : Closing p h nf nf')
    (counted : Counted log nf) : Counted (log ++ [(p, h)]) nf' := by
  intro tcp
  rw [closing.ipProtocol] at tcp
  have before := counted tcp
  rw [closing.tcpFinAck, finAcks_snoc, UInt8.toNat_add, before]
  unfold closes
  by_cases seen : FinAck (p, h)
  · rw [if_pos ⟨tcp, seen⟩, if_pos seen]
    show (finAcks log % 256 + 1) % 256 = _
    omega
  · rw [if_neg fun both => seen both.2, if_neg seen]
    show (finAcks log % 256 + 0) % 256 = _
    omega

theorem Counted.frame {log : List (Packet × Headers)} (counted : Counted log nf)
    (ipProtocol : nf'.ipProtocol = nf.ipProtocol)
    (tcpFinAck : nf'.flags.tcpFinAck = nf.flags.tcpFinAck) : Counted log nf' := by
  unfold Counted
  rw [ipProtocol, tcpFinAck]
  exact counted

/-- **A pass** leaves the count of a flow alone. -/
theorem visited_frame {env : PurgeEnv} {others : Nat} (left : visited env others nf = some nf') :
    nf'.ipProtocol = nf.ipProtocol ∧ nf'.flags.tcpFinAck = nf.flags.tcpFinAck := by
  have aged : (age env ⟨nf, others⟩).1.flow.ipProtocol = nf.ipProtocol ∧
      (age env ⟨nf, others⟩).1.flow.flags.tcpFinAck = nf.flags.tcpFinAck := by
    rw [age_calls]
    unfold expireFlow
    split
    · split
      · exact ⟨rfl, rfl⟩
      · split
        · dsimp only
          split <;> exact ⟨rfl, rfl⟩
        · exact ⟨rfl, rfl⟩
    · exact ⟨rfl, rfl⟩
  obtain ⟨kept, same, rfl⟩ := Option.map_eq_some_iff.mp left
  rw [(visit_spec env _ _).1] at same
  split at same
  · cases same
  · cases same
    unfold FlowPurge.kept
    split <;> exact aged

end

section
variable {cfg : CaptureConfig} {s : CaptureServices} {digest : List UInt8}
  {r r' : FlowHistory} {action : Action}

/-- What a history knows of its flow. -/
structure Kept (digest : List UInt8) (r : FlowHistory) : Prop where
  absent : r.flowBuckets digest = none → r.log = []
  counted : ∀ nf, r.flowBuckets digest = some nf → Counted r.log nf

/-- The flow that a packet of it finds, or makes, and leaves. -/
theorem packet_closes {thread t : CaptureThread} {fuel : Nat} {p : Packet} {h : Headers} {nf : Flow}
    (ended : (dissect s.extensions cfg.dlType p fuel).outcome = .ok h)
    (taken : CaptureThread.step cfg s thread (.packet fuel p) = some t)
    (stored : t.flowBuckets t.flow.digestLower = some nf) : ∃ old, Closing p h old nf ∧
      ((∃ nf, thread.flowBuckets t.flow.digestLower = some nf ∧
          old.ipProtocol = nf.ipProtocol ∧ old.flags = nf.flags) ∨
        (thread.flowBuckets t.flow.digestLower = none ∧
          old.ipProtocol = t.flow.ipProtocol ∧ old.flags = {})) := by
  obtain ⟨before, map, _, rfl⟩ := hashed_of_processPacket ended (processPacket_of_step taken)
  rw [hashed_flow] at stored ⊢
  rw [← map]
  exact hashed_closes before stored

theorem kept_step (kept : Kept digest r) (taken : step cfg s digest r action = some r')
    (regular : Regular cfg s digest r action) : Kept digest r' := by
  cases action with
  | packet thread fuel p h =>
    obtain ⟨t, stepped, rfl⟩ := Option.map_eq_some_iff.mp taken
    obtain ⟨same, nf, stored⟩ := regular.2 t stepped
    refine ⟨fun absent => absurd (absent.symm.trans stored) (by simp), fun nf' stored' => ?_⟩
    have stored' : t.flowBuckets t.flow.digestLower = some nf' := by rw [same]; exact stored'
    obtain ⟨old, closing, found⟩ := packet_closes regular.1 stepped stored'
    refine counted_packet closing ?_
    rw [same] at found
    rcases found with ⟨nf, present, protocol, flags⟩ | ⟨absent, _, flags⟩
    · exact (kept.counted nf present).frame protocol (by rw [flags])
    · intro _
      rw [flags, kept.absent absent]
      rfl
  | pass env others =>
    simp only [step] at taken
    split at taken
    case h_1 nf left =>
      cases taken
      obtain ⟨old, present, visit⟩ := Option.bind_eq_some_iff.mp left
      obtain ⟨protocol, count⟩ := visited_frame visit
      have here : Function.update r.flowBuckets digest (some nf) digest = some nf :=
        Function.update_self ..
      refine ⟨fun absent => absurd (absent.symm.trans here) (by simp), fun nf' stored => ?_⟩
      cases stored.symm.trans here
      exact (kept.counted old present).frame protocol count
    case h_2 =>
      cases taken
      have gone : Function.update r.flowBuckets digest none digest = none :=
        Function.update_self ..
      exact ⟨fun _ => rfl, fun nf stored => absurd (stored.symm.trans gone) (by simp)⟩
  | share flowBuckets =>
    cases taken
    refine ⟨fun absent => ?_, fun nf' stored => ?_⟩
    · cases present : r.flowBuckets digest with
      | none => exact kept.absent present
      | some nf =>
        obtain ⟨nf', stored, _⟩ := regular.kept nf present
        exact absurd (absent.symm.trans stored) (by simp)
    · cases present : r.flowBuckets digest with
      | none => exact absurd ((regular.absent present).symm.trans stored) (by simp)
      | some nf =>
        obtain ⟨found, stored', protocol, count⟩ := regular.kept nf present
        cases stored.symm.trans stored'
        exact (kept.counted nf present).frame protocol count

/-- **The count of a history** is that of its FIN+ACK packets, in eight bits. -/
theorem counted_reached {start : FlowHistory} (absent : start.flowBuckets digest = none)
    (empty : start.log = []) (reached : Reaches (step cfg s digest) (Regular cfg s digest) start r)
    {nf : Flow} (stored : r.flowBuckets digest = some nf) : Counted r.log nf := by
  have first : Kept digest start :=
    ⟨fun _ => empty, fun nf present => absurd (absent.symm.trans present) (by simp)⟩
  have kept : Kept digest r :=
    reached.invariant first fun r action r' kept taken regular => kept_step kept taken regular
  exact kept.counted nf stored

/-- **The time-out.** Whatever packets a flow has had and whatever passes have visited it, a
later pass keeps the rule unless the FIN+ACK packets are a positive multiple of 256. -/
theorem ruled_iff {start : FlowHistory} (absent : start.flowBuckets digest = none)
    (empty : start.log = []) (reached : Reaches (step cfg s digest) (Regular cfg s digest) start r)
    {nf : Flow} (stored : r.flowBuckets digest = some nf) (alive : nf.flags.expired = false)
    (env : PurgeEnv) : Ruled env r.log nf ↔ Unwrapped env r.log nf :=
  ruled_of_counted alive (counted_reached absent empty reached stored)

end

/-! ## Segments that close a connection -/

/-- A segment with FIN and ACK from port 4000 of the first host to port 80 of the second. -/
def closingSegment : Packet :=
  .ofBytes (Frames.ethernet (Frames.mac 2) (Frames.mac 1) 0x0800
    (Frames.ipv4 6 (Frames.host 1) (Frames.host 2) (Frames.tcp 4000 80 0x11 [])))

def closingHeaders : Headers := ⟨⟨14, 4, 6, 20, 34, 20, 0, -1⟩, none, some (54, 0)⟩

theorem closing_dissected :
    (dissect Frames.services.extensions .en10mb closingSegment 2).outcome = .ok closingHeaders := by
  decide +kernel

/-- The template that such a segment leaves. -/
def closingFlow : Flow :=
  (assigned {} (dissect Frames.services.extensions .en10mb closingSegment 2).log).hash
    Frames.services.sha1 (Frames.eth0 .en10mb).tag

theorem closingFlow_key : closingFlow.digestLower = [] ∧
    closingFlow.ipProtocol = IPPROTO_TCP.toNat := by
  decide +kernel

theorem closing_finAck : FinAck (closingSegment, closingHeaders) := by decide +kernel

/-- The segment is taken whatever flows there are. -/
theorem closing_taken (flowBuckets : List UInt8 → Option Flow) :
    ∃ t, CaptureThread.step (Frames.eth0 .en10mb) Frames.services { flowBuckets }
        (.packet 2 closingSegment) = some t ∧
      t.flow = closingFlow ∧ ∃ nf, t.flowBuckets [] = some nf := by
  have processed : ∃ t, CaptureThread.processPacket (Frames.eth0 .en10mb) Frames.services 2
      closingSegment { flowBuckets } = some t := by
    unfold CaptureThread.processPacket
    have ended : (dissect Frames.services.extensions (Frames.eth0 .en10mb).dlType closingSegment
        2).outcome = .ok closingHeaders := closing_dissected
    simp only [ended]
    exact ⟨_, rfl⟩
  obtain ⟨t, taken⟩ := processed
  have flow : t.flow = closingFlow := by
    have flow := processPacket_flow taken
    have ended : (dissect Frames.services.extensions (Frames.eth0 .en10mb).dlType closingSegment
        2).outcome = .ok closingHeaders := closing_dissected
    simp only [ended] at flow
    exact flow
  refine ⟨t, taken, flow, ?_⟩
  obtain ⟨before, -, -, rfl⟩ := hashed_of_processPacket closing_dissected taken
  have key := closingFlow_key.1
  rw [← flow, hashed_flow] at key
  rw [← key]
  unfold CaptureThread.hashed CaptureThread.seen
  simp only
  -- There is no limit of flows, and no protection against scans.
  have unlimited : ¬ (0 < (Frames.eth0 .en10mb).maxFlows ∧
      (Frames.eth0 .en10mb).maxFlows < before.flows + 1) := fun limit => absurd limit.1 (by decide)
  have open_ : ¬ ((Frames.eth0 .en10mb).synScanProtection = true ∧
      closingHeaders.ip.ipProtocol = IPPROTO_TCP ∧
      CaptureThread.thFlags closingSegment closingHeaders ≠ 0x12) :=
    fun scan => absurd scan.1 (by decide)
  split
  · obtain ⟨id, found⟩ := @queuePacket_stored (Frames.eth0 .en10mb) closingSegment
      closingHeaders _ _
    exact ⟨_, found⟩
  · rw [if_neg unlimited, if_neg open_]
    obtain ⟨id, found⟩ := @queuePacket_stored (Frames.eth0 .en10mb) closingSegment
      closingHeaders _ _
    exact ⟨_, found⟩

/-- A closing segment may come, and leaves a TCP flow that has not expired. -/
theorem closing_next {r : FlowHistory} (fits : ∀ nf, r.flowBuckets [] = some nf →
      nf.ipProtocol = IPPROTO_TCP.toNat ∧ nf.flags.expired = false) :
    ∃ t, step (Frames.eth0 .en10mb) Frames.services [] r
        (.packet {} 2 closingSegment closingHeaders) = some t ∧
      Regular (Frames.eth0 .en10mb) Frames.services [] r
        (.packet {} 2 closingSegment closingHeaders) ∧
      finAcks t.log = finAcks r.log + 1 ∧ ∃ nf, t.flowBuckets [] = some nf ∧
        nf.ipProtocol = IPPROTO_TCP.toNat ∧ nf.flags.expired = false := by
  obtain ⟨t, taken, flow, nf, stored⟩ := closing_taken r.flowBuckets
  have key : t.flow.digestLower = [] := by rw [flow, closingFlow_key.1]
  refine ⟨⟨t.flowBuckets, r.log ++ [(closingSegment, closingHeaders)]⟩, ?_, ?_, ?_, nf, stored,
    ?_⟩
  · simp only [step, taken, Option.map_some]
  · refine ⟨closing_dissected, fun t' again => ?_⟩
    cases taken.symm.trans again
    exact ⟨key, nf, stored⟩
  · rw [finAcks_snoc, if_pos closing_finAck]
  · obtain ⟨old, closing, found⟩ := packet_closes closing_dissected taken
      (by rw [key]; exact stored)
    rw [key] at found
    have same := closing.expired
    rcases found with ⟨nf', present, protocol, flags⟩ | ⟨absent, protocol, flags⟩
    · obtain ⟨tcp, alive⟩ := fits nf' present
      refine ⟨closing.ipProtocol.trans (protocol.trans tcp), ?_⟩
      rw [flags, alive] at same
      simpa using same
    · refine ⟨closing.ipProtocol.trans (protocol.trans (by rw [flow, closingFlow_key.2])), ?_⟩
      rw [flags] at same
      simpa using same

/-- **Any number of closing segments** may come, before the flow expires. -/
theorem closing_run (n : Nat) : ∃ r,
    Reaches (step (Frames.eth0 .en10mb) Frames.services [])
      (Regular (Frames.eth0 .en10mb) Frames.services []) {} r ∧
    finAcks r.log = n + 1 ∧ ∃ nf, r.flowBuckets [] = some nf ∧
      nf.ipProtocol = IPPROTO_TCP.toNat ∧ nf.flags.expired = false := by
  induction n with
  | zero =>
    obtain ⟨t, taken, regular, count, holds⟩ := @closing_next {} fun nf present => by cases present
    exact ⟨t, .next .start taken regular, count, holds⟩
  | succ n ih =>
    obtain ⟨r, reached, count, nf, stored, tcp, alive⟩ := ih
    obtain ⟨t, taken, regular, more, holds⟩ := @closing_next r fun nf' present => by
      cases stored.symm.trans present
      exact ⟨tcp, alive⟩
    exact ⟨t, .next reached taken regular, by rw [more, count], holds⟩

/-- The time-outs that are configured by default, in seconds. -/
def defaults : PurgeEnv where
  now := 0
  ttlIdleFlow := 30
  ttlIdleTcpFlow := 300
  threadDetection := fun _ => true
  taken := fun _ => 0

/-- After one closing segment the rule is kept. -/
theorem ruled_once : ∃ r nf, Reaches (step (Frames.eth0 .en10mb) Frames.services [])
      (Regular (Frames.eth0 .en10mb) Frames.services []) {} r ∧
    r.flowBuckets [] = some nf ∧ nf.flags.expired = false ∧
    (Ruled defaults r.log nf ↔ Unwrapped defaults r.log nf) ∧ Unwrapped defaults r.log nf := by
  obtain ⟨r, reached, count, nf, stored, tcp, alive⟩ := closing_run 0
  refine ⟨r, nf, reached, stored, alive, ruled_iff rfl rfl reached stored alive defaults, ?_⟩
  intro _
  rw [count]
  exact .inr (.inl (by decide))

/-- After 256 closing segments the count is zero, and the flow keeps the time-out of a
connection that is open. -/
theorem wrapped_unruled : ∃ r nf, Reaches (step (Frames.eth0 .en10mb) Frames.services [])
      (Regular (Frames.eth0 .en10mb) Frames.services []) {} r ∧
    r.flowBuckets [] = some nf ∧ nf.flags.expired = false ∧ finAcks r.log = 256 ∧
    ¬ Ruled defaults r.log nf := by
  obtain ⟨r, reached, count, nf, stored, tcp, alive⟩ := closing_run 255
  refine ⟨r, nf, reached, stored, alive, count, fun ruled => ?_⟩
  have unwrapped := (ruled_of_counted alive (counted_reached rfl rfl reached stored)).mp ruled tcp
  rw [count] at unwrapped
  exact absurd unwrapped (by decide)

end NetifyAgent.IdleTimeout
