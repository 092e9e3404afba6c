import NetifyAgent.OneFlow

/-! The counters of both directions of a flow. A packet is counted by the comparison of its own
addresses, while the flow knows its endpoints by address and port: the two differ for packets
between equal addresses, whose ports alone tell the endpoints apart. -/
namespace NetifyAgent.Directions
open NetifyAgent.Bytes NetifyAgent.Dissection NetifyAgent.Runs NetifyAgent.OneFlow

/-- The endpoint that sent a packet, with the port as it is stored, and zero where the protocol
has none. -/
def source (x : Taken) : List UInt8 × Nat :=
  (x.headers.ip.src x.packet,
    if x.headers.ip.ipProtocol = IPPROTO_TCP ∨ x.headers.ip.ipProtocol = IPPROTO_UDP then
      le16 x.packet.data x.headers.ip.l4
    else 0)

/-- The packet comes from the lower endpoint of the flow. -/
def FromLower (nf : Flow) (x : Taken) : Prop := source x = nf.lowerAddr.endpoint

instance (nf : Flow) : DecidablePred (FromLower nf) := fun _ => inferInstanceAs (Decidable (_ = _))

def packets (side : Taken → Prop) [DecidablePred side] (log : List Taken) : Nat :=
  log.countP fun x => side x

def bytes (side : Taken → Prop) [DecidablePred side] : List Taken → Nat
  | [] => 0
  | x :: log => (if side x then x.packet.length.toNat else 0) + bytes side log

/-- The law of the counters. -/
structure Directional (nf : Flow) (log : List Taken) : Prop where
  lowerPackets : nf.stats.lowerPackets = packets (FromLower nf) log
  lowerBytes : nf.stats.lowerBytes = bytes (FromLower nf) log
  upperPackets : nf.stats.upperPackets = packets (fun x => ¬ FromLower nf x) log
  upperBytes : nf.stats.upperBytes = bytes (fun x => ¬ FromLower nf x) log
  totalPackets : nf.stats.lowerPackets + nf.stats.upperPackets = nf.stats.totalPackets
  totalBytes : nf.stats.lowerBytes + nf.stats.upperBytes = nf.stats.totalBytes

/-- A packet between two equal addresses does not come from the lower endpoint, unless a tunnel
that runs from the lower to the higher address is around it. -/
def Apart (nf : Flow) (x : Taken) : Prop :=
  x.headers.ip.src x.packet = x.headers.ip.dst x.packet → FromLower nf x → x.headers.ip.addrCmp < 0

/-! ## Sums -/

section
variable {side side' : Taken → Prop} [DecidablePred side] [DecidablePred side']

theorem packets_snoc (log : List Taken) (x : Taken) :
    packets side (log ++ [x]) = packets side log + if side x then 1 else 0 := by
  unfold packets
  rw [List.countP_append, List.countP_singleton]
  simp

theorem bytes_snoc (log : List Taken) (x : Taken) :
    bytes side (log ++ [x]) = bytes side log + if side x then x.packet.length.toNat else 0 := by
  induction log with
  | nil => simp [bytes]
  | cons y log ih => rw [List.cons_append, bytes, bytes, ih, Nat.add_assoc]

theorem packets_congr {log : List Taken} (same : ∀ x ∈ log, side x ↔ side' x) :
    packets side log = packets side' log := by
  unfold packets
  apply List.countP_congr
  intro x member
  simpa using same x member

theorem bytes_congr {log : List Taken} (same : ∀ x ∈ log, side x ↔ side' x) :
    bytes side log = bytes side' log := by
  induction log with
  | nil => rfl
  | cons x log ih =>
    have first := same x List.mem_cons_self
    simp only [bytes, first, ih fun y member => same y (List.mem_cons_of_mem x member)]

/-- A side that is part of another has as many packets only if it is the whole of it. -/
theorem whole_of_packets {log : List Taken} (part : ∀ x ∈ log, side x → side' x)
    (same : packets side log = packets side' log) : ∀ x ∈ log, side' x → side x := by
  induction log with
  | nil => exact fun x member => absurd member List.not_mem_nil
  | cons y log ih =>
    have rest : ∀ x ∈ log, side x → side' x := fun x member =>
      part x (List.mem_cons_of_mem y member)
    have fewer : packets side log ≤ packets side' log := by
      apply List.countP_mono_left
      simpa using rest
    have count : packets side (y :: log) = packets side log + if side y then 1 else 0 := by
      simp [packets, List.countP_cons]
    have count' : packets side' (y :: log) = packets side' log + if side' y then 1 else 0 := by
      simp [packets, List.countP_cons]
    have here := part y List.mem_cons_self
    rw [count, count'] at same
    intro x member inside
    by_cases first : side y
    · rw [if_pos first, if_pos (here first)] at same
      rcases List.mem_cons.mp member with rfl | later
      · exact first
      · exact ih rest (Nat.add_right_cancel same) x later inside
    · rw [if_neg first] at same
      split at same
      · omega
      · rename_i outside
        rcases List.mem_cons.mp member with rfl | later
        · exact absurd inside outside
        · exact ih rest same x later inside

end

/-! ## What is counted -/

section
variable {cfg : CaptureConfig} {s : CaptureServices} {id : Identity} {start r : FlowRun}

/-- The packet is counted as one of the lower side. -/
def Forward (x : Taken) : Prop := x.headers.ip.addrCmp < 0

instance : DecidablePred Forward := fun _ => inferInstanceAs (Decidable (_ < _))

/-- What is counted in a flow. -/
structure Tallied (id : Identity) (log : List Taken) (nf : Flow) : Prop where
  lower : nf.lowerAddr.endpoint = id.lower
  lowerPackets : nf.stats.lowerPackets = packets Forward log
  lowerBytes : nf.stats.lowerBytes = bytes Forward log
  upperPackets : nf.stats.upperPackets = packets (fun x => ¬ Forward x) log
  upperBytes : nf.stats.upperBytes = bytes (fun x => ¬ Forward x) log
  totalPackets : nf.stats.lowerPackets + nf.stats.upperPackets = nf.stats.totalPackets
  totalBytes : nf.stats.lowerBytes + nf.stats.upperBytes = nf.stats.totalBytes

/-- A packet is counted on its side. -/
theorem seen_sides (stats : FlowStats) (x : Taken) :
    CaptureThread.FlowStats.seen stats x.headers.ip.addrCmp x.packet.length.toNat =
      { stats with
        lowerBytes := stats.lowerBytes + if Forward x then x.packet.length.toNat else 0
        upperBytes := stats.upperBytes + if ¬ Forward x then x.packet.length.toNat else 0
        totalBytes := stats.totalBytes + x.packet.length.toNat
        lowerPackets := stats.lowerPackets + if Forward x then 1 else 0
        upperPackets := stats.upperPackets + if ¬ Forward x then 1 else 0
        totalPackets := stats.totalPackets + 1 } := by
  unfold CaptureThread.FlowStats.seen Forward
  split <;> simp [*]

theorem Tallied.snoc {log : List Taken} {x : Taken} {nf nf' : Flow} (tallied : Tallied id log nf)
    (counts : Counts x.packet x.headers nf nf') : Tallied id (log ++ [x]) nf' := by
  have counters := counts.counters
  rw [seen_sides] at counters
  simp only [OneFlow.counters, FlowStats.mk.injEq, and_true] at counters
  obtain ⟨lowerBytes, upperBytes, totalBytes, lowerPackets, upperPackets, totalPackets⟩ := counters
  have packetsSum := tallied.totalPackets
  have bytesSum := tallied.totalBytes
  constructor
  · rw [counts.lowerAddr]
    exact tallied.lower
  · rw [lowerPackets, packets_snoc, tallied.lowerPackets]
  · rw [lowerBytes, bytes_snoc, tallied.lowerBytes]
  · rw [upperPackets, packets_snoc, tallied.upperPackets]
  · rw [upperBytes, bytes_snoc, tallied.upperBytes]
  · rw [lowerPackets, upperPackets, totalPackets]
    split_ifs <;> omega
  · rw [lowerBytes, upperBytes, totalBytes]
    split_ifs <;> omega

theorem Tallied.kept {log : List Taken} {nf nf' : Flow} (tallied : Tallied id log nf)
    (kept : OneFlow.Kept nf nf') : Tallied id log nf' := by
  obtain ⟨lowerBytes, upperBytes, totalBytes, lowerPackets, upperPackets, totalPackets, _⟩ :=
    FlowStats.mk.inj kept.counters
  constructor
  · rw [kept.lowerAddr]
    exact tallied.lower
  · exact lowerPackets.trans tallied.lowerPackets
  · exact lowerBytes.trans tallied.lowerBytes
  · exact upperPackets.trans tallied.upperPackets
  · exact upperBytes.trans tallied.upperBytes
  · rw [lowerPackets, upperPackets, totalPackets]
    exact tallied.totalPackets
  · rw [lowerBytes, upperBytes, totalBytes]
    exact tallied.totalBytes

/-- **Every run counts by the comparison of the addresses.** -/
theorem tallied_run (run : Run cfg s id start r) {nf : Flow}
    (stored : r.thread.flowBuckets id.digest = some nf) :
    Tallied id r.log nf ∧ ∀ x ∈ r.log, Recorded cfg s id x := by
  have rule := Run.rule (J := Tallied id) ?_ ?_ ?_ run
  · refine ⟨?_, rule.2⟩
    cases rule.1 with
    | absent _ absent => exact absurd (absent.symm.trans stored) (by simp)
    | stands nf' stored' holds =>
      cases stored.symm.trans stored'
      exact holds
  · intro x nf recorded _ meets
    have blank : Tallied id [] x.after.flow.copy :=
      ⟨recorded.joined.lower, rfl, rfl, rfl, rfl, rfl, rfl⟩
    exact blank.snoc meets.counts
  · intro log x nf nf' tallied _ _ meets
    exact tallied.snoc meets.counts
  · intro log nf nf' tallied kept
    exact tallied.kept kept

/-! ## Where the packets come from -/

/-- Of a packet of the flow, its source, its addresses and their comparison. -/
theorem Recorded.sides {x : Taken} (recorded : Recorded cfg s id x) :
    (Forward x → source x = id.lower) ∧
      (¬ Forward x → source x = id.lower → x.headers.ip.src x.packet = x.headers.ip.dst x.packet) := by
  obtain ⟨vlanId, key⟩ := recorded.key
  obtain ⟨fuel, _, ended⟩ := recorded.taken
  obtain ⟨link, last, reached⟩ := reached_of_dissect ended
  obtain ⟨l2Len, kept, accepted, _, same⟩ := processIp_last reached.headers
  simp only at same
  have consistent : x.headers.ip.addrCmp = 0 →
      x.headers.ip.src x.packet = x.headers.ip.dst x.packet := by
    rw [same]
    exact addrCmp_consistent
  have lower : id.lower = (packetKey cfg.dlType x.packet x.headers.ip vlanId).lower := by
    rw [← key]
    exact recorded.joined.lower.symm
  rw [lower]
  constructor
  · intro forward
    have less : x.headers.ip.addrCmp < 0 := forward
    simp only [source, packetKey, IpHeader.addrs, IpHeader.ports, ordered, orderedPorts, if_pos less]
    split <;> rfl
  · intro notForward fromLower
    rcases lt_or_eq_of_le (not_lt.mp notForward) with greater | equal
    · have notLess : ¬ x.headers.ip.addrCmp < 0 := notForward
      have first := congrArg Prod.fst fromLower
      simp only [source, packetKey, IpHeader.addrs, ordered, if_neg notLess] at first
      exact first
    · exact consistent equal.symm

/-- What comes from the lower endpoint is counted there, unless the addresses are equal. -/
theorem forward_iff {x : Taken} {nf : Flow} (recorded : Recorded cfg s id x)
    (lower : nf.lowerAddr.endpoint = id.lower) :
    (Forward x → FromLower nf x) ∧ (Apart nf x ↔ (FromLower nf x → Forward x)) := by
  obtain ⟨forward, equal⟩ := Recorded.sides recorded
  unfold Apart FromLower
  rw [lower]
  refine ⟨forward, ?_, ?_⟩
  · intro apart fromLower
    by_contra notForward
    exact notForward (apart (equal notForward fromLower) fromLower)
  · intro counted _ fromLower
    exact counted fromLower

end

/-- The counters of a flow obey the law exactly if no packet between equal addresses came from its
lower endpoint. -/
theorem directional_iff {cfg : CaptureConfig} {s : CaptureServices} {id : Identity}
    {start r : FlowRun} {nf : Flow} (run : Run cfg s id start r)
    (stored : r.thread.flowBuckets id.digest = some nf) :
    Directional nf r.log ↔ ∀ x ∈ r.log, Apart nf x := by
  obtain ⟨tallied, recorded⟩ := tallied_run run stored
  have sides := fun x member => forward_iff (recorded x member) tallied.lower
  constructor
  · intro law x member
    have same : packets Forward r.log = packets (FromLower nf) r.log :=
      tallied.lowerPackets.symm.trans law.lowerPackets
    have whole := whole_of_packets (fun y member => (sides y member).1) same
    exact (sides x member).2.mpr (whole x member)
  · intro apart
    have same : ∀ x ∈ r.log, Forward x ↔ FromLower nf x := fun x member =>
      ⟨(sides x member).1, (sides x member).2.mp (apart x member)⟩
    have others : ∀ x ∈ r.log, ¬ Forward x ↔ ¬ FromLower nf x := fun x member =>
      not_congr (same x member)
    exact ⟨tallied.lowerPackets.trans (packets_congr same),
      tallied.lowerBytes.trans (bytes_congr same),
      tallied.upperPackets.trans (packets_congr others),
      tallied.upperBytes.trans (bytes_congr others), tallied.totalPackets, tallied.totalBytes⟩

/-! ## Two hosts, and one -/

/-- The headers of a UDP packet without payload. -/
def udpHeaders (addrCmp : Int) : Headers := ⟨⟨14, 4, 17, 20, 34, 8, 0, addrCmp⟩, none, some (42, 0)⟩

/-- The flow between port 80 of one host and port 4000 of another, with the ports as they are
stored. -/
def flowOf (lower upper : UInt8) : Identity where
  digest := []
  lower := (Frames.host lower, 0x5000)
  upper := (Frames.host upper, 0xa00f)

/-- The run of one packet from the lower to the upper host. -/
def onePacket (lower upper : UInt8) (addrCmp : Int) : Option FlowRun :=
  exec (step (Frames.eth0 .en10mb) Frames.services)
    (Checks (Frames.eth0 .en10mb) Frames.services (flowOf lower upper)) {}
    [.mine 2 (Frames.udpFrame lower upper 80 4000 []) (udpHeaders addrCmp)]

theorem run_of_onePacket {lower upper : UInt8} {addrCmp : Int} {r : FlowRun}
    (done : onePacket lower upper addrCmp = some r) :
    Run (Frames.eth0 .en10mb) Frames.services (flowOf lower upper) {} r :=
  ⟨⟨rfl, rfl, rfl⟩, (reaches_of_exec done).weaken fun _ _ => regular_of_checks⟩

theorem two_hosts_directional : ∃ r nf,
    Run (Frames.eth0 .en10mb) Frames.services (flowOf 1 2) {} r ∧
      r.thread.flowBuckets [] = some nf ∧ Directional nf r.log := by
  have found : (onePacket 1 2 (-1)).any (fun r => (r.thread.flowBuckets []).isSome ∧
      ∀ x ∈ r.log, x.headers.ip.src x.packet ≠ x.headers.ip.dst x.packet) = true := by
    decide +kernel
  obtain ⟨r, done, holds⟩ := (Option.any_eq_true _ _).mp found
  obtain ⟨present, differ⟩ := of_decide_eq_true holds
  obtain ⟨nf, stored⟩ := Option.isSome_iff_exists.mp present
  have run := run_of_onePacket done
  refine ⟨r, nf, run, stored, (directional_iff run stored).mpr fun x member equal => ?_⟩
  exact absurd equal (differ x member)

/-- A packet from port 80 to port 4000 of one host comes from the lower endpoint, and is counted as
one from the upper. -/
theorem one_host_miscounted : ∃ r nf,
    Run (Frames.eth0 .en10mb) Frames.services (flowOf 1 1) {} r ∧
      r.thread.flowBuckets [] = some nf ∧ nf.stats.lowerPackets = 0 ∧
      packets (FromLower nf) r.log = 1 ∧ ¬ Directional nf r.log := by
  have found : (onePacket 1 1 0).any (fun r => (r.thread.flowBuckets []).any fun nf =>
      nf.stats.lowerPackets = 0 ∧ packets (FromLower nf) r.log = 1) = true := by decide +kernel
  obtain ⟨r, done, holds⟩ := (Option.any_eq_true _ _).mp found
  obtain ⟨nf, stored, counted⟩ := (Option.any_eq_true _ _).mp holds
  obtain ⟨lower, sent⟩ := of_decide_eq_true counted
  refine ⟨r, nf, run_of_onePacket done, stored, lower, sent, fun law => ?_⟩
  have packets := law.lowerPackets
  rw [lower, sent] at packets
  cases packets

end NetifyAgent.Directions
