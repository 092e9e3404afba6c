import NetifyAgent.OneFlow

/-! The sequence check of TCP flows. The number to compare with is written in the error branch
only, and nothing else ever sets it, so that it stays zero and no packet is compared with the one
before it. -/
namespace NetifyAgent.SequenceErrors
open NetifyAgent.Bytes NetifyAgent.Dissection NetifyAgent.Runs NetifyAgent.OneFlow

/-- The sequence number of a packet in host order. -/
def hostSeq (x : Taken) : Nat := be32 x.packet.data (x.headers.ip.l4 + 4)

/-- The packet was counted in `tcp_seq_errors`. -/
def Counted (x : Taken) : Prop := x.before.stats.tcpSeqErrors < x.after.stats.tcpSeqErrors

instance : DecidablePred Counted := fun _ => inferInstanceAs (Decidable (_ < _))

/-- The packets, after the first, whose sequence number is not greater than that of the packet
before. -/
def late : List Taken → Nat
  | x :: y :: rest => (if hostSeq y ≤ hostSeq x then 1 else 0) + late (y :: rest)
  | _ => 0

/-- The law of the sequence check. -/
structure Tracked (id : Identity) (log : List Taken) : Prop where
  lastSeq : ∀ x ∈ log, ∀ nf, x.after.flowBuckets id.digest = some nf →
    nf.tcpLastSeq = CaptureThread.thSeq x.packet x.headers
  errors : log.countP (fun x => Counted x) = late log

/-- A TCP flow whose packets have these headers. -/
def Tcp (log : List Taken) : Prop := ∀ x ∈ log, x.headers.ip.ipProtocol = IPPROTO_TCP

section
variable {cfg : CaptureConfig} {s : CaptureServices} {id : Identity} {start r : FlowRun}

/-- A packet that left zero behind, and that is an error if its number is zero. -/
def Stalled (id : Identity) (x : Taken) : Prop :=
  (∃ nf, x.after.flowBuckets id.digest = some nf ∧ nf.tcpLastSeq = 0) ∧
    (Counted x ↔ CaptureThread.thSeq x.packet x.headers = 0)

/-- What holds of the flow of TCP packets. -/
structure Stall (id : Identity) (log : List Taken) (nf : Flow) : Prop where
  ipProtocol : nf.ipProtocol = IPPROTO_TCP.toNat
  tcpLastSeq : nf.tcpLastSeq = 0
  log : ∀ x ∈ log, Stalled id x

/-- A packet that meets zero leaves zero. -/
theorem stalled_of_meets {x : Taken} {nf nf' : Flow} (tcp : nf.ipProtocol = IPPROTO_TCP.toNat)
    (zero : nf.tcpLastSeq = 0) (meets : Meets x nf nf') :
    nf'.tcpLastSeq = 0 ∧ (Counted x ↔ CaptureThread.thSeq x.packet x.headers = 0) := by
  have late_iff : Late x.packet x.headers nf ↔ CaptureThread.thSeq x.packet x.headers = 0 := by
    unfold Late
    rw [and_iff_right tcp, zero, Nat.le_zero]
  have last := meets.counts.tcpLastSeq
  have errors := meets.errors
  unfold Counted
  simp only [late_iff] at last errors
  by_cases null : CaptureThread.thSeq x.packet x.headers = 0
  · rw [if_pos null] at last errors
    exact ⟨last.trans null, iff_of_true (by omega) null⟩
  · rw [if_neg null] at last errors
    exact ⟨last.trans zero, iff_of_false (by omega) null⟩

/-- **The number never moves.** Every packet of a TCP flow leaves zero behind, and is an error
exactly if its sequence number is zero. -/
theorem stalled_run (run : Run cfg s id start r) (tcp : Tcp r.log) :
    ∀ x ∈ r.log, Stalled id x := by
  have rule := Run.rule (J := fun log nf => Tcp log → Stall id log nf) ?_ ?_ ?_ run
  · cases rule.1 with
    | absent log _ =>
      rw [log]
      exact fun x member => absurd member List.not_mem_nil
    | stands nf _ holds => exact (holds tcp).log
  · intro x nf recorded stored meets tcp
    have protocol : x.after.flow.copy.ipProtocol = IPPROTO_TCP.toNat := by
      obtain ⟨vlanId, key⟩ := recorded.key
      rw [← tcp x (List.mem_singleton_self x)]
      exact congrArg FlowKey.ipProtocol key
    have blank : x.after.flow.copy.tcpLastSeq = 0 := recorded.blank_after.tcpLastSeq
    obtain ⟨last, counted⟩ := stalled_of_meets protocol blank meets
    refine ⟨meets.counts.ipProtocol.trans protocol, last, fun y member => ?_⟩
    rw [List.mem_singleton.mp member]
    exact ⟨⟨nf, stored, last⟩, counted⟩
  · intro log x nf nf' holds recorded stored meets tcp
    have before := holds fun y member => tcp y (List.mem_append_left _ member)
    obtain ⟨last, counted⟩ := stalled_of_meets before.ipProtocol before.tcpLastSeq meets
    refine ⟨meets.counts.ipProtocol.trans before.ipProtocol, last, fun y member => ?_⟩
    rcases List.mem_append.mp member with earlier | latest
    · exact before.log y earlier
    · rw [List.mem_singleton.mp latest]
      exact ⟨⟨nf', stored, last⟩, counted⟩
  · intro log nf nf' holds kept tcp
    have before := holds tcp
    exact ⟨kept.ipProtocol.trans before.ipProtocol, kept.tcpLastSeq.trans before.tcpLastSeq,
      before.log⟩

end

/-- A number that is zero as it is stored is zero. -/
theorem hostSeq_eq_zero {x : Taken} (zero : CaptureThread.thSeq x.packet x.headers = 0) :
    hostSeq x = 0 := by
  unfold CaptureThread.thSeq le32 le16 at zero
  unfold hostSeq be32 be16
  omega

/-- All but the first of a sequence of zeros are late. -/
theorem late_of_zero (log : List Taken) (zero : ∀ x ∈ log, hostSeq x = 0) :
    late log = log.length - 1 := by
  induction log with
  | nil => rfl
  | cons x log ih =>
    have rest := ih fun y member => zero y (List.mem_cons_of_mem x member)
    cases log with
    | nil => rfl
    | cons y log =>
      have first := zero x List.mem_cons_self
      have second := zero y (List.mem_cons_of_mem x List.mem_cons_self)
      rw [late, rest, if_pos (by omega)]
      simp only [List.length_cons]
      omega

/-- **No sequence of TCP packets is tracked.** A flow that has taken a packet does not remember
the sequence numbers and count the late packets, whatever came. -/
theorem never_tracked {cfg : CaptureConfig} {s : CaptureServices} {id : Identity}
    {start r : FlowRun} (run : Run cfg s id start r) (tcp : Tcp r.log) (some : r.log ≠ []) :
    ¬ Tracked id r.log := by
  intro tracked
  have stalled := stalled_run run tcp
  have zero : ∀ x ∈ r.log, CaptureThread.thSeq x.packet x.headers = 0 := by
    intro x member
    obtain ⟨⟨nf, stored, last⟩, _⟩ := stalled x member
    exact (tracked.lastSeq x member nf stored).symm.trans last
  have all : r.log.countP (fun x => Counted x) = r.log.length := by
    apply List.countP_eq_length.mpr
    intro x member
    exact decide_eq_true ((stalled x member).2.mpr (zero x member))
  have behind := late_of_zero r.log fun x member => hostSeq_eq_zero (zero x member)
  have length : 0 < r.log.length := List.length_pos_iff.mpr some
  have errors := tracked.errors
  rw [all, behind] at errors
  omega

/-! ## A segment that comes twice -/

/-- A segment from port 4000 of the first host to port 80 of the second. -/
def segment (seq : UInt8) : Packet :=
  .ofBytes (Frames.ethernet (Frames.mac 2) (Frames.mac 1) 0x0800
    (Frames.ipv4 6 (Frames.host 1) (Frames.host 2)
      (Frames.be 4000 ++ Frames.be 80 ++ [0, 0, 0, seq, 0, 0, 0, 0, 0x50, 0x10] ++
        List.replicate 6 0)))

def segmentHeaders : Headers := ⟨⟨14, 4, 6, 20, 34, 20, 0, -1⟩, none, some (54, 0)⟩

/-- The flow of these segments, with its ports as they are stored. -/
def segmentFlow : Identity where
  digest := []
  lower := (Frames.host 1, 0xa00f)
  upper := (Frames.host 2, 0x5000)

/-- The run of one segment after another. -/
def segments (seqs : List UInt8) : Option FlowRun :=
  exec (step (Frames.eth0 .en10mb) Frames.services)
    (Checks (Frames.eth0 .en10mb) Frames.services segmentFlow) {}
    (seqs.map fun seq => .mine 2 (segment seq) segmentHeaders)

theorem run_of_segments {seqs : List UInt8} {r : FlowRun} (done : segments seqs = some r) :
    Run (Frames.eth0 .en10mb) Frames.services segmentFlow {} r :=
  ⟨⟨rfl, rfl, rfl⟩, (reaches_of_exec done).weaken fun _ _ => regular_of_checks⟩

theorem never_tracked_once : ∃ r, Run (Frames.eth0 .en10mb) Frames.services segmentFlow {} r ∧
    Tcp r.log ∧ r.log ≠ [] ∧ ¬ Tracked segmentFlow r.log := by
  have found : (segments [0]).any (fun r => r.log.length = 1 ∧
      ∀ x ∈ r.log, x.headers.ip.ipProtocol = IPPROTO_TCP) = true := by decide +kernel
  obtain ⟨r, done, holds⟩ := (Option.any_eq_true _ _).mp found
  obtain ⟨length, tcp⟩ := of_decide_eq_true holds
  have some : r.log ≠ [] := List.ne_nil_of_length_pos (by omega)
  exact ⟨r, run_of_segments done, tcp, some, never_tracked (run_of_segments done) tcp some⟩

/-- A segment comes twice: neither is remembered, and the second is no error. -/
theorem repeated_missed : ∃ r, Run (Frames.eth0 .en10mb) Frames.services segmentFlow {} r ∧
    Tcp r.log ∧ r.log.countP (fun x => Counted x) = 0 ∧ late r.log = 1 ∧
    ¬ Tracked segmentFlow r.log := by
  have found : (segments [7, 7]).any (fun r => r.log.countP (fun x => Counted x) = 0 ∧
      late r.log = 1 ∧ ∀ x ∈ r.log, x.headers.ip.ipProtocol = IPPROTO_TCP) = true := by
    decide +kernel
  obtain ⟨r, done, holds⟩ := (Option.any_eq_true _ _).mp found
  obtain ⟨counted, behind, tcp⟩ := of_decide_eq_true holds
  refine ⟨r, run_of_segments done, tcp, counted, behind, fun tracked => ?_⟩
  have errors := tracked.errors
  rw [counted, behind] at errors
  cases errors

end NetifyAgent.SequenceErrors
