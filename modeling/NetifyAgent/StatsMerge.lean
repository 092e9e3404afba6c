import NetifyAgent.Lib.Replay
import NetifyAgent.Lib.Threads

/-! Packet statistics on their way from the capture threads to the totals of the agent. A
thread counts in an `ndPacketStats` of its own; `ProcessUpdate` adds those of one interface up
in `pkt_stats`, clears them, and adds `pkt_stats` to `pkt_stats_global`. The merge lists the
members of `pkt` and none of `flow`, so what was counted there is cleared without being
added. -/
namespace NetifyAgent
open Replay Threads

/-- `ndPacketStats::pkt_t`. -/
structure PktT where
  raw : UInt64 := 0
  eth : UInt64 := 0
  mpls : UInt64 := 0
  pppoe : UInt64 := 0
  vlan : UInt64 := 0
  frags : UInt64 := 0
  discard : UInt64 := 0
  maxlen : UInt32 := 0
  ip : UInt64 := 0
  ip4 : UInt64 := 0
  ip6 : UInt64 := 0
  icmp : UInt64 := 0
  igmp : UInt64 := 0
  tcp : UInt64 := 0
  tcpSeqErrors : UInt64 := 0
  tcpResets : UInt64 := 0
  udp : UInt64 := 0
  ipBytes : UInt64 := 0
  ip4Bytes : UInt64 := 0
  ip6Bytes : UInt64 := 0
  wireBytes : UInt64 := 0
  discardBytes : UInt64 := 0
  queueDropped : UInt64 := 0
  captureDropped : UInt64 := 0
  captureFiltered : UInt64 := 0
  deriving DecidableEq, Repr

/-- `ndPacketStats::flow_t`. -/
structure FlowT where
  dropped : UInt64 := 0
  deriving DecidableEq, Repr

/-- `ndPacketStats`, with the members that `ProcessPacket` does not count. -/
structure NdPacketStats where
  pkt : PktT := {}
  flow : FlowT := {}
  deriving DecidableEq, Repr

namespace NdPacketStats

/-- `operator+=`. -/
def add (self_ rhs : NdPacketStats) : NdPacketStats :=
  { self_ with
    pkt := {
      raw := self_.pkt.raw + rhs.pkt.raw
      eth := self_.pkt.eth + rhs.pkt.eth
      mpls := self_.pkt.mpls + rhs.pkt.mpls
      pppoe := self_.pkt.pppoe + rhs.pkt.pppoe
      vlan := self_.pkt.vlan + rhs.pkt.vlan
      frags := self_.pkt.frags + rhs.pkt.frags
      discard := self_.pkt.discard + rhs.pkt.discard
      maxlen := if self_.pkt.maxlen < rhs.pkt.maxlen then rhs.pkt.maxlen else self_.pkt.maxlen
      ip := self_.pkt.ip + rhs.pkt.ip
      ip4 := self_.pkt.ip4 + rhs.pkt.ip4
      ip6 := self_.pkt.ip6 + rhs.pkt.ip6
      icmp := self_.pkt.icmp + rhs.pkt.icmp
      igmp := self_.pkt.igmp + rhs.pkt.igmp
      tcp := self_.pkt.tcp + rhs.pkt.tcp
      tcpSeqErrors := self_.pkt.tcpSeqErrors + rhs.pkt.tcpSeqErrors
      tcpResets := self_.pkt.tcpResets + rhs.pkt.tcpResets
      udp := self_.pkt.udp + rhs.pkt.udp
      ipBytes := self_.pkt.ipBytes + rhs.pkt.ipBytes
      ip4Bytes := self_.pkt.ip4Bytes + rhs.pkt.ip4Bytes
      ip6Bytes := self_.pkt.ip6Bytes + rhs.pkt.ip6Bytes
      wireBytes := self_.pkt.wireBytes + rhs.pkt.wireBytes
      discardBytes := self_.pkt.discardBytes + rhs.pkt.discardBytes
      queueDropped := self_.pkt.queueDropped + rhs.pkt.queueDropped
      captureDropped := self_.pkt.captureDropped + rhs.pkt.captureDropped
      captureFiltered := self_.pkt.captureFiltered + rhs.pkt.captureFiltered } }

/-- `Reset`. -/
def reset (_ : NdPacketStats) : NdPacketStats := {}

/-- `AddAndReset`: the statistics afterwards, and those they were added to. -/
def addAndReset (self_ stats : NdPacketStats) : NdPacketStats × NdPacketStats :=
  (self_.reset, stats.add self_)

end NdPacketStats

/-! ## Counters -/

/-- The members that count up: all but `maxlen`. -/
inductive StatsCounter where
  | raw
  | eth
  | mpls
  | pppoe
  | vlan
  | frags
  | discard
  | ip
  | ip4
  | ip6
  | icmp
  | igmp
  | tcp
  | tcpSeqErrors
  | tcpResets
  | udp
  | ipBytes
  | ip4Bytes
  | ip6Bytes
  | wireBytes
  | discardBytes
  | queueDropped
  | captureDropped
  | captureFiltered
  | flowDropped
  deriving DecidableEq, Repr

namespace NdPacketStats

def get (s : NdPacketStats) : StatsCounter → UInt64
  | .raw => s.pkt.raw
  | .eth => s.pkt.eth
  | .mpls => s.pkt.mpls
  | .pppoe => s.pkt.pppoe
  | .vlan => s.pkt.vlan
  | .frags => s.pkt.frags
  | .discard => s.pkt.discard
  | .ip => s.pkt.ip
  | .ip4 => s.pkt.ip4
  | .ip6 => s.pkt.ip6
  | .icmp => s.pkt.icmp
  | .igmp => s.pkt.igmp
  | .tcp => s.pkt.tcp
  | .tcpSeqErrors => s.pkt.tcpSeqErrors
  | .tcpResets => s.pkt.tcpResets
  | .udp => s.pkt.udp
  | .ipBytes => s.pkt.ipBytes
  | .ip4Bytes => s.pkt.ip4Bytes
  | .ip6Bytes => s.pkt.ip6Bytes
  | .wireBytes => s.pkt.wireBytes
  | .discardBytes => s.pkt.discardBytes
  | .queueDropped => s.pkt.queueDropped
  | .captureDropped => s.pkt.captureDropped
  | .captureFiltered => s.pkt.captureFiltered
  | .flowDropped => s.flow.dropped

/-- `stats.pkt.<counter> += n` in a capture thread. -/
def count (s : NdPacketStats) (n : UInt64) : StatsCounter → NdPacketStats
  | .raw => { s with pkt := { s.pkt with raw := s.pkt.raw + n } }
  | .eth => { s with pkt := { s.pkt with eth := s.pkt.eth + n } }
  | .mpls => { s with pkt := { s.pkt with mpls := s.pkt.mpls + n } }
  | .pppoe => { s with pkt := { s.pkt with pppoe := s.pkt.pppoe + n } }
  | .vlan => { s with pkt := { s.pkt with vlan := s.pkt.vlan + n } }
  | .frags => { s with pkt := { s.pkt with frags := s.pkt.frags + n } }
  | .discard => { s with pkt := { s.pkt with discard := s.pkt.discard + n } }
  | .ip => { s with pkt := { s.pkt with ip := s.pkt.ip + n } }
  | .ip4 => { s with pkt := { s.pkt with ip4 := s.pkt.ip4 + n } }
  | .ip6 => { s with pkt := { s.pkt with ip6 := s.pkt.ip6 + n } }
  | .icmp => { s with pkt := { s.pkt with icmp := s.pkt.icmp + n } }
  | .igmp => { s with pkt := { s.pkt with igmp := s.pkt.igmp + n } }
  | .tcp => { s with pkt := { s.pkt with tcp := s.pkt.tcp + n } }
  | .tcpSeqErrors => { s with pkt := { s.pkt with tcpSeqErrors := s.pkt.tcpSeqErrors + n } }
  | .tcpResets => { s with pkt := { s.pkt with tcpResets := s.pkt.tcpResets + n } }
  | .udp => { s with pkt := { s.pkt with udp := s.pkt.udp + n } }
  | .ipBytes => { s with pkt := { s.pkt with ipBytes := s.pkt.ipBytes + n } }
  | .ip4Bytes => { s with pkt := { s.pkt with ip4Bytes := s.pkt.ip4Bytes + n } }
  | .ip6Bytes => { s with pkt := { s.pkt with ip6Bytes := s.pkt.ip6Bytes + n } }
  | .wireBytes => { s with pkt := { s.pkt with wireBytes := s.pkt.wireBytes + n } }
  | .discardBytes => { s with pkt := { s.pkt with discardBytes := s.pkt.discardBytes + n } }
  | .queueDropped => { s with pkt := { s.pkt with queueDropped := s.pkt.queueDropped + n } }
  | .captureDropped => { s with pkt := { s.pkt with captureDropped := s.pkt.captureDropped + n } }
  | .captureFiltered => { s with pkt := { s.pkt with captureFiltered := s.pkt.captureFiltered + n } }
  | .flowDropped => { s with flow := { dropped := s.flow.dropped + n } }

/-- `if (packet->length > stats.pkt.maxlen)`. -/
def seeLength (s : NdPacketStats) (length : UInt16) : NdPacketStats :=
  if s.pkt.maxlen < length.toUInt32 then
    { s with pkt := { s.pkt with maxlen := length.toUInt32 } }
  else s

variable (s rhs : NdPacketStats) (n : UInt64) (length : UInt16)

theorem count_get (c c' : StatsCounter) :
    (s.count n c).get c' = if c' = c then s.get c' + n else s.get c' := by
  cases c <;> cases c' <;> rfl

@[simp] theorem count_maxlen (c : StatsCounter) : (s.count n c).pkt.maxlen = s.pkt.maxlen := by
  cases c <;> rfl

@[simp] theorem seeLength_get (c : StatsCounter) : (s.seeLength length).get c = s.get c := by
  unfold seeLength
  split
  · cases c <;> rfl
  · rfl

theorem seeLength_maxlen : (s.seeLength length).pkt.maxlen.toNat =
    max s.pkt.maxlen.toNat length.toNat := by
  unfold seeLength
  split
  · rename_i longer
    rw [UInt32.lt_iff_toNat_lt, UInt16.toNat_toUInt32] at longer
    rw [UInt16.toNat_toUInt32]
    omega
  · rename_i shorter
    rw [UInt32.lt_iff_toNat_lt, UInt16.toNat_toUInt32] at shorter
    omega

@[simp] theorem reset_get (c : StatsCounter) : s.reset.get c = 0 := by
  cases c <;> rfl

/-- **What the merge adds.** -/
theorem add_get (c : StatsCounter) :
    (s.add rhs).get c = if c = .flowDropped then s.get c else s.get c + rhs.get c := by
  cases c <;> rfl

theorem add_maxlen : (s.add rhs).pkt.maxlen.toNat =
    max s.pkt.maxlen.toNat rhs.pkt.maxlen.toNat := by
  show (if s.pkt.maxlen < rhs.pkt.maxlen then rhs.pkt.maxlen else s.pkt.maxlen).toNat = _
  split
  · rename_i longer
    rw [UInt32.lt_iff_toNat_lt] at longer
    omega
  · rename_i shorter
    rw [UInt32.lt_iff_toNat_lt] at shorter
    omega

/-- Every counter is added and the larger maximum is taken. -/
structure Merges (s rhs merged : NdPacketStats) : Prop where
  counters : ∀ c, merged.get c = s.get c + rhs.get c
  longest : merged.pkt.maxlen.toNat = max s.pkt.maxlen.toNat rhs.pkt.maxlen.toNat

theorem merges_iff : Merges s rhs (s.add rhs) ↔ rhs.flow.dropped = 0 := by
  constructor
  · intro merges
    have dropped := merges.counters .flowDropped
    rw [add_get, if_pos rfl] at dropped
    simpa [get] using dropped.symm
  · intro none
    refine ⟨fun c => ?_, add_maxlen s rhs⟩
    rw [add_get]
    split
    · rename_i flow
      subst flow
      show s.flow.dropped = s.flow.dropped + rhs.flow.dropped
      rw [none, UInt64.add_zero]
    · rfl

end NdPacketStats

/-! ## Capture threads and updates -/

/-- The statistics of all capture threads and what `ProcessUpdate` makes of them. -/
structure StatsSystem (threads : Nat) where
  thread : Fin threads → NdPacketStats := fun _ => {}
  pktStats : NdPacketStats := {}
  pktStatsGlobal : NdPacketStats := {}
  /-- The sum of what the threads have counted. -/
  made : StatsCounter → Nat := fun _ => 0
  /-- The longest packet the threads have seen. -/
  longest : Nat := 0

inductive StatsAction (threads : Nat) where
  | count (i : Fin threads) (c : StatsCounter) (n : UInt64)
  | seeLength (i : Fin threads) (length : UInt16)
  /-- `GetCaptureStats`: `stats.AddAndReset(pkt_stats)`. -/
  | getCaptureStats (i : Fin threads)
  /-- `pkt_stats_global += pkt_stats`; the next interface has a `pkt_stats` of its own. -/
  | addGlobal

namespace StatsSystem

variable {threads : Nat}

/-- The lock of a capture thread keeps its packets and `GetCaptureStats` apart. -/
def step (s : StatsSystem threads) : StatsAction threads → StatsSystem threads
  | .count i c n =>
    { s with
      thread := Function.update s.thread i ((s.thread i).count n c)
      made := Function.update s.made c (s.made c + n.toNat) }
  | .seeLength i length =>
    { s with
      thread := Function.update s.thread i ((s.thread i).seeLength length)
      longest := max s.longest length.toNat }
  | .getCaptureStats i =>
    let stats := (s.thread i).addAndReset s.pktStats
    { s with thread := Function.update s.thread i stats.1, pktStats := stats.2 }
  | .addGlobal => { s with pktStatsGlobal := s.pktStatsGlobal.add s.pktStats, pktStats := {} }

/-- What is left of a counter, wherever it is. -/
def held (s : StatsSystem threads) (c : StatsCounter) : Nat :=
  (s.pktStatsGlobal.get c).toNat + (s.pktStats.get c).toNat +
    total (fun stats => (stats.get c).toNat) s.thread

/-- No increment is lost and the longest packet is remembered. -/
structure Conserved (s : StatsSystem threads) : Prop where
  counters : ∀ c, s.held c % 2 ^ 64 = s.made c % 2 ^ 64
  longest : ∀ bound, s.longest ≤ bound ↔ s.pktStatsGlobal.pkt.maxlen.toNat ≤ bound ∧
    s.pktStats.pkt.maxlen.toNat ≤ bound ∧ ∀ i, (s.thread i).pkt.maxlen.toNat ≤ bound

/-- No dropped flows are merged. -/
def NoneDropped (s : StatsSystem threads) : StatsAction threads → Prop
  | .getCaptureStats i => (s.thread i).flow.dropped = 0
  | .addGlobal => s.pktStats.flow.dropped = 0
  | _ => True

variable {s : StatsSystem threads}

theorem conserved_start : Conserved ({} : StatsSystem threads) := by
  refine ⟨fun c => ?_, fun bound => ?_⟩
  · have empty : ∀ c, (({} : NdPacketStats).get c).toNat = 0 := by
      intro c
      cases c <;> rfl
    simp [held, total, empty]
  · show 0 ≤ bound ↔ 0 ≤ bound ∧ 0 ≤ bound ∧ ∀ _, 0 ≤ bound
    simp

/-- One thread's bound is replaced. -/
theorem forall_update {f : NdPacketStats → Nat} {thread : Fin threads → NdPacketStats}
    {i : Fin threads} {stats : NdPacketStats} {bound : Nat} :
    (∀ j, f (Function.update thread i stats j) ≤ bound) ↔
      f stats ≤ bound ∧ ∀ j, j ≠ i → f (thread j) ≤ bound := by
  constructor
  · intro all
    refine ⟨by simpa using all i, fun j other => ?_⟩
    simpa [Function.update_of_ne other] using all j
  · rintro ⟨here, others⟩ j
    by_cases same : j = i
    · subst same
      simpa using here
    · simpa [Function.update_of_ne same] using others j same

theorem forall_split {f : NdPacketStats → Nat} {thread : Fin threads → NdPacketStats}
    (i : Fin threads) {bound : Nat} : (∀ j, f (thread j) ≤ bound) ↔
      f (thread i) ≤ bound ∧ ∀ j, j ≠ i → f (thread j) ≤ bound := by
  rw [← forall_update (i := i), Function.update_eq_self]

/-- A merge as far as sums go: nothing but dropped flows is missing. -/
theorem merge_mod (a b : NdPacketStats) (c : StatsCounter) :
    ((a.add b).get c).toNat =
      if c = .flowDropped then (a.get c).toNat else ((a.get c).toNat + (b.get c).toNat) % 2 ^ 64 := by
  rw [NdPacketStats.add_get]
  split
  · rfl
  · exact UInt64.toNat_add ..

theorem conserved_count (conserved : Conserved s) (i : Fin threads) (c : StatsCounter)
    (n : UInt64) : Conserved (s.step (.count i c n)) := by
  refine ⟨fun c' => ?_, fun bound => ?_⟩
  · have before := conserved.counters c'
    have moved := total_update (fun stats => (stats.get c').toNat) s.thread i
      ((s.thread i).count n c)
    simp only [NdPacketStats.count_get] at moved
    simp only [held, step] at before ⊢
    by_cases same : c' = c
    · subst same
      rw [if_pos rfl, UInt64.toNat_add] at moved
      rw [Function.update_self]
      omega
    · rw [if_neg same] at moved
      rw [Function.update_of_ne same]
      omega
  · show s.longest ≤ bound ↔ _ ∧ _ ∧ ∀ j, (Function.update s.thread i _ j).pkt.maxlen.toNat ≤ bound
    rw [conserved.longest, forall_split (f := fun t => t.pkt.maxlen.toNat) i,
      forall_update (f := fun t => t.pkt.maxlen.toNat),
      NdPacketStats.count_maxlen]
    rfl

theorem conserved_seeLength (conserved : Conserved s) (i : Fin threads) (length : UInt16) :
    Conserved (s.step (.seeLength i length)) := by
  refine ⟨fun c => ?_, fun bound => ?_⟩
  · have before := conserved.counters c
    have moved := total_update (fun stats => (stats.get c).toNat) s.thread i
      ((s.thread i).seeLength length)
    simp only [NdPacketStats.seeLength_get] at moved
    simp only [held, step] at before ⊢
    omega
  · show max s.longest length.toNat ≤ bound ↔
      _ ∧ _ ∧ ∀ j, (Function.update s.thread i _ j).pkt.maxlen.toNat ≤ bound
    rw [Nat.max_le, conserved.longest, forall_split (f := fun t => t.pkt.maxlen.toNat) i,
      forall_update (f := fun t => t.pkt.maxlen.toNat), NdPacketStats.seeLength_maxlen,
      Nat.max_le]
    constructor
    · rintro ⟨⟨total, interface, here, others⟩, seen⟩
      exact ⟨total, interface, ⟨here, seen⟩, others⟩
    · rintro ⟨total, interface, ⟨here, seen⟩, others⟩
      exact ⟨⟨total, interface, here, others⟩, seen⟩

theorem toNat_zero_iff (n : UInt64) : n.toNat = 0 ↔ n = 0 :=
  ⟨fun none => UInt64.toNat_inj.mp none, fun none => none ▸ rfl⟩

theorem conserved_getCaptureStats (conserved : Conserved s) (i : Fin threads) :
    Conserved (s.step (.getCaptureStats i)) ↔ (s.thread i).flow.dropped = 0 := by
  have moved (c : StatsCounter) : total (fun stats => (stats.get c).toNat)
      (Function.update s.thread i (s.thread i).reset) + ((s.thread i).get c).toNat =
      total (fun stats => (stats.get c).toNat) s.thread := by
    have := total_update (fun stats => (stats.get c).toNat) s.thread i (s.thread i).reset
    rw [NdPacketStats.reset_get] at this
    exact this
  constructor
  · intro after
    have before := conserved.counters .flowDropped
    have after := after.counters .flowDropped
    have moved := moved .flowDropped
    have small := (s.thread i).flow.dropped.toNat_lt
    simp only [held, step, NdPacketStats.addAndReset, merge_mod, if_true] at before after
    have here : (s.thread i).get .flowDropped = (s.thread i).flow.dropped := rfl
    rw [here] at moved
    rw [← toNat_zero_iff]
    omega
  · intro none
    refine ⟨fun c => ?_, fun bound => ?_⟩
    · have before := conserved.counters c
      have moved := moved c
      simp only [held, step, NdPacketStats.addAndReset, merge_mod] at before ⊢
      split
      · rename_i flow
        subst flow
        have here : ((s.thread i).get .flowDropped).toNat = 0 := (toNat_zero_iff _).mpr none
        omega
      · omega
    · show s.longest ≤ bound ↔ _ ∧ (s.pktStats.add (s.thread i)).pkt.maxlen.toNat ≤ bound ∧
        ∀ j, (Function.update s.thread i _ j).pkt.maxlen.toNat ≤ bound
      rw [conserved.longest, forall_split (f := fun t => t.pkt.maxlen.toNat) i,
        forall_update (f := fun t => t.pkt.maxlen.toNat), NdPacketStats.add_maxlen, Nat.max_le]
      constructor
      · rintro ⟨total, interface, here, others⟩
        exact ⟨total, ⟨interface, here⟩, Nat.zero_le _, others⟩
      · rintro ⟨total, ⟨interface, here⟩, _, others⟩
        exact ⟨total, interface, here, others⟩

theorem conserved_addGlobal (conserved : Conserved s) :
    Conserved (s.step .addGlobal) ↔ s.pktStats.flow.dropped = 0 := by
  have empty (c : StatsCounter) : (({} : NdPacketStats).get c).toNat = 0 :=
    congrArg UInt64.toNat (NdPacketStats.reset_get {} c)
  constructor
  · intro after
    have before := conserved.counters .flowDropped
    have after := after.counters .flowDropped
    have small := s.pktStats.flow.dropped.toNat_lt
    simp only [held, step, merge_mod, if_true, empty] at before after
    have here : s.pktStats.get .flowDropped = s.pktStats.flow.dropped := rfl
    rw [here] at before
    rw [← toNat_zero_iff]
    omega
  · intro none
    refine ⟨fun c => ?_, fun bound => ?_⟩
    · have before := conserved.counters c
      simp only [held, step, merge_mod, empty] at before ⊢
      split
      · rename_i flow
        subst flow
        have here : (s.pktStats.get .flowDropped).toNat = 0 := (toNat_zero_iff _).mpr none
        omega
      · omega
    · show s.longest ≤ bound ↔ (s.pktStatsGlobal.add s.pktStats).pkt.maxlen.toNat ≤ bound ∧
        0 ≤ bound ∧ _
      rw [conserved.longest, NdPacketStats.add_maxlen, Nat.max_le]
      constructor
      · rintro ⟨total, interface, others⟩
        exact ⟨⟨total, interface⟩, Nat.zero_le _, others⟩
      · rintro ⟨⟨total, interface⟩, _, others⟩
        exact ⟨total, interface, others⟩

/-- **One step** loses nothing exactly when it merges no dropped flows. -/
theorem conserved_step (conserved : Conserved s) (a : StatsAction threads) :
    Conserved (s.step a) ↔ NoneDropped s a := by
  cases a with
  | count i c n => exact iff_of_true (conserved_count conserved i c n) trivial
  | seeLength i length => exact iff_of_true (conserved_seeLength conserved i length) trivial
  | getCaptureStats i => exact conserved_getCaptureStats conserved i
  | addGlobal => exact conserved_addGlobal conserved

/-- Once everything is merged the global statistics are all there is. -/
theorem Conserved.total (conserved : Conserved s) (threads : ∀ i, s.thread i = {})
    (interface : s.pktStats = {}) (c : StatsCounter) :
    (s.pktStatsGlobal.get c).toNat = s.made c % 2 ^ 64 := by
  have empty : (({} : NdPacketStats).get c).toNat = 0 :=
    congrArg UInt64.toNat (NdPacketStats.reset_get {} c)
  have all := conserved.counters c
  have small := (s.pktStatsGlobal.get c).toNat_lt
  simp only [held, Threads.total, threads, interface, empty, Finset.sum_const_zero] at all
  omega

/-- **The merge is complete and loses nothing exactly where no dropped flows are merged.** -/
theorem merged_whole_iff (stats rhs : NdPacketStats) (actions : List (StatsAction threads)) :
    (stats.Merges rhs (stats.add rhs) ↔ rhs.flow.dropped = 0) ∧
      (Along step (fun s a => Conserved (s.step a)) {} actions ↔
        Along step NoneDropped {} actions) :=
  ⟨stats.merges_iff rhs, along_iff conserved_start fun _ a kept => conserved_step kept a⟩

/-- A flow that one thread drops is in no statistics after the next update. -/
theorem dropped_lost :
    ¬ NdPacketStats.Merges {} { flow := { dropped := 1 } }
        (NdPacketStats.add {} { flow := { dropped := 1 } }) ∧
      ¬ Along step (fun s a => Conserved (s.step a)) ({} : StatsSystem 1)
        [.count 0 .flowDropped 1, .getCaptureStats 0, .addGlobal] := by
  constructor
  · intro merges
    exact absurd (merges.counters .flowDropped) (by decide)
  · rintro ⟨_, kept, _⟩
    exact absurd (kept.counters .flowDropped) (by decide)

end StatsSystem
end NetifyAgent
