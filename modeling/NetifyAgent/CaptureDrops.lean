import Mathlib.Data.UInt
import NetifyAgent.Lib.Runs
import NetifyAgent.StatsMerge

/-! Packets that the kernel dropped, from the capture threads of one interface to the value
that `ProcessUpdate` reports. Each back end counts in a place of its own: libpcap in counters
that grow with the handle, the packet ring in a counter that is cleared when it is read, a
netfilter queue in a member of its thread. The first two go into the statistics of the thread,
the last overwrites what the threads before it have added. -/
namespace NetifyAgent
open Runs

/-- `pcap_stat`, as far as it is read. -/
structure PcapStat where
  psDrop : UInt32 := 0
  psIfdrop : UInt32 := 0
  deriving DecidableEq, Repr

/-- `ndCapturePcap`. -/
structure PcapThread where
  stats : NdPacketStats := {}
  /-- The capture type is `ndCT_PCAP_OFFLINE`. -/
  offline : Bool := false
  /-- The counters of the open handle. -/
  pcap : Option PcapStat := none
  pcsLast : PcapStat := {}
  /-- `pcap_stats` returns an error. -/
  failing : Bool := false
  /-- What the counters of the open handle were when they were last read. -/
  read : PcapStat := {}
  /-- Packets dropped on handles that were closed before their counters were read. -/
  lost : Nat := 0

/-- `ndCaptureTPv3`. -/
structure TPv3Thread where
  stats : NdPacketStats := {}
  /-- `tp_drops` of the ring's socket. -/
  ring : Option UInt32 := none
  /-- `getsockopt` returns an error. -/
  failing : Bool := false

/-- `ndCaptureNFQueue`. -/
structure NfqThread where
  stats : NdPacketStats := {}
  dropped : UInt64 := 0

/-- A capture thread, as far as it counts dropped packets. -/
inductive DropThread where
  | pcap (t : PcapThread)
  | tpv3 (t : TPv3Thread)
  | nfq (t : NfqThread)

namespace DropThread

/-! ## `GetCaptureStats` -/

/-- `if (pcs_last.ps_drop <= pcs.ps_drop) dropped -= pcs_last.ps_drop`, or the same of
`ps_ifdrop`. -/
def subtracted (last now : UInt32) : UInt32 := if last ≤ now then last else 0

/-- The `dropped` of `ndCapturePcap::GetCaptureStats`: the sum is one of 32-bit numbers. -/
def pcapDropped (last now : PcapStat) : UInt64 :=
  (now.psDrop + now.psIfdrop).toUInt64 - (subtracted last.psDrop now.psDrop).toUInt64 -
    (subtracted last.psIfdrop now.psIfdrop).toUInt64

def setDropped (stats : NdPacketStats) (dropped : UInt64) : NdPacketStats :=
  { stats with pkt := { stats.pkt with captureDropped := dropped } }

/-- `ndCapturePcap::GetCaptureStats`, in front of the call of the base class. -/
def readPcap (t : PcapThread) : PcapThread :=
  match t.pcap with
  | some pcs =>
    if t.offline = false ∧ t.failing = false then
      { t with
        stats := setDropped t.stats (pcapDropped t.pcsLast pcs)
        pcsLast := pcs
        read := pcs
        lost := 0 }
    else t
  | none => t

/-- `ndPacketRing::GetStats`. The kernel clears what was read. -/
def readRing (t : TPv3Thread) : TPv3Thread :=
  match t.ring with
  | some drops =>
    if t.failing = false then
      { t with stats := setDropped t.stats drops.toUInt64, ring := some 0 }
    else t
  | none => t

/-- `GetCaptureStats`: the thread afterwards, and the statistics that were passed. -/
def getCaptureStats : DropThread → NdPacketStats → DropThread × NdPacketStats
  | .pcap t, stats =>
    let t := readPcap t
    let added := t.stats.addAndReset stats
    (.pcap { t with stats := added.1 }, added.2)
  | .tpv3 t, stats =>
    let t := readRing t
    let added := t.stats.addAndReset stats
    (.tpv3 { t with stats := added.1 }, added.2)
  | .nfq t, stats =>
    -- the statistics that were passed, not those of the thread
    let added := t.stats.addAndReset (setDropped stats t.dropped)
    (.nfq { t with stats := added.1, dropped := 0 }, added.2)

/-! ## What happens to a thread -/

inductive Event where
  /-- `ps_drop` grows. -/
  | drop (n : Nat)
  /-- `ps_ifdrop` grows. -/
  | ifdrop (n : Nat)
  | close
  | open_
  /-- The ring is created. -/
  | ring
  /-- `tp_drops` grows. -/
  | tpDrop (n : Nat)
  /-- `mnl_socket_recvfrom` returns `ENOBUFS`. -/
  | enobufs
  | failing (b : Bool)
  /-- `ProcessPacket` counts in the statistics of the thread. -/
  | process (stats : NdPacketStats)

/-- The packets that the counters of the open handle have not reported. -/
def unread (t : PcapThread) : Nat :=
  match t.pcap with
  | some pcs => (pcs.psDrop.toNat - t.read.psDrop.toNat) + (pcs.psIfdrop.toNat - t.read.psIfdrop.toNat)
  | none => 0

/-- The thread after an event, and the packets that were dropped. Counters of the kernel do not
wrap. -/
def step : DropThread → Event → Option (DropThread × Nat)
  | .pcap t, .drop n =>
    match t.pcap with
    | some pcs =>
      if t.offline = false ∧ pcs.psDrop.toNat + n < 2 ^ 32 then
        some (.pcap { t with pcap := some { pcs with psDrop := pcs.psDrop + UInt32.ofNat n } }, n)
      else none
    | none => none
  | .pcap t, .ifdrop n =>
    match t.pcap with
    | some pcs =>
      if t.offline = false ∧ pcs.psIfdrop.toNat + n < 2 ^ 32 then
        some (.pcap { t with pcap := some { pcs with psIfdrop := pcs.psIfdrop + UInt32.ofNat n } },
          n)
      else none
    | none => none
  | .pcap t, .close =>
    if t.pcap = none then none
    else some (.pcap { t with pcap := none, read := {}, lost := t.lost + unread t }, 0)
  | .pcap t, .open_ =>
    if t.pcap = none then some (.pcap { t with pcap := some {}, read := {} }, 0) else none
  | .tpv3 t, .ring => if t.ring = none then some (.tpv3 { t with ring := some 0 }, 0) else none
  | .tpv3 t, .tpDrop n =>
    match t.ring with
    | some drops =>
      if drops.toNat + n < 2 ^ 32 then
        some (.tpv3 { t with ring := some (drops + UInt32.ofNat n) }, n)
      else none
    | none => none
  | .nfq t, .enobufs =>
    if t.dropped.toNat + 1 < 2 ^ 64 then some (.nfq { t with dropped := t.dropped + 1 }, 1) else none
  | .pcap t, .failing b => some (.pcap { t with failing := b }, 0)
  | .tpv3 t, .failing b => some (.tpv3 { t with failing := b }, 0)
  | .pcap t, .process stats =>
    if stats.pkt.captureDropped = t.stats.pkt.captureDropped then some (.pcap { t with stats }, 0)
    else none
  | .tpv3 t, .process stats =>
    if stats.pkt.captureDropped = t.stats.pkt.captureDropped then some (.tpv3 { t with stats }, 0)
    else none
  | .nfq t, .process stats =>
    if stats.pkt.captureDropped = t.stats.pkt.captureDropped then some (.nfq { t with stats }, 0)
    else none
  | _, _ => none

/-- The packets dropped on a thread that no pass has reported. -/
def owed : DropThread → Nat
  | .pcap t => t.lost + unread t
  | .tpv3 t => (t.ring.getD 0).toNat
  | .nfq t => t.dropped.toNat

def isNfq : DropThread → Bool
  | .nfq _ => true
  | _ => false

end DropThread

/-- The threads of one interface, and what the passes have reported of them. -/
structure DropSystem where
  threads : List DropThread
  /-- The values of `capture_dropped` so far. -/
  reported : List UInt64 := []
  /-- The packets dropped on all threads. -/
  dropped : Nat := 0
  /-- Those up to the last pass. -/
  passed : Nat := 0

inductive DropAction where
  | thread (i : Nat) (e : DropThread.Event)
  /-- `ProcessUpdate`. -/
  | pass

namespace DropSystem
open DropThread

/-- The loop of `ProcessUpdate` over the threads of an interface. -/
def collect : List DropThread → NdPacketStats → List DropThread × NdPacketStats
  | [], stats => ([], stats)
  | t :: rest, stats =>
    let first := t.getCaptureStats stats
    let later := collect rest first.2
    (first.1 :: later.1, later.2)

def step (s : DropSystem) : DropAction → Option DropSystem
  | .thread i e =>
    match s.threads[i]? with
    | some t =>
      (t.step e).map fun after =>
        { s with threads := s.threads.set i after.1, dropped := s.dropped + after.2 }
    | none => none
  | .pass =>
    let collected := collect s.threads {}
    some { s with
      threads := collected.1
      reported := s.reported ++ [collected.2.pkt.captureDropped]
      passed := s.dropped }

/-! ## When nothing is lost -/

/-- What was dropped on a thread is what `GetCaptureStats` adds. -/
def Told : DropThread → Prop
  | .pcap t =>
    match t.pcap with
    | some pcs =>
      if t.offline = false ∧ t.failing = false then
        t.lost = 0 ∧ pcs.psDrop.toNat + pcs.psIfdrop.toNat < 2 ^ 32 ∧
          subtracted t.pcsLast.psDrop pcs.psDrop = t.read.psDrop ∧
          subtracted t.pcsLast.psIfdrop pcs.psIfdrop = t.read.psIfdrop
      else t.lost + unread t = 0
    | none => t.lost = 0
  | .tpv3 t => t.failing = false ∨ t.ring.getD 0 = 0
  | .nfq _ => True

instance : DecidablePred Told
  | .pcap { pcap := some pcs, lost, read, pcsLast, .. } => inferInstanceAs (Decidable (ite _
      (lost = 0 ∧ pcs.psDrop.toNat + pcs.psIfdrop.toNat < 2 ^ 32 ∧
        subtracted pcsLast.psDrop pcs.psDrop = read.psDrop ∧
        subtracted pcsLast.psIfdrop pcs.psIfdrop = read.psIfdrop) (_ = 0)))
  | .pcap { pcap := none, lost, .. } => inferInstanceAs (Decidable (lost = 0))
  | .tpv3 t => inferInstanceAs (Decidable (t.failing = false ∨ t.ring.getD 0 = 0))
  | .nfq _ => .isTrue trivial

/-- The threads in front of a netfilter queue have nothing to tell. -/
def Heard : List DropThread → Prop
  | [] => True
  | t :: rest => Told t ∧ (rest.any isNfq = true → t.owed = 0) ∧ Heard rest

instance decidableHeard : ∀ threads, Decidable (Heard threads)
  | [] => .isTrue trivial
  | t :: rest =>
    have := decidableHeard rest
    inferInstanceAs (Decidable (Told t ∧ (rest.any isNfq = true → t.owed = 0) ∧ Heard rest))

/-- The passes that report everything. -/
def Whole (s : DropSystem) : DropAction → Prop
  | .thread _ _ => True
  | .pass => Heard s.threads

instance : DecidableRel Whole
  | _, .thread _ _ => .isTrue trivial
  | s, .pass => inferInstanceAs (Decidable (Heard s.threads))

/-- What a capture thread is when it is created. -/
def Created (t : DropThread) : Prop :=
  (∃ offline, t = .pcap { offline }) ∨ t = .tpv3 {} ∨ t = .nfq {}

/-- The sum of what was reported, in a 64-bit counter. -/
def Accounted (s : DropSystem) : Prop := s.reported.sum = UInt64.ofNat s.passed

instance (s : DropSystem) : Decidable (Accounted s) := inferInstanceAs (Decidable (_ = _))

/-! ## One thread -/

/-- The statistics of the thread hold no dropped packets, and the counters have not gone back
since they were read. -/
def Sound : DropThread → Prop
  | .pcap t => t.stats.pkt.captureDropped = 0 ∧ ∀ pcs ∈ t.pcap,
      t.read.psDrop ≤ pcs.psDrop ∧ t.read.psIfdrop ≤ pcs.psIfdrop
  | .tpv3 t => t.stats.pkt.captureDropped = 0
  | .nfq t => t.stats.pkt.captureDropped = 0

theorem sound_created {t : DropThread} (created : Created t) : Sound t ∧ t.owed = 0 := by
  rcases created with ⟨offline, rfl⟩ | rfl | rfl
  · exact ⟨⟨rfl, by simp⟩, rfl⟩
  · exact ⟨rfl, rfl⟩
  · exact ⟨rfl, rfl⟩

theorem subtracted_le (last now : UInt32) : (subtracted last now).toNat ≤ now.toNat := by
  unfold subtracted
  split
  · rename_i le
    exact UInt32.le_iff_toNat_le.mp le
  · exact Nat.zero_le _

/-- The difference is right if the sum of both counters fits into 32 bits. -/
theorem pcapDropped_eq {last now : PcapStat}
    (small : now.psDrop.toNat + now.psIfdrop.toNat < 2 ^ 32) :
    pcapDropped last now = UInt64.ofNat
      ((now.psDrop.toNat - (subtracted last.psDrop now.psDrop).toNat) +
        (now.psIfdrop.toNat - (subtracted last.psIfdrop now.psIfdrop).toNat)) := by
  have drop := subtracted_le last.psDrop now.psDrop
  have ifdrop := subtracted_le last.psIfdrop now.psIfdrop
  unfold pcapDropped
  apply UInt64.toNat_inj.mp
  simp only [UInt64.toNat_sub, UInt32.toNat_toUInt64, UInt32.toNat_add, UInt64.toNat_ofNat']
  omega

theorem setDropped_added (stats : NdPacketStats) (dropped : UInt64) (sum : NdPacketStats) :
    ((setDropped stats dropped).addAndReset sum).2.pkt.captureDropped =
      sum.pkt.captureDropped + dropped := rfl

/-- What the statistics of a thread hold is added and cleared. -/
theorem added_dropped (stats sum : NdPacketStats) :
    (stats.addAndReset sum).2.pkt.captureDropped =
        sum.pkt.captureDropped + stats.pkt.captureDropped ∧
      (stats.addAndReset sum).1.pkt.captureDropped = 0 := ⟨rfl, rfl⟩

/-- What is read from the handle is what it owes. -/
theorem readPcap_told {t : PcapThread} (sound : Sound (.pcap t)) (told : Told (.pcap t)) :
    (readPcap t).stats.pkt.captureDropped = UInt64.ofNat (owed (.pcap t)) ∧
      owed (.pcap (readPcap t)) = 0 ∧ ∀ pcs ∈ (readPcap t).pcap,
        (readPcap t).read.psDrop ≤ pcs.psDrop ∧ (readPcap t).read.psIfdrop ≤ pcs.psIfdrop := by
  obtain ⟨clear, grown⟩ := sound
  unfold readPcap
  cases open_ : t.pcap with
  | none =>
    simp only [Told, open_] at told
    have none_ : owed (.pcap t) = 0 := by simp [owed, unread, open_, told]
    simp only [none_, open_]
    exact ⟨clear, trivial, by simp⟩
  | some pcs =>
    simp only [Told, open_] at told
    by_cases readable : t.offline = false ∧ t.failing = false
    · rw [if_pos readable] at told
      obtain ⟨kept, small, drop, ifdrop⟩ := told
      simp only [if_pos readable]
      refine ⟨?_, ?_, ?_⟩
      · show pcapDropped t.pcsLast pcs = _
        rw [pcapDropped_eq small, drop, ifdrop]
        simp [owed, unread, open_, kept]
      · simp [owed, unread]
      · intro pcs' same
        cases same
        exact ⟨UInt32.le_refl _, UInt32.le_refl _⟩
    · rw [if_neg readable] at told
      simp only [if_neg readable]
      have none_ : owed (.pcap t) = 0 := told
      rw [none_]
      exact ⟨clear, rfl, grown⟩

theorem readRing_told {t : TPv3Thread} (sound : Sound (.tpv3 t)) (told : Told (.tpv3 t)) :
    (readRing t).stats.pkt.captureDropped = UInt64.ofNat (owed (.tpv3 t)) ∧
      owed (.tpv3 (readRing t)) = 0 := by
  have clear : t.stats.pkt.captureDropped = 0 := sound
  unfold readRing
  cases ring : t.ring with
  | none =>
    simp only [owed, ring]
    exact ⟨clear, rfl⟩
  | some drops =>
    by_cases readable : t.failing = false
    · simp only [if_pos readable, owed, ring]
      refine ⟨?_, rfl⟩
      show drops.toUInt64 = _
      apply UInt64.toNat_inj.mp
      have small := drops.toNat_lt
      simp only [UInt32.toNat_toUInt64, Option.getD_some, UInt64.toNat_ofNat']
      omega
    · have none_ : t.ring.getD 0 = 0 := told.resolve_left readable
      simp only [if_neg readable, owed, none_]
      exact ⟨clear, rfl⟩

/-- **A thread that tells everything** adds what it owes. -/
theorem getCaptureStats_told {t : DropThread} {stats : NdPacketStats} (sound : Sound t)
    (told : Told t) (free : t.isNfq = true → stats.pkt.captureDropped = 0) :
    (t.getCaptureStats stats).2.pkt.captureDropped =
        stats.pkt.captureDropped + UInt64.ofNat t.owed ∧
      (t.getCaptureStats stats).1.owed = 0 ∧ Sound (t.getCaptureStats stats).1 := by
  cases t with
  | pcap t =>
    obtain ⟨added, cleared, grown⟩ := readPcap_told sound told
    refine ⟨?_, cleared, rfl, grown⟩
    rw [← added]
    exact (added_dropped _ _).1
  | tpv3 t =>
    obtain ⟨added, cleared⟩ := readRing_told sound told
    refine ⟨?_, cleared, rfl⟩
    rw [← added]
    exact (added_dropped _ _).1
  | nfq t =>
    have clear : t.stats.pkt.captureDropped = 0 := sound
    refine ⟨?_, rfl, rfl⟩
    show t.dropped + t.stats.pkt.captureDropped = _
    rw [clear, free rfl]
    simp [owed]

/-- **A pass** that hears every thread reports what all of them owe. -/
theorem collect_heard {threads : List DropThread} {stats : NdPacketStats}
    (sound : ∀ t ∈ threads, Sound t) (heard : Heard threads)
    (free : threads.any isNfq = true → stats.pkt.captureDropped = 0) :
    (collect threads stats).2.pkt.captureDropped =
        stats.pkt.captureDropped + UInt64.ofNat (threads.map owed).sum ∧
      ((collect threads stats).1.map owed).sum = 0 ∧ ∀ t ∈ (collect threads stats).1, Sound t := by
  induction threads generalizing stats with
  | nil => simp [collect]
  | cons t rest ih =>
    obtain ⟨here, later⟩ := List.forall_mem_cons.mp sound
    obtain ⟨told, behind, heard⟩ := heard
    obtain ⟨added, cleared, kept⟩ := getCaptureStats_told here told fun nfq =>
      free (by simp [nfq])
    obtain ⟨sum, none_, all⟩ := @ih (t.getCaptureStats stats).2 later heard fun nfq => by
      rw [added, free (by simp [nfq]), behind nfq]
      rfl
    refine ⟨?_, ?_, List.forall_mem_cons.mpr ⟨kept, all⟩⟩
    · show (collect rest (t.getCaptureStats stats).2).2.pkt.captureDropped = _
      rw [sum, added, List.map_cons, List.sum_cons, UInt64.ofNat_add, UInt64.add_assoc]
    · rw [collect, List.map_cons, List.sum_cons, cleared, none_]

/-! ## Runs -/

/-- A counter that does not wrap. -/
theorem toNat_grown {c : UInt32} {n : Nat} (fits : c.toNat + n < 2 ^ 32) :
    (c + UInt32.ofNat n).toNat = c.toNat + n := by
  rw [UInt32.toNat_add, UInt32.toNat_ofNat']
  omega

theorem step_pcap {t : PcapThread} {e : DropThread.Event} {after : DropThread × Nat}
    (sound : Sound (.pcap t))
    (taken : (DropThread.pcap t).step e = some after) :
    Sound after.1 ∧ after.1.owed = owed (.pcap t) + after.2 := by
  obtain ⟨clear, grown⟩ := sound
  cases e with
  | drop n =>
    cases open_ : t.pcap with
    | none => simp [DropThread.step, open_] at taken
    | some pcs =>
      obtain ⟨drop, ifdrop⟩ := grown pcs open_
      simp only [DropThread.step, open_, Option.ite_none_right_eq_some] at taken
      obtain ⟨⟨_, fits⟩, taken⟩ := taken
      cases taken
      rw [UInt32.le_iff_toNat_le] at drop
      refine ⟨⟨clear, fun pcs' same => ?_⟩, ?_⟩
      · cases same
        refine ⟨?_, ifdrop⟩
        rw [UInt32.le_iff_toNat_le, toNat_grown fits]
        exact Nat.le_trans drop (Nat.le_add_right _ _)
      · simp only [owed, unread, open_, toNat_grown fits]
        omega
  | ifdrop n =>
    cases open_ : t.pcap with
    | none => simp [DropThread.step, open_] at taken
    | some pcs =>
      obtain ⟨drop, ifdrop⟩ := grown pcs open_
      simp only [DropThread.step, open_, Option.ite_none_right_eq_some] at taken
      obtain ⟨⟨_, fits⟩, taken⟩ := taken
      cases taken
      rw [UInt32.le_iff_toNat_le] at ifdrop
      refine ⟨⟨clear, fun pcs' same => ?_⟩, ?_⟩
      · cases same
        refine ⟨drop, ?_⟩
        rw [UInt32.le_iff_toNat_le, toNat_grown fits]
        exact Nat.le_trans ifdrop (Nat.le_add_right _ _)
      · simp only [owed, unread, open_, toNat_grown fits]
        omega
  | close =>
    simp only [DropThread.step, Option.ite_none_left_eq_some] at taken
    obtain ⟨_, taken⟩ := taken
    cases taken
    exact ⟨⟨clear, by simp⟩, rfl⟩
  | open_ =>
    simp only [DropThread.step, Option.ite_none_right_eq_some] at taken
    obtain ⟨closed, taken⟩ := taken
    cases taken
    refine ⟨⟨clear, fun pcs same => ?_⟩, ?_⟩
    · cases same
      exact ⟨UInt32.le_refl _, UInt32.le_refl _⟩
    · simp [owed, unread, closed]
  | failing b =>
    cases taken
    exact ⟨⟨clear, grown⟩, rfl⟩
  | process stats =>
    simp only [DropThread.step, Option.ite_none_right_eq_some] at taken
    obtain ⟨same, taken⟩ := taken
    cases taken
    exact ⟨⟨same.trans clear, grown⟩, rfl⟩
  | ring => cases taken
  | tpDrop n => cases taken
  | enobufs => cases taken

theorem step_tpv3 {t : TPv3Thread} {e : DropThread.Event} {after : DropThread × Nat}
    (sound : Sound (.tpv3 t))
    (taken : (DropThread.tpv3 t).step e = some after) :
    Sound after.1 ∧ after.1.owed = owed (.tpv3 t) + after.2 := by
  have clear : t.stats.pkt.captureDropped = 0 := sound
  cases e with
  | ring =>
    simp only [DropThread.step, Option.ite_none_right_eq_some] at taken
    obtain ⟨closed, taken⟩ := taken
    cases taken
    exact ⟨clear, by simp [owed, closed]⟩
  | tpDrop n =>
    cases ring : t.ring with
    | none => simp [DropThread.step, ring] at taken
    | some drops =>
      simp only [DropThread.step, ring, Option.ite_none_right_eq_some] at taken
      obtain ⟨fits, taken⟩ := taken
      cases taken
      refine ⟨clear, ?_⟩
      simp only [owed, ring, Option.getD_some, toNat_grown fits]
  | failing b =>
    cases taken
    exact ⟨clear, rfl⟩
  | process stats =>
    simp only [DropThread.step, Option.ite_none_right_eq_some] at taken
    obtain ⟨same, taken⟩ := taken
    cases taken
    exact ⟨same.trans clear, rfl⟩
  | drop n => cases taken
  | ifdrop n => cases taken
  | close => cases taken
  | open_ => cases taken
  | enobufs => cases taken

theorem step_nfq {t : NfqThread} {e : DropThread.Event} {after : DropThread × Nat}
    (sound : Sound (.nfq t))
    (taken : (DropThread.nfq t).step e = some after) :
    Sound after.1 ∧ after.1.owed = owed (.nfq t) + after.2 := by
  have clear : t.stats.pkt.captureDropped = 0 := sound
  cases e with
  | enobufs =>
    simp only [DropThread.step, Option.ite_none_right_eq_some] at taken
    obtain ⟨fits, taken⟩ := taken
    cases taken
    refine ⟨clear, ?_⟩
    simp only [owed, UInt64.toNat_add, UInt64.reduceToNat]
    omega
  | process stats =>
    simp only [DropThread.step, Option.ite_none_right_eq_some] at taken
    obtain ⟨same, taken⟩ := taken
    cases taken
    exact ⟨same.trans clear, rfl⟩
  | drop n => cases taken
  | ifdrop n => cases taken
  | close => cases taken
  | open_ => cases taken
  | ring => cases taken
  | tpDrop n => cases taken
  | failing b => cases taken

/-- **An event** drops what it says, and nothing is reported. -/
theorem step_owed {t : DropThread} {e : DropThread.Event} {after : DropThread × Nat}
    (sound : Sound t)
    (taken : t.step e = some after) : Sound after.1 ∧ after.1.owed = t.owed + after.2 := by
  cases t with
  | pcap t => exact step_pcap sound taken
  | tpv3 t => exact step_tpv3 sound taken
  | nfq t => exact step_nfq sound taken

theorem sum_set {threads : List DropThread} {i : Nat} {t t' : DropThread}
    (here : threads[i]? = some t) :
    ((threads.set i t').map owed).sum + t.owed = (threads.map owed).sum + t'.owed := by
  induction threads generalizing i with
  | nil => simp at here
  | cons first rest ih =>
    cases i with
    | zero =>
      obtain rfl : first = t := by simpa using here
      simp only [List.set_cons_zero, List.map_cons, List.sum_cons]
      omega
    | succ i =>
      have later := @ih i (by simpa using here)
      simp only [List.set_cons_succ, List.map_cons, List.sum_cons]
      omega

/-- What a run keeps. -/
structure Kept (s : DropSystem) : Prop where
  sound : ∀ t ∈ s.threads, Sound t
  accounted : Accounted s
  sums : s.passed + (s.threads.map owed).sum = s.dropped

theorem kept_created {threads : List DropThread} (created : ∀ t ∈ threads, Created t) :
    Kept { threads } := by
  refine ⟨fun t member => (sound_created (created t member)).1, rfl, ?_⟩
  have none_ : (threads.map owed).sum = 0 := by
    rw [List.sum_eq_zero_iff]
    intro n member
    obtain ⟨t, there, rfl⟩ := List.mem_map.mp member
    exact (sound_created (created t there)).2
  rw [none_]

theorem kept_step {s s' : DropSystem} {a : DropAction} (kept : Kept s) (taken : s.step a = some s')
    (whole : Whole s a) : Kept s' := by
  cases a with
  | thread i e =>
    simp only [step] at taken
    split at taken
    · rename_i t here
      obtain ⟨after, stepped, rfl⟩ := Option.map_eq_some_iff.mp taken
      obtain ⟨sound, owes⟩ := step_owed (kept.sound t (List.mem_of_getElem? here)) stepped
      refine ⟨fun t' member => ?_, kept.accounted, ?_⟩
      · rcases List.mem_or_eq_of_mem_set member with old | rfl
        · exact kept.sound t' old
        · exact sound
      · have sums := kept.sums
        have moved := @sum_set s.threads i t after.1 here
        show s.passed + ((s.threads.set i after.1).map owed).sum = s.dropped + after.2
        omega
    · cases taken
  | pass =>
    obtain ⟨added, cleared, sound⟩ := @collect_heard s.threads {} kept.sound whole fun _ => rfl
    cases taken
    refine ⟨sound, ?_, ?_⟩
    · show (s.reported ++ [(collect s.threads {}).2.pkt.captureDropped]).sum = UInt64.ofNat s.dropped
      have before : s.reported.sum = UInt64.ofNat s.passed := kept.accounted
      rw [List.sum_append, before, List.sum_singleton, added, ← kept.sums, UInt64.ofNat_add]
      exact congrArg (UInt64.ofNat s.passed + ·) (UInt64.zero_add _)
    · show s.dropped + _ = s.dropped
      rw [cleared, Nat.add_zero]

/-- **Drop accounting.** In every run whose passes hear every thread, what was reported adds up
to what was dropped up to the last pass. -/
theorem accounted_of_heard {threads : List DropThread} (created : ∀ t ∈ threads, Created t)
    {s : DropSystem} (run : Reaches step Whole { threads } s) : Accounted s :=
  (run.invariant (kept_created created) fun _ _ _ kept taken whole =>
    kept_step kept taken whole).accounted

/-- Two passes over a handle whose counters both grow. -/
theorem handle_accounted : ∃ s, Reaches step Whole { threads := [.pcap {}] } s ∧
    s.passed = 8 ∧ Accounted s := by
  obtain ⟨s, run, dropped⟩ := @reached_of_exec _ _ step Whole { threads := [.pcap {}] } _
    [.thread 0 .open_, .thread 0 (.drop 5), .thread 0 (.ifdrop 2), .pass, .thread 0 (.drop 1), .pass]
    (fun s => s.passed = 8) (by decide +kernel)
  exact ⟨s, run, by simpa using dropped,
    accounted_of_heard (by simp [Created]) run⟩

/-- The second queue of an interface overwrites what the first has added. -/
theorem queue_overwritten : ∃ s, Reaches step Always { threads := [.nfq {}, .nfq {}] } s ∧
    ¬ Accounted s := by
  obtain ⟨s, run, missing⟩ := @reached_of_exec _ _ step Always { threads := [.nfq {}, .nfq {}] } _
    [.thread 0 .enobufs, .pass] (fun s => !decide (Accounted s)) (by decide +kernel)
  exact ⟨s, run, by simpa using missing⟩

end DropSystem
end NetifyAgent
