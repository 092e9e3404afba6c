import NetifyAgent.Capture
import NetifyAgent.Frames
import NetifyAgent.Lib.Runs

/-! The times of the packets of an offline capture. The first timestamp is subtracted from
each, the time at which the file was opened is added, and a time before the one of the packet
in front is replaced by that one. The subtraction is one of 64-bit numbers, and a first
timestamp of zero looks like one that was not taken yet. -/
namespace NetifyAgent
open Runs Dissection

/-- A packet that was processed: its timestamp in `ND_DETECTION_TICKS`, and its `ts_pkt`. -/
structure Stamped where
  stamp : Nat
  tsPkt : Nat
  deriving DecidableEq, Repr

/-- A capture thread, and the packets that it has processed so far. -/
structure TimedThread where
  thread : CaptureThread := {}
  log : List Stamped := []

/-- The timestamp of a packet in `ND_DETECTION_TICKS`. -/
def Packet.ticks (p : Packet) : Nat := p.tvSec * 1000 + p.tvUsec / 1000

namespace TimedThread

/-- One step of the capture thread. `ts_pkt_last` is the `ts_pkt` of the packet. -/
def step (cfg : CaptureConfig) (s : CaptureServices) (t : TimedThread) (a : CaptureAction) :
    Option TimedThread :=
  (t.thread.step cfg s a).map fun thread =>
    match a with
    | .packet _ p => ⟨thread, t.log ++ [⟨p.ticks, thread.tsPktLast⟩]⟩
    | _ => ⟨thread, t.log⟩

/-- `tv_epoch * 1000`. -/
def epoch (cfg : CaptureConfig) : Nat := cfg.tvEpoch * 1000

/-- A packet whose time can be told: it is not the first one behind packets at zero, and it lies
neither so far before the first nor so far behind it that the difference wraps. -/
def Timely (cfg : CaptureConfig) (t : TimedThread) : CaptureAction → Prop
  | .packet _ p =>
    let first := if t.thread.tsPktFirst = 0 then p.ticks else t.thread.tsPktFirst
    (t.thread.tsPktFirst = 0 ∧ t.log ≠ [] → p.ticks = 0) ∧
      p.ticks < 2 ^ 64 ∧ first ≤ p.ticks + epoch cfg ∧ p.ticks + epoch cfg < first + 2 ^ 64
  | _ => True

instance (cfg : CaptureConfig) : DecidableRel (Timely cfg)
  | _, .packet _ _ => inferInstanceAs (Decidable (_ ∧ _))
  | _, .share _ _ => .isTrue trivial
  | _, .collect => .isTrue trivial

end TimedThread

/-- **The time base.** Times do not go back and are not before the start of the replay. A packet
that is not before the latest one so far follows the packet in front by as much as its timestamp
follows that of the latest one. -/
structure Timed (epoch : Nat) (log : List Stamped) : Prop where
  ordered : log.Pairwise fun p q => p.tsPkt ≤ q.tsPkt
  replayed : ∀ q ∈ log, epoch ≤ q.tsPkt
  apart : ∀ before p q after, log = before ++ p :: q :: after →
    ∀ latest ∈ before ++ [p], (∀ e ∈ before ++ [p], e.stamp ≤ latest.stamp) →
      latest.stamp ≤ q.stamp → q.tsPkt = p.tsPkt + (q.stamp - latest.stamp)

theorem timed_nil (epoch : Nat) : Timed epoch [] :=
  ⟨.nil, by simp, by simp⟩

/-- One more packet. -/
theorem Timed.append {epoch : Nat} {log : List Stamped} {q : Stamped} (timed : Timed epoch log)
    (behind : ∀ p ∈ log, p.tsPkt ≤ q.tsPkt) (replayed : epoch ≤ q.tsPkt)
    (apart : ∀ before p, log = before ++ [p] → ∀ latest ∈ log,
      (∀ e ∈ log, e.stamp ≤ latest.stamp) → latest.stamp ≤ q.stamp →
        q.tsPkt = p.tsPkt + (q.stamp - latest.stamp)) :
    Timed epoch (log ++ [q]) := by
  refine ⟨?_, ?_, ?_⟩
  · refine List.pairwise_append.mpr ⟨timed.ordered, List.pairwise_singleton _ _, ?_⟩
    intro p member q' same
    rw [List.mem_singleton.mp same]
    exact behind p member
  · intro q' member
    rcases List.mem_append.mp member with old | new
    · exact timed.replayed q' old
    · rw [List.mem_singleton.mp new]
      exact replayed
  · intro before p q' after split latest member most later
    rcases List.eq_nil_or_concat after with rfl | ⟨after, last, rfl⟩
    · have cut : log ++ [q] = (before ++ [p]) ++ [q'] := by simpa using split
      obtain ⟨rfl, same⟩ := List.append_inj' cut rfl
      cases List.singleton_inj.mp same
      exact apart before p rfl latest member most later
    · have cut : log ++ [q] = (before ++ p :: q' :: after) ++ [last] := by simpa using split
      obtain ⟨rfl, -⟩ := List.append_inj' cut rfl
      exact timed.apart before p q' after rfl latest member most later

namespace TimedThread

/-! ## The members of the thread -/

section
variable {cfg : CaptureConfig} {s : CaptureServices} {p : Packet}

/-- `ts_pkt_first` and `ts_pkt_last`. -/
def clock (t : CaptureThread) : Nat × Nat := (t.tsPktFirst, t.tsPktLast)

theorem performed_clock (t : CaptureThread) (ws : List Op) :
    clock (ws.foldl (CaptureThread.perform p) t) = clock t := by
  induction ws generalizing t with
  | nil => rfl
  | cons w ws ih =>
    refine (ih _).trans ?_
    cases w <;> rfl

theorem queuePacket_clock (h : Headers) (nf : Flow) (t : CaptureThread) :
    clock (CaptureThread.queuePacket cfg p h nf t) = clock t := by
  unfold CaptureThread.queuePacket
  simp only
  split_ifs <;> rfl

theorem seen_clock (h : Headers) (nf : Flow) (t : CaptureThread) :
    clock (CaptureThread.seen cfg s p h nf t) = clock t := by
  unfold CaptureThread.seen
  simp only [queuePacket_clock]
  rfl

theorem hashed_clock (h : Headers) (t : CaptureThread) :
    clock (CaptureThread.hashed cfg s p h t) = clock t := by
  unfold CaptureThread.hashed
  simp only
  split
  · rw [seen_clock]
    rfl
  split
  · rfl
  split
  · rfl
  · rw [seen_clock]
    rfl

/-- Only the time base assigns them. -/
theorem processPacket_clock {fuel : Nat} {t t' : CaptureThread}
    (taken : CaptureThread.processPacket cfg s fuel p t = some t') :
    clock t' = clock (CaptureThread.tsPkt cfg p t) := by
  unfold CaptureThread.processPacket at taken
  simp only at taken
  have dissected : clock ((dissect s.extensions cfg.dlType p fuel).log.foldl
      (CaptureThread.perform p) (CaptureThread.arrived p (CaptureThread.tsPkt cfg p t))) =
        clock (CaptureThread.tsPkt cfg p t) := performed_clock _ _
  split at taken
  · cases taken
    rw [hashed_clock, dissected]
  · cases taken
    exact dissected
  · cases taken

end

/-! ## Runs -/

/-- What a run keeps: `ts_pkt_last` is the time of the packet in front, and it lies behind the
start of the replay as far as the latest timestamp lies behind the first. -/
structure Kept (cfg : CaptureConfig) (t : TimedThread) : Prop where
  timed : Timed (epoch cfg) t.log
  unset : t.log = [] → t.thread.tsPktFirst = 0 ∧ t.thread.tsPktLast = 0
  last : ∀ before p, t.log = before ++ [p] → p.tsPkt = t.thread.tsPktLast
  latest : t.log ≠ [] → ∃ latest ∈ t.log, (∀ e ∈ t.log, e.stamp ≤ latest.stamp) ∧
    latest.stamp < 2 ^ 64 ∧ t.thread.tsPktFirst ≤ latest.stamp ∧
    (t.thread.tsPktFirst = 0 → latest.stamp = 0) ∧
    t.thread.tsPktLast = epoch cfg + (latest.stamp - t.thread.tsPktFirst)

/-- The time base of a timely packet, without the arithmetic modulo `2 ^ 64`. -/
theorem tsPkt_timely {cfg : CaptureConfig} (offline : cfg.offline = true) {t : CaptureThread}
    {p : Packet} {first : Nat} (taken : (if t.tsPktFirst = 0 then p.ticks else t.tsPktFirst) = first)
    (small : p.ticks < 2 ^ 64) (near : first ≤ p.ticks + epoch cfg)
    (fits : p.ticks + epoch cfg < first + 2 ^ 64) (held : first < 2 ^ 64) :
    clock (CaptureThread.tsPkt cfg p t) = (first, max t.tsPktLast (p.ticks + epoch cfg - first)) := by
  have stamp : (p.tvSec * 1000 + p.tvUsec / 1000) % 2 ^ 64 = p.ticks := Nat.mod_eq_of_lt small
  have moved : (p.ticks + 2 ^ 64 - first + cfg.tvEpoch * 1000) % 2 ^ 64 =
      p.ticks + epoch cfg - first := by
    show (p.ticks + 2 ^ 64 - first + epoch cfg) % 2 ^ 64 = _
    omega
  unfold CaptureThread.tsPkt
  simp only [offline, if_true, stamp, taken, moved, clock]
  congr 1
  split <;> omega

theorem kept_packet {cfg : CaptureConfig} {s : CaptureServices} (offline : cfg.offline = true)
    {t : TimedThread} {fuel : Nat} {p : Packet} {thread : CaptureThread} (kept : Kept cfg t)
    (taken : CaptureThread.processPacket cfg s fuel p t.thread = some thread)
    (timely : Timely cfg t (.packet fuel p)) :
    Kept cfg ⟨thread, t.log ++ [⟨p.ticks, thread.tsPktLast⟩]⟩ := by
  obtain ⟨first, firstEq⟩ : ∃ first, (if t.thread.tsPktFirst = 0 then p.ticks
    else t.thread.tsPktFirst) = first := ⟨_, rfl⟩
  simp only [Timely, firstEq] at timely
  obtain ⟨zeros, small, near, fits⟩ := timely
  by_cases start : t.log = []
  · -- the first packet sets `ts_pkt_first`
    obtain ⟨unset, none_⟩ := kept.unset start
    obtain rfl : p.ticks = first := by simpa [unset] using firstEq
    have clocks := (processPacket_clock taken).trans
      (tsPkt_timely offline firstEq small near fits small)
    obtain ⟨firstSet, lastSet⟩ := Prod.mk.inj clocks
    have time : thread.tsPktLast = epoch cfg := by omega
    rw [start]
    refine ⟨(timed_nil _).append (by simp) time.ge (by simp), by simp, ?_, fun _ => ?_⟩
    · intro before p' split
      obtain ⟨-, same⟩ := List.append_inj' split rfl
      rw [← List.singleton_inj.mp same]
    · refine ⟨_, List.mem_singleton_self _, by simp, small, ?_, ?_, ?_⟩
      · exact firstSet.le
      · exact fun zero => firstSet ▸ zero
      · show thread.tsPktLast = epoch cfg + (p.ticks - thread.tsPktFirst)
        omega
  · obtain ⟨latest, member, most, latestSmall, firstLe, zero, lastEq⟩ := kept.latest start
    have same : first = t.thread.tsPktFirst := by
      by_cases unset : t.thread.tsPktFirst = 0
      · rw [if_pos unset, zeros ⟨unset, start⟩] at firstEq
        rw [← firstEq, unset]
      · rw [if_neg unset] at firstEq
        exact firstEq.symm
    have clocks := (processPacket_clock taken).trans
      (tsPkt_timely offline firstEq small near fits (by omega))
    obtain ⟨firstSet, lastSet⟩ := Prod.mk.inj clocks
    have stays : t.thread.tsPktFirst = 0 → p.ticks = 0 := fun unset => zeros ⟨unset, start⟩
    refine ⟨kept.timed.append ?_ ?_ ?_, by simp, ?_, fun _ => ?_⟩
    · -- no time is behind that of the packet in front
      intro e there
      obtain ⟨before, p', split⟩ := (List.eq_nil_or_concat t.log).resolve_left start
      rw [List.concat_eq_append] at split
      have inFront : e.tsPkt ≤ t.thread.tsPktLast := by
        rw [← kept.last before p' split]
        rw [split] at there
        have ordered := kept.timed.ordered
        rw [split] at ordered
        rcases List.mem_append.mp there with old | new
        · exact (List.pairwise_append.mp ordered).2.2 e old p' (List.mem_singleton_self _)
        · rw [List.mem_singleton.mp new]
      show e.tsPkt ≤ thread.tsPktLast
      omega
    · show epoch cfg ≤ thread.tsPktLast
      omega
    · intro before p' split other there greatest later
      have equal : other.stamp = latest.stamp :=
        Nat.le_antisymm (most other there) (greatest latest member)
      have behind : latest.stamp ≤ p.ticks := equal ▸ later
      rw [kept.last before p' split, equal]
      show thread.tsPktLast = t.thread.tsPktLast + (p.ticks - latest.stamp)
      omega
    · intro before p' split
      obtain ⟨-, new⟩ := List.append_inj' split rfl
      rw [← List.singleton_inj.mp new]
    · by_cases later : latest.stamp ≤ p.ticks
      · refine ⟨_, List.mem_append_right _ (List.mem_singleton_self _), ?_, small, ?_, ?_, ?_⟩
        · intro e there
          rcases List.mem_append.mp there with old | new
          · exact (most e old).trans later
          · rw [List.mem_singleton.mp new]
        · show thread.tsPktFirst ≤ p.ticks
          omega
        · exact fun (unset : thread.tsPktFirst = 0) => stays (by omega)
        · show thread.tsPktLast = epoch cfg + (p.ticks - thread.tsPktFirst)
          omega
      · refine ⟨latest, List.mem_append_left _ member, ?_, latestSmall, ?_, ?_, ?_⟩
        · intro e there
          rcases List.mem_append.mp there with old | new
          · exact most e old
          · rw [List.mem_singleton.mp new]
            exact (not_le.mp later).le
        · show thread.tsPktFirst ≤ latest.stamp
          omega
        · exact fun (unset : thread.tsPktFirst = 0) => zero (by omega)
        · show thread.tsPktLast = epoch cfg + (latest.stamp - thread.tsPktFirst)
          omega

theorem kept_step {cfg : CaptureConfig} {s : CaptureServices} (offline : cfg.offline = true)
    {t t' : TimedThread} {a : CaptureAction} (kept : Kept cfg t) (taken : step cfg s t a = some t')
    (timely : Timely cfg t a) : Kept cfg t' := by
  obtain ⟨thread, stepped, rfl⟩ := Option.map_eq_some_iff.mp taken
  cases a with
  | packet fuel p =>
    simp only [CaptureThread.step, Option.ite_none_left_eq_some] at stepped
    exact kept_packet offline kept stepped.2 timely
  | share flowBuckets flows =>
    cases stepped
    exact ⟨kept.timed, kept.unset, kept.last, kept.latest⟩
  | collect =>
    cases stepped
    exact ⟨kept.timed, kept.unset, kept.last, kept.latest⟩

/-- **Offline captures.** A thread that is new keeps the time base for as long as the packets
are timely. -/
theorem timed_of_timely {cfg : CaptureConfig} {s : CaptureServices} (offline : cfg.offline = true)
    {start : CaptureThread} (first : start.tsPktFirst = 0) (last : start.tsPktLast = 0)
    {t : TimedThread} (run : Reaches (step cfg s) (Timely cfg) ⟨start, []⟩ t) :
    Timed (epoch cfg) t.log :=
  (run.invariant (I := Kept cfg)
    ⟨timed_nil _, fun _ => ⟨first, last⟩, by simp, by simp⟩
    fun _ _ _ kept taken timely => kept_step offline kept taken timely).timed

/-- Three packets of a file that was opened at second 10, the second behind the third. -/
theorem replay_timed : ∃ t, Reaches (step Frames.replay Frames.services) (Timely Frames.replay)
      ⟨{}, []⟩ t ∧
    t.log = [⟨5000, 10000⟩, ⟨7500, 12500⟩, ⟨7000, 12500⟩] ∧
    Timed (epoch Frames.replay) t.log := by
  obtain ⟨t, run, log⟩ := @reached_of_exec _ _ (step Frames.replay Frames.services)
    (Timely Frames.replay) ⟨{}, []⟩ _
    [.packet 2 { Frames.udpFrame 1 2 4000 53 [] with tvSec := 5 },
      .packet 2 { Frames.udpFrame 1 2 4000 53 [] with tvSec := 7, tvUsec := 500000 },
      .packet 2 { Frames.udpFrame 1 2 4000 53 [] with tvSec := 7 }]
    (fun t => t.log = [⟨5000, 10000⟩, ⟨7500, 12500⟩, ⟨7000, 12500⟩]) (by decide +kernel)
  exact ⟨t, run, by simpa using log, timed_of_timely rfl rfl rfl run⟩

/-- The second packet follows the first one, which is at zero, by five seconds, and gets its
time. -/
theorem zero_lost : ∃ t, Reaches (step Frames.replay Frames.services) Always ⟨{}, []⟩ t ∧
    ¬ Timed (epoch Frames.replay) t.log := by
  obtain ⟨t, run, log⟩ := @reached_of_exec _ _ (step Frames.replay Frames.services)
    Always ⟨{}, []⟩ _
    [.packet 2 (Frames.udpFrame 1 2 4000 53 []),
      .packet 2 { Frames.udpFrame 1 2 4000 53 [] with tvSec := 5 }]
    (fun t => t.log = [⟨0, 10000⟩, ⟨5000, 10000⟩]) (by decide +kernel)
  refine ⟨t, run, fun timed => ?_⟩
  have apart := timed.apart [] ⟨0, 10000⟩ ⟨5000, 10000⟩ [] (by simpa using log) ⟨0, 10000⟩
    (by simp) (by simp) (by decide)
  exact absurd apart (by decide)

end TimedThread
end NetifyAgent
