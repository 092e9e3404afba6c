import NetifyAgent.DetectionEntry

/-! The limit on detection packets. It is any unsigned number, the counter it is
compared with has eight bits: a limit the counter can reach ends detection on
time, a larger one is stepped over when the counter wraps. -/
namespace NetifyAgent.DetectionLimit
open NetifyAgent.DetectionEntry

/-- The packets of a flow and the answers they meet, in the order in which
`ProcessPacketQueue` handles them. -/
abbrev Packets := List (Services × Answers × Nat)

def processPackets (maxDetectionPkts : Nat) (d : Det) : Packets → Except Entered Det
  | [] => .ok d
  | (s, a, id) :: rest =>
    processEntry maxDetectionPkts s a (some id) d >>= fun d =>
      processPackets maxDetectionPkts d rest

theorem processPackets_append (maxDetectionPkts : Nat) (d : Det) (before after : Packets) :
    processPackets maxDetectionPkts d (before ++ after) =
      processPackets maxDetectionPkts d before >>= fun d =>
        processPackets maxDetectionPkts d after := by
  induction before generalizing d with
  | nil => rfl
  | cons head before ih =>
    obtain ⟨s, a, id⟩ := head
    simp only [List.cons_append, processPackets]
    cases processEntry maxDetectionPkts s a (some id) d with
    | error fault => rfl
    | ok e => exact ih e

/-- Detection of a flow ends in time, and its packet counter neither wraps nor
exceeds the limit. -/
def LimitKept (maxDetectionPkts : Nat) : Prop :=
  ∀ (template : Flow) (packets : Packets), ∃ d,
    processPackets maxDetectionPkts ⟨template.copy, []⟩ packets = .ok d ∧
    (maxDetectionPkts ≤ packets.length → d.flow.flags.detectionComplete = true) ∧
    d.flow.stats.detectionPackets.toNat ≤ maxDetectionPkts ∧
    ∀ s a id d', processEntry maxDetectionPkts s a (some id) d = .ok d' →
      d.flow.stats.detectionPackets ≤ d'.flow.stats.detectionPackets

/-! ## Limits the counter can reach -/

/-- A flow of which `n` packets have been handled. -/
structure Within (maxDetectionPkts n : Nat) (flow : Flow) : Prop where
  running : flow.flags.expiring = false
  below : flow.stats.detectionPackets.toNat ≤ maxDetectionPkts
  state : flow.flags.detectionComplete = true ∧ 0 < flow.stats.detectionPackets.toNat ∨
    flow.flags.detectionComplete = false ∧ flow.stats.detectionPackets.toNat = n ∧
      n < maxDetectionPkts

/-- The counter after a packet, as long as it has room for another. -/
theorem counter_after {id : Nat} {a : Answers} {d e : Det} {n : Nat}
    (room : d.flow.stats.detectionPackets.toNat = n) (small : n < 255)
    (traced : Traced (taken a (some id) d) e) : e.flow.stats.detectionPackets.toNat = n + 1 := by
  have counter := congrArg Control.detectionPackets (traced.control.trans (taken_control d))
  have full : d.flow.stats.detectionPackets ≠ 255 := by
    intro full
    rw [full] at room
    exact absurd room (by simp; omega)
  exact ((congrArg UInt8.toNat counter).trans (Bytes.toNat_succ full)).trans (by rw [room])

/-- The ordinary branch: a flow still under detection counts the packet. -/
theorem taken_within {maxDetectionPkts n id : Nat} {a : Answers} {d e : Det}
    (reachable : maxDetectionPkts ≤ 255) (within : Within maxDetectionPkts n d.flow)
    (takenE : Taken maxDetectionPkts a (some id) d e) :
    e.flow.flags.expiring = false ∧ e.flow.stats.detectionPackets.toNat ≤ maxDetectionPkts ∧
      0 < e.flow.stats.detectionPackets.toNat ∧
      d.flow.stats.detectionPackets ≤ e.flow.stats.detectionPackets ∧
      (e.flow.flags.detectionComplete = true ∨
        e.flow.stats.detectionPackets.toNat = n + 1) := by
  obtain ⟨running, below, ⟨done, counted⟩ | ⟨going, counter, small⟩⟩ := within
  · have nonzero : d.flow.stats.detectionPackets ≠ 0 := by
      intro zero
      simp [zero] at counted
    rcases takenE with ⟨takes, _⟩ | ⟨_, rfl⟩
    · simp [takesPacket, done, nonzero] at takes
    · exact ⟨running, below, counted, UInt8.le_refl _, .inl done⟩
  · rcases takenE with ⟨_, traced⟩ | ⟨idle, _⟩
    · have control := traced.control.trans (taken_control d)
      have next := counter_after counter (by omega) traced
      simp only [Flow.control, Control.mk.injEq] at control
      refine ⟨control.2.1.trans running, by omega, by omega, ?_, .inr next⟩
      rw [UInt8.le_iff_toNat_le]
      omega
    · simp [takesPacket, going, running, counter, small] at idle

/-- What one packet does to such a flow. -/
theorem within_step {maxDetectionPkts n : Nat} (reachable : maxDetectionPkts ≤ 255) (s : Services)
    (a : Answers) (id : Nat) {d : Det} (within : Within maxDetectionPkts n d.flow) :
    ∃ d', processEntry maxDetectionPkts s a (some id) d = .ok d' ∧
      Within maxDetectionPkts (n + 1) d'.flow ∧
      d.flow.stats.detectionPackets ≤ d'.flow.stats.detectionPackets := by
  obtain ⟨e, f, ran, takenE, ended⟩ := processEntry_spec s a (not_dangling_packet id d.flow)
  obtain ⟨running, below, counted, grown, state⟩ := taken_within reachable within takenE
  obtain ⟨counter, stays, outcome⟩ := ended_packet ended
  refine ⟨released f, ran, ⟨?_, ?_, ?_⟩, ?_⟩
  · simpa using stays running
  · rwa [released_stats, counter]
  · rw [released_stats, released_flags, counter]
    rcases outcome with done | ⟨goesOn, rfl⟩
    · exact .inl ⟨done, counted⟩
    · by_cases done : f.flow.flags.detectionComplete = true
      · exact .inl ⟨done, counted⟩
      · have next := state.resolve_left done
        simp only [endsDetection, decide_eq_false_iff_not, not_or] at goesOn
        exact .inr ⟨Bool.eq_false_iff.mpr done, next, by omega⟩
  · rwa [released_stats, counter]

theorem within_run {maxDetectionPkts n : Nat} (reachable : maxDetectionPkts ≤ 255)
    (packets : Packets) {d : Det} (within : Within maxDetectionPkts n d.flow) :
    ∃ d', processPackets maxDetectionPkts d packets = .ok d' ∧
      Within maxDetectionPkts (n + packets.length) d'.flow := by
  induction packets generalizing d n with
  | nil => exact ⟨d, rfl, within⟩
  | cons head rest ih =>
    obtain ⟨s, a, id⟩ := head
    obtain ⟨e, ranHead, next, _⟩ := within_step reachable s a id within
    obtain ⟨d', ranRest, last⟩ := ih next
    refine ⟨d', by simp only [processPackets, ranHead, ok_bind, ranRest], ?_⟩
    rwa [List.length_cons, show n + (rest.length + 1) = n + 1 + rest.length by omega]

theorem limitKept_of_reachable {maxDetectionPkts : Nat} (positive : 1 ≤ maxDetectionPkts)
    (reachable : maxDetectionPkts ≤ 255) : LimitKept maxDetectionPkts := by
  intro template packets
  have fresh : Within maxDetectionPkts 0 template.copy :=
    ⟨rfl, Nat.zero_le _, .inr ⟨rfl, rfl, positive⟩⟩
  obtain ⟨d, ran, within⟩ := within_run reachable packets (d := ⟨template.copy, []⟩) fresh
  refine ⟨d, ran, fun enough => ?_, within.below, fun s a id d' next => ?_⟩
  · rcases within.state with ⟨done, _⟩ | ⟨_, _, short⟩
    · exact done
    · omega
  · obtain ⟨e, ran', _, grown⟩ := within_step reachable s a id within
    rw [ran'] at next
    cases next
    exact grown

/-! ## Limits it cannot reach -/

/-- A flow nDPI has no idea about. -/
structure Unknown (n : Nat) (flow : Flow) : Prop where
  going : flow.flags.detectionComplete = false
  running : flow.flags.expiring = false
  started : flow.flags.detectionInit = false
  unknown : flow.detectedProtocol = Proto.unknown
  counter : flow.stats.detectionPackets = UInt8.ofNat n

/-- One more packet nDPI has no idea about. -/
def noIdea : Services × Answers × Nat := (.bare, .always Proto.unknown {}, 0)

open ProcessPacket in
/-- Such a packet is handed over and nothing else. -/
theorem processPacket_of_unknown (s : Services) (packet : Option Nat) (n : NdpiFlow) {d : Det}
    (started : d.flow.flags.detectionInit = false)
    (unknown : d.flow.detectedProtocol = Proto.unknown) :
    processPacket s packet ⟨0, 0, n⟩ d = .ok (handOver packet ⟨0, 0, n⟩ (allocate d)) := by
  have same : ∀ e, e = handOver packet ⟨0, 0, n⟩ (allocate d) →
      e.flow.flags.detectionInit = false ∧ e.flow.detectedProtocol = Proto.unknown := by
    rintro e rfl
    simp only [handOver, allocate]
    split <;> exact ⟨started, unknown⟩
  simp only [processPacket]
  generalize handOver packet ⟨0, 0, n⟩ (allocate d) = e at same
  obtain ⟨init, protocol⟩ := same e rfl
  have mapped : mapProtocol s ndpiProtocolStun ⟨0, 0, n⟩ e = e := by
    simp [mapProtocol, refineStun, ProcessPacket.whileUnknown]
  have looked : inspect s e = .ok (e, false) := by simp [inspect, init, protocol]
  simp only [mapped, looked, ok_bind, conclude, Bool.false_eq_true, if_false, init, false_and]

theorem unknown_step {maxDetectionPkts n : Nat} (beyond : 256 ≤ maxDetectionPkts) {d : Det}
    (unknown : Unknown n d.flow) :
    ∃ d', processEntry maxDetectionPkts .bare (.always Proto.unknown {}) (some 0) d = .ok d' ∧
      Unknown (n + 1) d'.flow := by
  obtain ⟨going, running, started, protocol, counter⟩ := unknown
  have below : ∀ b : UInt8, b.toNat < maxDetectionPkts := fun b => by
    have := b.toNat_lt
    omega
  have takes : takesPacket maxDetectionPkts d.flow = true := by
    simp [takesPacket, going, running, below]
  have ran := processPacket_of_unknown .bare (some 0) {} (d := d.edit Flow.countDetection)
    started protocol
  have same : Unknown (n + 1) (taken (.always Proto.unknown {}) (some 0) d).flow := by
    simp only [taken, ProcessPacket.handOver, ProcessPacket.allocate]
    split <;> exact ⟨going, running, started, protocol, by
      simp [Det.editNdpi, Flow.countDetection, counter]⟩
  have goesOn : endsDetection maxDetectionPkts
      (taken (.always Proto.unknown {}) (some 0) d).flow = false := by
    have := below (taken (.always Proto.unknown {}) (some 0) d).flow.stats.detectionPackets
    simp only [endsDetection, same.running, Bool.false_eq_true, false_and, or_false,
      decide_eq_false_iff_not]
    omega
  refine ⟨taken (.always Proto.unknown {}) (some 0) d, ?_, same⟩
  simp only [processEntry, takes, if_true]
  rw [show processPacket .bare (some 0) (Answers.always Proto.unknown {}).first
    (d.edit Flow.countDetection) = .ok (taken (.always Proto.unknown {}) (some 0) d) from ran]
  simp only [ok_bind, goesOn, Bool.false_eq_true, if_false, same.going]

theorem unknown_run {maxDetectionPkts : Nat} (beyond : 256 ≤ maxDetectionPkts) (n : Nat)
    (template : Flow) :
    ∃ d, processPackets maxDetectionPkts ⟨template.copy, []⟩ (List.replicate n noIdea) = .ok d ∧
      Unknown n d.flow := by
  induction n with
  | zero => exact ⟨⟨template.copy, []⟩, rfl, rfl, rfl, rfl, rfl, rfl⟩
  | succ n ih =>
    obtain ⟨d, ran, unknown⟩ := ih
    obtain ⟨d', ranNext, next⟩ := unknown_step beyond unknown
    refine ⟨d', ?_, next⟩
    rw [List.replicate_succ', processPackets_append, ran]
    simp only [ok_bind, processPackets, noIdea, ranNext]

/-- With the counter full, the next packet brings it back to zero. -/
theorem not_limitKept {maxDetectionPkts : Nat} (beyond : 256 ≤ maxDetectionPkts) :
    ¬ LimitKept maxDetectionPkts := by
  intro kept
  obtain ⟨d, ran, full⟩ := unknown_run beyond 255 {}
  obtain ⟨d', ranNext, wrapped⟩ := unknown_step beyond full
  obtain ⟨e, ran', _, _, grows⟩ := kept {} (List.replicate 255 noIdea)
  rw [ran] at ran'
  cases ran'
  have := grows _ _ _ _ ranNext
  rw [full.counter, wrapped.counter] at this
  exact absurd this (by decide)

/-- **The limit holds exactly where the counter can reach it.** -/
theorem detection_limit (maxDetectionPkts : Nat) (positive : 1 ≤ maxDetectionPkts) :
    LimitKept maxDetectionPkts ↔ maxDetectionPkts ≤ 255 := by
  constructor
  · intro kept
    by_contra beyond
    exact not_limitKept (by omega) kept
  · exact limitKept_of_reachable positive

/-- The default limit. -/
theorem detection_limit_default : LimitKept 32 := (detection_limit 32 (by decide)).mpr (by decide)

/-- The smallest limit the counter steps over. -/
theorem detection_limit_missed : ¬ ∀ maxDetectionPkts, 1 ≤ maxDetectionPkts →
    LimitKept maxDetectionPkts :=
  fun claim => not_limitKept (Nat.le_refl 256) (claim 256 (by decide))

end NetifyAgent.DetectionLimit
