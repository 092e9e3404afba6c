import NetifyAgent.DetectionTrace

/-! One queue entry, by what it makes `ProcessPacketQueue` do. The entry may be
handed to nDPI, it may end detection, both or neither; only an entry without a
packet can fault, and only when it ends detection of a flow whose nDPI flow was
never allocated or has been released. -/
namespace NetifyAgent.DetectionEntry
open NetifyAgent.ProcessPacket

variable {maxDetectionPkts : Nat} {s : Services} {a : Answers} {packet : Option Nat}

/-- The flow as the ordinary branch hands the entry over. -/
def taken (a : Answers) (packet : Option Nat) (d : Det) : Det :=
  handOver packet a.first (allocate (d.edit Flow.countDetection))

/-- The flow as the ending branch finds it after its own hand-over. -/
def ending (a : Answers) (packet : Option Nat) (d : Det) : Det :=
  if packet.isSome then handOver packet a.second (allocate d) else d

/-- The ordinary branch: what it leaves when it runs, nothing when it does not. -/
def Taken (maxDetectionPkts : Nat) (a : Answers) (packet : Option Nat) (d e : Det) : Prop :=
  takesPacket maxDetectionPkts d.flow = true ∧ Traced (taken a packet d) e ∨
    takesPacket maxDetectionPkts d.flow = false ∧ e = d

/-- The ending branch, in the same way. -/
def Ended (maxDetectionPkts : Nat) (a : Answers) (packet : Option Nat) (e f : Det) : Prop :=
  endsDetection maxDetectionPkts e.flow = true ∧
      (∃ g, Traced (ending a packet e) g ∧ g.flow.flags.detectionComplete = true ∧
        f = g.edit Flow.settleExpiry) ∨
    endsDetection maxDetectionPkts e.flow = false ∧ f = e

/-- The nDPI flow is released once detection is complete. -/
def released (d : Det) : Det :=
  if d.flow.flags.detectionComplete then d.edit Flow.release else d

@[simp] theorem released_held (d : Det) : (released d).flow.held = d.flow.held := by
  simp only [released]; split <;> rfl

@[simp] theorem released_log (d : Det) : (released d).log = d.log := by
  simp only [released]; split <;> rfl

@[simp] theorem released_stats (d : Det) : (released d).flow.stats = d.flow.stats := by
  simp only [released]; split <;> rfl

@[simp] theorem released_flags (d : Det) : (released d).flow.flags = d.flow.flags := by
  simp only [released]; split <;> rfl

/-- A flow that an entry without a packet would end without an nDPI flow. -/
def Dangling (maxDetectionPkts : Nat) (packet : Option Nat) (flow : Flow) : Prop :=
  packet = none ∧ takesPacket maxDetectionPkts flow = false ∧
    endsDetection maxDetectionPkts flow = true ∧ flow.ndpiFlow = none

section Control
variable (d : Det)

@[simp] theorem taken_control :
    (taken a packet d).flow.control = { d.flow.control with
      detectionPackets := d.flow.stats.detectionPackets + 1, ndpi := true } := by
  have alive := handOver_ndpi packet a.first (d.edit Flow.countDetection)
  simp only [taken, Flow.control, alive]
  simp only [handOver, allocate]
  split <;> rfl

@[simp] theorem taken_complete :
    (taken a packet d).flow.flags.detectionComplete = d.flow.flags.detectionComplete := by
  simp only [taken, handOver, allocate]
  split <;> rfl

@[simp] theorem taken_held : (taken a packet d).flow.held = d.flow.held := by
  simp only [taken, handOver, allocate]
  split <;> rfl

/-- The only event of a hand-over besides the packet is an allocation. -/
theorem handOver_log (packet : Option Nat) (answer : Answer) :
    ∃ events, (handOver packet answer (allocate d)).log = d.log ++ events ++ [.handOver packet] ∧
      ∀ e ∈ events, e = .alloc := by
  simp only [handOver, allocate]
  split
  · exact ⟨[], by simp [Det.editNdpi], by simp⟩
  · exact ⟨[.alloc], by simp [Det.editNdpi], by simp⟩

@[simp] theorem ending_none : ending a none d = d := rfl

theorem ending_some_ndpi (id : Nat) : (ending a (some id) d).flow.ndpiFlow.isSome = true :=
  handOver_ndpi (some id) a.second d

@[simp] theorem ending_complete :
    (ending a packet d).flow.flags.detectionComplete = d.flow.flags.detectionComplete := by
  simp only [ending, handOver, allocate]
  split
  · split <;> rfl
  · rfl

@[simp] theorem ending_held : (ending a packet d).flow.held = d.flow.held := by
  simp only [ending, handOver, allocate]
  split
  · split <;> rfl
  · rfl

theorem ending_control (alive : (ending a packet d).flow.ndpiFlow.isSome = true) :
    (ending a packet d).flow.control = { d.flow.control with ndpi := true } := by
  simp only [Flow.control, alive]
  simp only [ending, handOver, allocate]
  split
  · split <;> rfl
  · rfl

end Control

/-! ## The two branches -/

/-- After the ordinary branch the ending branch sees the counter one further. -/
theorem endsDetection_of_traced (maxDetectionPkts : Nat) {d e : Det}
    (traced : Traced (taken a packet d) e) :
    e.flow.stats.detectionPackets = d.flow.stats.detectionPackets + 1 ∧
      endsDetection maxDetectionPkts e.flow =
        endsDetection maxDetectionPkts d.flow.countDetection := by
  have control := traced.control.trans (taken_control d)
  simp only [Flow.control, Control.mk.injEq] at control
  obtain ⟨counter, expiring, expired, _⟩ := control
  exact ⟨counter, decide_eq_decide.mpr (by rw [counter, expiring, expired]; rfl)⟩

private theorem ordinary (maxDetectionPkts : Nat) (s : Services) (a : Answers)
    (packet : Option Nat) (d : Det) :
    ∃ e, (if takesPacket maxDetectionPkts d.flow then
        processPacket s packet a.first (d.edit Flow.countDetection) else .ok d) = .ok e ∧
      Taken maxDetectionPkts a packet d e := by
  by_cases takes : takesPacket maxDetectionPkts d.flow = true
  · obtain ⟨e, ran, traced⟩ := processPacket_spec s packet a.first (d.edit Flow.countDetection)
    exact ⟨e, by simp [takes, ran], .inl ⟨takes, traced⟩⟩
  · have idle := Bool.eq_false_iff.mpr takes
    exact ⟨d, by simp [idle], .inr ⟨idle, rfl⟩⟩

/-- The ending branch runs to its end exactly when it has an nDPI flow. -/
theorem endDetection_spec (s : Services) (a : Answers) (packet : Option Nat) {d : Det}
    (alive : (ending a packet d).flow.ndpiFlow.isSome = true) :
    ∃ g, endDetection s a packet d = .ok (g.edit Flow.settleExpiry) ∧
      Traced (ending a packet d) g ∧ g.flow.flags.detectionComplete = true := by
  have again : ∃ e, (if packet.isSome then processPacket s packet a.second d else .ok d) = .ok e ∧
      Traced (ending a packet d) e := by
    by_cases present : packet.isSome = true
    · obtain ⟨e, ran, traced⟩ := processPacket_spec s packet a.second d
      exact ⟨e, by simp [present, ran], by simpa [ending, present] using traced⟩
    · exact ⟨d, by simp [present], by simpa [ending, present] using Traced.refl d⟩
  obtain ⟨e, ranPacket, handed⟩ := again
  have guesses : Runs fun d =>
      if d.flow.detectedProtocol = Proto.unknown then setGuessedProtocol s a.giveup d else .ok d :=
    (runs_setGuessedProtocol s a.giveup).ite (runs_ok .refl)
  obtain ⟨f, ranFlow, processed⟩ := runs_processFlow s e (handed.ndpi.trans alive)
  have known := handed.trans processed
  obtain ⟨f', ranGuess, guessed⟩ := guesses f (known.ndpi.trans alive)
  have before := known.trans guessed
  obtain ⟨g, ranComplete, completed, done⟩ := setDetectionComplete_spec s (before.ndpi.trans alive)
  exact ⟨g, by simp only [endDetection, ranPacket, ranFlow, ranGuess, ranComplete, ok_bind],
    before.trans completed, done⟩

/-- The ending branch of a packet leaves the counter and an absent expiry alone. -/
theorem ended_packet {id : Nat} {e f : Det} (ended : Ended maxDetectionPkts a (some id) e f) :
    f.flow.stats.detectionPackets = e.flow.stats.detectionPackets ∧
      (e.flow.flags.expiring = false → f.flow.flags.expiring = false) ∧
      (f.flow.flags.detectionComplete = true ∨
        endsDetection maxDetectionPkts e.flow = false ∧ f = e) := by
  rcases ended with ⟨_, g, traced, done, rfl⟩ | ⟨goesOn, rfl⟩
  · have control := traced.control.trans (ending_control e (ending_some_ndpi e id))
    simp only [Flow.control, Control.mk.injEq] at control
    refine ⟨by simpa using control.1, fun running => ?_, .inl (by simpa using done)⟩
    simp [Flow.settleExpiry, control.2.1, running]
  · exact ⟨rfl, fun running => running, .inr ⟨goesOn, rfl⟩⟩

/-- Without an nDPI flow the ending branch enters `ProcessFlow` with a null pointer. -/
theorem endDetection_null (s : Services) (a : Answers) {d : Det} (null : d.flow.ndpiFlow = none) :
    endDetection s a none d = .error .processFlow := by
  have fault : processFlow s d = .error .processFlow := enter_of_null _ (by simp [null])
  simp only [endDetection, Option.isSome_none, Bool.false_eq_true, if_false, ok_bind, fault,
    error_bind]

/-! ## The whole entry -/

theorem not_dangling_ending {d e : Det} (free : ¬ Dangling maxDetectionPkts packet d.flow)
    (ordinary : Taken maxDetectionPkts a packet d e)
    (ends : endsDetection maxDetectionPkts e.flow = true) :
    (ending a packet e).flow.ndpiFlow.isSome = true := by
  cases packet with
  | some id => exact ending_some_ndpi e id
  | none =>
    rcases ordinary with ⟨_, traced⟩ | ⟨idle, rfl⟩
    · exact traced.ndpi.trans (handOver_ndpi none a.first _)
    · exact Option.isSome_iff_ne_none.mpr fun null => free ⟨rfl, idle, ends, null⟩

theorem not_dangling_packet (id : Nat) (flow : Flow) :
    ¬ Dangling maxDetectionPkts (some id) flow := by simp [Dangling]

/-- **What an entry does.** An entry that does not dangle runs to its end. -/
theorem processEntry_spec (s : Services) (a : Answers) {d : Det}
    (free : ¬ Dangling maxDetectionPkts packet d.flow) :
    ∃ e f, processEntry maxDetectionPkts s a packet d = .ok (released f) ∧
      Taken maxDetectionPkts a packet d e ∧ Ended maxDetectionPkts a packet e f := by
  obtain ⟨e, ranOrdinary, takenE⟩ := ordinary maxDetectionPkts s a packet d
  by_cases ends : endsDetection maxDetectionPkts e.flow = true
  · obtain ⟨g, ranEnding, traced, done⟩ :=
      endDetection_spec s a packet (not_dangling_ending free takenE ends)
    refine ⟨e, g.edit Flow.settleExpiry, ?_, takenE, .inl ⟨ends, g, traced, done, rfl⟩⟩
    simp only [processEntry, ranOrdinary, ok_bind, ends, if_true, ranEnding, released]
  · have goesOn := Bool.eq_false_iff.mpr ends
    refine ⟨e, e, ?_, takenE, .inr ⟨goesOn, rfl⟩⟩
    simp only [processEntry, ranOrdinary, ok_bind, goesOn, Bool.false_eq_true, if_false, released]

/-- An entry that dangles faults. -/
theorem processEntry_dangling (s : Services) (a : Answers) {d : Det}
    (dangling : Dangling maxDetectionPkts packet d.flow) :
    processEntry maxDetectionPkts s a packet d = .error .processFlow := by
  obtain ⟨rfl, idle, ends, null⟩ := dangling
  simp only [processEntry, idle, Bool.false_eq_true, if_false, ok_bind, ends, if_true,
    endDetection_null s a null, error_bind]

theorem processEntry_ok {d d' : Det}
    (ran : processEntry maxDetectionPkts s a packet d = .ok d') :
    ∃ e f, Taken maxDetectionPkts a packet d e ∧ Ended maxDetectionPkts a packet e f ∧
      d' = released f := by
  by_cases dangling : Dangling maxDetectionPkts packet d.flow
  · rw [processEntry_dangling s a dangling] at ran
    cases ran
  · obtain ⟨e, f, ran', takenE, ended⟩ := processEntry_spec s a dangling
    rw [ran'] at ran
    cases ran
    exact ⟨e, f, takenE, ended, rfl⟩

end NetifyAgent.DetectionEntry
