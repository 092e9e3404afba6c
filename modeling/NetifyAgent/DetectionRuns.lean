import NetifyAgent.Lib.Runs
import NetifyAgent.FlowQueue

/-! Runs of one flow shared by three threads. Every step either leaves detection
aside, starts the flow over, or handles one queue entry; the invariants below
look at these three kinds of step only. The nDPI flow is missing before the
first entry and after completion, so what goes wrong goes wrong when an entry
is handled after completion: entries queued earlier, or by an expiry test that
was made earlier, still pass the tests of `ProcessPacketQueue`. -/
namespace NetifyAgent.DetectionRuns
open NetifyAgent.Runs NetifyAgent.DetectionEntry NetifyAgent.FlowQueue

variable {maxDetectionPkts : Nat} {template : Flow} {q q' q'' : FlowQueue} {action : Action}

/-- What detection has found out, apart from the metadata union. -/
structure Findings where
  detectedProtocol : ProtoId
  detectedApplication : Nat
  hostServerName : List UInt8
  category : Category
  deriving DecidableEq, Repr

def findings (flow : Flow) : Findings :=
  ⟨flow.detectedProtocol, flow.detectedApplication, flow.hostServerName, flow.category⟩

/-- A step of another thread: it may set the expiry flags, write to the union
through its `mdns` member and append to the queue. -/
structure Aside (q q' : FlowQueue) : Prop where
  fault : q'.fault = q.fault
  stats : q'.det.flow.stats = q.det.flow.stats
  ndpi : q'.det.flow.ndpiFlow = q.det.flow.ndpiFlow
  complete : q'.det.flow.flags.detectionComplete = q.det.flow.flags.detectionComplete
  findings : findings q'.det.flow = findings q.det.flow
  logged : ∃ events, q'.det.log = q.det.log ++ events ∧ (∀ e ∈ events, Dns.Wrote e) ∧
    q'.det.flow.held = events.foldl Held.after q.det.flow.held
  queued : (q'.queue = q.queue ∨ q'.queue = q.queue ++ [none]) ∧ q'.nextPacket = q.nextPacket ∨
    q'.queue = q.queue ++ [some q.nextPacket] ∧ q'.nextPacket = q.nextPacket + 1

/-- A step of the detection thread. -/
inductive Handled (maxDetectionPkts : Nat) (q : FlowQueue) (s : Services) (a : Answers) :
    FlowQueue → Prop where
  | done {packet : Option Nat} {rest : List (Option Nat)} {d : Det}
      (queue : q.queue = packet :: rest)
      (ran : processEntry maxDetectionPkts s a packet q.det = .ok d) :
      Handled maxDetectionPkts q s a { q with det := d, queue := rest }
  | faulted {packet : Option Nat} {rest : List (Option Nat)} {entered : Entered}
      (queue : q.queue = packet :: rest)
      (ran : processEntry maxDetectionPkts s a packet q.det = .error entered) :
      Handled maxDetectionPkts q s a { q with queue := rest, fault := some entered }

private theorem aside_of_flags {det : Det} {capture : CaptureState} {expire : ExpireState}
    (log : det.log = q.det.log) (same : ∃ flags, det.flow = { q.det.flow with flags } ∧
      flags.detectionComplete = q.det.flow.flags.detectionComplete) :
    Aside q { q with det, capture, expire } := by
  obtain ⟨flags, flow, complete⟩ := same
  refine ⟨rfl, ?_, ?_, ?_, ?_, ⟨[], by simpa using log, by simp, ?_⟩, .inl ⟨.inl rfl, rfl⟩⟩
  · rw [flow]
  · rw [flow]
  · rw [flow]
    exact complete
  · rw [flow]
    rfl
  · simp only [List.foldl_nil]
    rw [flow]
    rfl

/-- **What a step can do.** -/
theorem step_cases (taken : step maxDetectionPkts q action = some q') :
    q.fault = none ∧
      (Aside q q' ∧ (∀ s a, action ≠ .detect s a) ∨
        action = .reset ∧ q.det.flow.flags.detectionComplete = true ∧
          q' = { q with det := (q.det.edit Flow.restart).note .reset } ∨
        ∃ s a, action = .detect s a ∧ Handled maxDetectionPkts q s a q') := by
  simp only [step] at taken
  split at taken
  · rename_i clear
    refine ⟨clear, ?_⟩
    cases action with
    | dns m =>
      simp only [act] at taken
      split at taken
      · cases taken
        have read := Dns.read_processDnsPacket m.pointerByte m.fuel m.msg m.pkt m.pktLen m.proto q.det
        obtain ⟨events, log, wrote, held⟩ := read.logged
        refine .inl ⟨⟨rfl, ?_, ?_, ?_, ?_, ⟨events, log, wrote, held⟩, .inl ⟨.inl rfl, rfl⟩⟩, by simp⟩
        all_goals rw [read.frame]
        rfl
      · cases taken
    | reset =>
      simp only [act] at taken
      split at taken
      · rename_i met
        cases taken
        exact .inr (.inl ⟨rfl, met.2, rfl⟩)
      · cases taken
    | accept =>
      simp only [act] at taken
      split at taken
      · cases taken
        exact .inl ⟨aside_of_flags rfl ⟨_, rfl, rfl⟩, by simp⟩
      · cases taken
    | queuePacket =>
      simp only [act] at taken
      split at taken
      · cases taken
        exact .inl ⟨⟨rfl, rfl, rfl, rfl, rfl, ⟨[], by simp, by simp, rfl⟩, .inr ⟨rfl, rfl⟩⟩, by simp⟩
      · cases taken
    | expireTest =>
      simp only [act] at taken
      split at taken
      · split at taken
        · cases taken
          exact .inl ⟨aside_of_flags rfl ⟨_, rfl, rfl⟩, by simp⟩
        · cases taken
          exact .inl ⟨aside_of_flags rfl ⟨_, rfl, rfl⟩, by simp⟩
      · cases taken
    | expireMark =>
      simp only [act] at taken
      split at taken
      · split at taken
        · cases taken
          exact .inl ⟨aside_of_flags rfl ⟨_, rfl, rfl⟩, by simp⟩
        · cases taken
          exact .inl ⟨aside_of_flags rfl ⟨_, rfl, rfl⟩, by simp⟩
      · cases taken
    | expireQueue found =>
      simp only [act] at taken
      split at taken
      · split at taken
        · cases taken
          exact .inl ⟨⟨rfl, rfl, rfl, rfl, rfl, ⟨[], by simp, by simp, rfl⟩, .inl ⟨.inr rfl, rfl⟩⟩,
            by simp⟩
        · cases taken
          exact .inl ⟨aside_of_flags rfl ⟨_, rfl, rfl⟩, by simp⟩
      · cases taken
    | detect s a =>
      refine .inr (.inr ⟨s, a, rfl, ?_⟩)
      simp only [act] at taken
      split at taken
      · cases taken
      · rename_i queue
        split at taken
        · rename_i ran
          cases taken
          exact .done queue ran
        · rename_i ran
          cases taken
          exact .faulted queue ran
  · cases taken

theorem step_detect {s : Services} {a : Answers}
    (taken : step maxDetectionPkts q (.detect s a) = some q') : Handled maxDetectionPkts q s a q' := by
  obtain ⟨_, ⟨_, other⟩ | ⟨other, _⟩ | ⟨_, _, same, handled⟩⟩ := step_cases taken
  · exact absurd rfl (other s a)
  · cases other
  · cases same
    exact handled

/-! ## The nDPI flow -/

/-- Between two entries the nDPI flow is missing where no packet was counted
yet or detection is complete, and nowhere else. -/
structure NdpiSound (flow : Flow) : Prop where
  missing : flow.ndpiFlow = none →
    flow.stats.detectionPackets = 0 ∨ flow.flags.detectionComplete = true
  released : flow.flags.detectionComplete = true → flow.ndpiFlow = none

/-- An entry that runs to its end leaves the flow so. -/
theorem ndpiSound_entry {s : Services} {a : Answers} {packet : Option Nat} {d d' : Det}
    (sound : NdpiSound d.flow) (ran : processEntry maxDetectionPkts s a packet d = .ok d') :
    NdpiSound d'.flow := by
  obtain ⟨e, f, takenE, ended, rfl⟩ := processEntry_ok ran
  by_cases done : f.flow.flags.detectionComplete = true
  · simp only [DetectionEntry.released, done, if_true]
    exact ⟨fun _ => .inr done, fun _ => rfl⟩
  · have going := Bool.eq_false_iff.mpr done
    simp only [DetectionEntry.released, going, Bool.false_eq_true, if_false]
    rcases ended with ⟨_, g, _, complete, rfl⟩ | ⟨_, rfl⟩
    · simp [complete] at done
    · rcases takenE with ⟨_, traced⟩ | ⟨_, rfl⟩
      · have alive := traced.ndpi.trans (ProcessPacket.handOver_ndpi packet a.first _)
        exact ⟨fun null => by simp [null] at alive, fun complete => absurd complete done⟩
      · exact sound

/-- An entry that `ExpireFlow` queued is handled after detection is complete,
where the tests of `ProcessPacketQueue` let it end detection once more. -/
def LateExpiry (maxDetectionPkts : Nat) (q : FlowQueue) : Prop :=
  q.queue.head? = some none ∧ q.det.flow.flags.detectionComplete = true ∧
    q.det.flow.stats.detectionPackets ≠ 0 ∧ endsDetection maxDetectionPkts q.det.flow = true

/-- The detection thread handles no late expiry. -/
def NoLateExpiry (maxDetectionPkts : Nat) (q : FlowQueue) : Action → Prop
  | .detect _ _ => ¬ LateExpiry maxDetectionPkts q
  | _ => True

instance : DecidableRel (NoLateExpiry maxDetectionPkts) := fun _ action =>
  match action with
  | .detect _ _ => inferInstanceAs (Decidable (¬ (_ ∧ _ ∧ _ ∧ _)))
  | .dns _ | .reset | .accept | .queuePacket | .expireTest | .expireMark | .expireQueue _ =>
    .isTrue trivial

theorem takesPacket_of_complete {flow : Flow} (done : flow.flags.detectionComplete = true) :
    takesPacket maxDetectionPkts flow = decide (flow.stats.detectionPackets = 0) := by
  simp [takesPacket, done]

/-- While the nDPI flow is sound, exactly a late expiry dangles. -/
theorem dangling_iff {packet : Option Nat} {rest : List (Option Nat)}
    (sound : NdpiSound q.det.flow) (queue : q.queue = packet :: rest) :
    Dangling maxDetectionPkts packet q.det.flow ↔ LateExpiry maxDetectionPkts q := by
  simp only [Dangling, LateExpiry, queue, List.head?_cons, Option.some.injEq]
  constructor
  · rintro ⟨rfl, idle, ends, null⟩
    have counted : q.det.flow.stats.detectionPackets ≠ 0 := by
      intro zero
      simp [takesPacket, zero] at idle
    exact ⟨rfl, (sound.missing null).resolve_left counted, counted, ends⟩
  · rintro ⟨rfl, done, counted, ends⟩
    refine ⟨rfl, ?_, ends, sound.released done⟩
    simp [takesPacket_of_complete done, counted]

/-- A sound nDPI flow stays sound, and nothing faults but a late expiry. -/
theorem ndpiSound_step (sound : NdpiSound q.det.flow)
    (taken : step maxDetectionPkts q action = some q')
    (safe : NoLateExpiry maxDetectionPkts q action) : q'.fault = none ∧ NdpiSound q'.det.flow := by
  obtain ⟨clear, ⟨aside, _⟩ | ⟨_, done, rfl⟩ | ⟨s, a, rfl, handled⟩⟩ := step_cases taken
  · refine ⟨aside.fault.trans clear, ?_, ?_⟩
    · simpa only [aside.ndpi, aside.stats, aside.complete] using sound.missing
    · simpa only [aside.ndpi, aside.complete] using sound.released
  · exact ⟨clear, fun _ => .inl rfl, fun _ => sound.released done⟩
  · cases handled with
    | done queue ran => exact ⟨clear, ndpiSound_entry sound ran⟩
    | @faulted packet _ _ queue ran =>
      have free : ¬ Dangling maxDetectionPkts packet q.det.flow :=
        fun dangling => safe ((dangling_iff sound queue).mp dangling)
      obtain ⟨_, _, ran', _⟩ := processEntry_spec s a free
      rw [ran'] at ran
      cases ran

theorem ndpiSound_run
    (reached : Reaches (step maxDetectionPkts) (NoLateExpiry maxDetectionPkts) (fresh template) q) :
    q.fault = none ∧ NdpiSound q.det.flow :=
  reached.invariant (I := fun q => q.fault = none ∧ NdpiSound q.det.flow)
    ⟨rfl, fun _ => .inl rfl, fun _ => rfl⟩
    fun _ _ _ sound taken safe => ndpiSound_step sound.2 taken safe

/-- **No function is entered with a null nDPI flow** in a run that handles no
late expiry. -/
theorem entered_with_ndpi_flow (maxDetectionPkts : Nat) (template : Flow) (q : FlowQueue)
    (reached : Reaches (step maxDetectionPkts) (NoLateExpiry maxDetectionPkts) (fresh template) q) :
    q.fault = none :=
  (ndpiSound_run reached).1

/-- A packet, an expiry and the packet's end, one after the other. -/
theorem entered_with_ndpi_flow_expiring :
    (exec (step 32) (NoLateExpiry 32) (fresh {})
      [.accept, .queuePacket, .expireTest, .expireMark, .expireQueue true, .detectAs Proto.http,
        .detectAs Proto.http]).map FlowQueue.fault = some none := by
  cases done : exec (step 32) (NoLateExpiry 32) (fresh {})
      [.accept, .queuePacket, .expireTest, .expireMark, .expireQueue true, .detectAs Proto.http,
        .detectAs Proto.http] with
  | none => exact absurd (congrArg Option.isSome done) (by decide)
  | some q => exact congrArg some (entered_with_ndpi_flow 32 {} q (reaches_of_exec done))

/-- `ExpireFlow` finds detection incomplete, the last packet completes it, and
the expiry queued after that enters `ProcessFlow` without an nDPI flow. -/
theorem entered_without_ndpi_flow :
    ¬ ∀ (maxDetectionPkts : Nat) (template : Flow) (q : FlowQueue),
      Reaches (step maxDetectionPkts) Always (fresh template) q → q.fault = none := by
  intro claim
  have found : (exec (step 32) Always (fresh {})
      [.accept, .queuePacket, .expireTest, .detectAs Proto.http, .expireMark, .expireQueue true,
        .detectAs Proto.http]).any (fun q => q.fault == some .processFlow) = true := by decide
  obtain ⟨q, reached, faulted⟩ := reached_of_exec found
  simp [claim 32 {} q reached] at faulted

/-- The condition is exact: in such a run a late expiry always faults. -/
theorem lateExpiry_faults {s : Services} {a : Answers}
    (reached : Reaches (step maxDetectionPkts) (NoLateExpiry maxDetectionPkts) (fresh template) q)
    (late : LateExpiry maxDetectionPkts q) :
    ∃ q', step maxDetectionPkts q (.detect s a) = some q' ∧ q'.fault = some .processFlow := by
  obtain ⟨clear, sound⟩ := ndpiSound_run reached
  cases queue : q.queue with
  | nil => simp [LateExpiry, queue] at late
  | cons packet rest =>
    have fault := processEntry_dangling s a ((dangling_iff sound queue).mpr late)
    exact ⟨{ q with queue := rest, fault := some .processFlow },
      by simp only [step, clear, if_true, act, queue, fault], rfl⟩

/-! ## Completion -/

/-- A step before the next reset. Once detection is complete, an entry neither
passes the test for a first packet nor the test for ending detection. -/
def NoLateWork (maxDetectionPkts : Nat) (q : FlowQueue) : Action → Prop
  | .detect _ _ => q.det.flow.flags.detectionComplete = true →
      q.det.flow.stats.detectionPackets ≠ 0 ∧ endsDetection maxDetectionPkts q.det.flow = false
  | .reset => False
  | _ => True

instance : DecidableRel (NoLateWork maxDetectionPkts) := fun _ action =>
  match action with
  | .detect _ _ => inferInstanceAs (Decidable (_ → _ ∧ _))
  | .reset => .isFalse id
  | .dns _ | .accept | .queuePacket | .expireTest | .expireMark | .expireQueue _ => .isTrue trivial

/-- Such an entry does nothing but release the nDPI flow. -/
theorem processEntry_of_complete (s : Services) (a : Answers) (packet : Option Nat) {d : Det}
    (done : d.flow.flags.detectionComplete = true) (counted : d.flow.stats.detectionPackets ≠ 0)
    (goesOn : endsDetection maxDetectionPkts d.flow = false) :
    processEntry maxDetectionPkts s a packet d = .ok (d.edit Flow.release) := by
  have idle : takesPacket maxDetectionPkts d.flow = false := by
    simp [takesPacket_of_complete done, counted]
  simp only [processEntry, idle, Bool.false_eq_true, if_false, ok_bind, goesOn, done, if_true]

/-- What stays as it is from completion on. -/
structure Settled (q q' : FlowQueue) : Prop where
  complete : q'.det.flow.flags.detectionComplete = true
  findings : findings q'.det.flow = findings q.det.flow
  logged : ∃ events, q'.det.log = q.det.log ++ events ∧ ∀ e ∈ events, Dns.Wrote e

theorem handled_of_complete {s : Services} {a : Answers}
    (done : q.det.flow.flags.detectionComplete = true)
    (met : NoLateWork maxDetectionPkts q (.detect s a)) (handled : Handled maxDetectionPkts q s a q') :
    ∃ rest, q' = { q with det := q.det.edit Flow.release, queue := rest } := by
  obtain ⟨counted, goesOn⟩ := met done
  cases handled with
  | @done packet rest _ _ ran =>
    rw [processEntry_of_complete s a packet done counted goesOn] at ran
    cases ran
    exact ⟨rest, rfl⟩
  | @faulted packet _ _ _ ran =>
    rw [processEntry_of_complete s a packet done counted goesOn] at ran
    cases ran

theorem settled_step (settled : Settled q q') (taken : step maxDetectionPkts q' action = some q'')
    (met : NoLateWork maxDetectionPkts q' action) : Settled q q'' := by
  obtain ⟨events, log, wrote⟩ := settled.logged
  obtain ⟨_, ⟨aside, _⟩ | ⟨rfl, _⟩ | ⟨s, a, rfl, handled⟩⟩ := step_cases taken
  · obtain ⟨more, logMore, wroteMore, _⟩ := aside.logged
    refine ⟨aside.complete.trans settled.complete, aside.findings.trans settled.findings,
      events ++ more, by rw [logMore, log, List.append_assoc], ?_⟩
    simpa [or_imp, forall_and] using ⟨wrote, wroteMore⟩
  · exact met.elim
  · obtain ⟨rest, rfl⟩ := handled_of_complete settled.complete met handled
    exact ⟨settled.complete, settled.findings, settled.logged⟩

/-- **Completion is final** until the flow is reset: in a run whose entries
meet the condition the findings stay as they were, and no entry changes the
metadata or allocates an nDPI flow. -/
theorem completion_is_final (maxDetectionPkts : Nat) (q q' : FlowQueue)
    (done : q.det.flow.flags.detectionComplete = true)
    (later : Reaches (step maxDetectionPkts) (NoLateWork maxDetectionPkts) q q') :
    q'.det.flow.flags.detectionComplete = true ∧ findings q'.det.flow = findings q.det.flow ∧
      ∀ s a q'', step maxDetectionPkts q' (.detect s a) = some q'' →
        NoLateWork maxDetectionPkts q' (.detect s a) →
        findings q''.det.flow = findings q'.det.flow ∧
          q''.det.flow.metadata = q'.det.flow.metadata ∧ q''.det.log = q'.det.log := by
  have settled : Settled q q' := later.invariant ⟨done, rfl, [], by simp, by simp⟩
    fun _ _ _ settled taken met => settled_step settled taken met
  refine ⟨settled.complete, settled.findings, fun s a q'' taken met => ?_⟩
  obtain ⟨rest, rfl⟩ := handled_of_complete settled.complete met (step_detect taken)
  exact ⟨rfl, rfl, rfl⟩

/-- A second packet that was queued before the first one completed detection. -/
theorem completion_is_final_second : ∃ q q' : FlowQueue,
    q.queue.length = 1 ∧ q'.queue.length = 0 ∧ findings q'.det.flow = findings q.det.flow := by
  let before := Action.queuePackets 2 ++ [Action.detectAs Proto.http]
  have found : ((exec (step 32) Always (fresh {}) before).bind fun q =>
      (exec (step 32) (NoLateWork 32) q [.detectAs Proto.http]).map fun q' =>
        (q.det.flow.flags.detectionComplete, q.queue.length, q'.queue.length)) =
      some (true, 1, 0) := by decide
  obtain ⟨q, _, found⟩ := Option.bind_eq_some_iff.mp found
  obtain ⟨q', done, facts⟩ := Option.map_eq_some_iff.mp found
  simp only [Prod.mk.injEq] at facts
  exact ⟨q, q', facts.2.1, facts.2.2,
    (completion_is_final 32 q q' facts.1 (reaches_of_exec done)).2.1⟩

/-- At the default limit: the packet that reaches it completes detection, and
the packet queued behind it is processed all over again. -/
theorem completion_is_not_final :
    ¬ ∀ (maxDetectionPkts : Nat) (template : Flow) (q q' : FlowQueue) (s : Services) (a : Answers),
      Reaches (step maxDetectionPkts) Always (fresh template) q →
      q.det.flow.flags.detectionComplete = true →
      step maxDetectionPkts q (.detect s a) = some q' →
        q'.det.log.count .alloc = q.det.log.count .alloc := by
  intro claim
  let actions := Action.queuePackets 33 ++ List.replicate 32 (Action.detectAs Proto.unknown)
  have found : ((exec (step 32) Always (fresh {}) actions).bind fun q =>
      (step 32 q (.detectAs Proto.unknown)).map fun q' => (q.det.flow.flags.detectionComplete,
        q.det.log.count .alloc, q'.det.log.count .alloc)) = some (true, 1, 2) := by decide +kernel
  obtain ⟨q, done, found⟩ := Option.bind_eq_some_iff.mp found
  obtain ⟨q', taken, counts⟩ := Option.map_eq_some_iff.mp found
  simp only [Prod.mk.injEq] at counts
  have same := claim 32 {} q q' _ _ (reaches_of_exec done) counts.1 taken
  omega

/-! ## Packets handed over -/

/-- How many packets were handed to nDPI since the last reset. -/
def handed (log : List Event) : Nat :=
  log.foldl (fun n e =>
    match e with
    | .reset => 0
    | .handOver (some _) => n + 1
    | _ => n) 0

/-- How often one packet was handed to nDPI. -/
def timesHanded (id : Nat) (log : List Event) : Nat := log.count (.handOver (some id))

/-- Events that neither hand a packet over nor reset the flow. -/
def Silent (e : Event) : Prop := e ≠ .reset ∧ ∀ id, e ≠ .handOver (some id)

theorem handed_append {events : List Event} (log : List Event) (silent : ∀ e ∈ events, Silent e) :
    handed (log ++ events) = handed log := by
  induction events generalizing log with
  | nil => simp
  | cons e events ih =>
    have head := silent e List.mem_cons_self
    have rest := ih (log ++ [e]) fun e' later => silent e' (List.mem_cons_of_mem e later)
    rw [show log ++ e :: events = (log ++ [e]) ++ events by simp, rest]
    simp only [handed, List.foldl_append, List.foldl_cons, List.foldl_nil]
    cases e with
    | reset => exact absurd rfl head.1
    | handOver packet =>
      cases packet with
      | none => rfl
      | some id => exact absurd rfl (head.2 id)
    | _ => rfl

theorem timesHanded_append {events : List Event} (id : Nat) (log : List Event)
    (silent : ∀ e ∈ events, Silent e) : timesHanded id (log ++ events) = timesHanded id log := by
  have none : List.count (.handOver (some id)) events = 0 :=
    List.count_eq_zero.mpr fun found => (silent _ found).2 id rfl
  simp only [timesHanded, List.count_append, none, Nat.add_zero]

theorem handed_packet (id : Nat) (log : List Event) :
    handed (log ++ [.handOver (some id)]) = handed log + 1 := by
  simp [handed]

theorem timesHanded_packet (id other : Nat) (log : List Event) :
    timesHanded other (log ++ [.handOver (some id)]) =
      timesHanded other log + if id = other then 1 else 0 := by
  simp [timesHanded, List.count_append, List.count_singleton]

theorem silent_of_wrote {e : Event} (wrote : Dns.Wrote e) : Silent e := by
  constructor
  · rintro rfl
    exact wrote
  · rintro id rfl
    exact wrote

theorem silent_of_proper {h : Held} {events : List Event} (proper : Proper h events) :
    ∀ e ∈ events, Silent e := by
  intro e member
  obtain ⟨held, possible⟩ := proper.of_mem member
  constructor
  · rintro rfl
    exact possible
  · rintro id rfl
    exact possible

/-- Each entry is handed over where it is counted, and counted where there is a
packet to hand over. -/
def CountedOnce (maxDetectionPkts : Nat) (q : FlowQueue) : Action → Prop
  | .detect _ _ => ∀ packet ∈ q.queue.head?,
      let flow := q.det.flow
      if packet.isSome then
        endsDetection maxDetectionPkts
            (if takesPacket maxDetectionPkts flow then flow.countDetection else flow) = false ∧
          (takesPacket maxDetectionPkts flow = true → flow.stats.detectionPackets ≠ 255)
      else takesPacket maxDetectionPkts flow = false
  | _ => True

instance : DecidableRel (CountedOnce maxDetectionPkts) := fun _ action =>
  match action with
  | .detect _ _ => inferInstanceAs (Decidable (∀ packet ∈ _, _))
  | .dns _ | .reset | .accept | .queuePacket | .expireTest | .expireMark | .expireQueue _ =>
    .isTrue trivial

/-- A packet is on its way at most once: queued, or handed over, or not read
yet. The counter agrees with the log. -/
structure Accounted (q : FlowQueue) : Prop where
  once : ∀ id, timesHanded id q.det.log + q.queue.count (some id) ≤
    if id < q.nextPacket then 1 else 0
  counted : q.det.flow.stats.detectionPackets.toNat = handed q.det.log

/-- A handled entry is silent, or it hands its packet over and counts it. -/
theorem entry_handed {s : Services} {a : Answers} {packet : Option Nat} {d d' : Det}
    (met : if packet.isSome then
        endsDetection maxDetectionPkts
            (if takesPacket maxDetectionPkts d.flow then d.flow.countDetection else d.flow) = false ∧
          (takesPacket maxDetectionPkts d.flow = true → d.flow.stats.detectionPackets ≠ 255)
      else takesPacket maxDetectionPkts d.flow = false)
    (ran : processEntry maxDetectionPkts s a packet d = .ok d') :
    (∃ events, d'.log = d.log ++ events ∧ (∀ e ∈ events, Silent e) ∧
        d'.flow.stats.detectionPackets = d.flow.stats.detectionPackets) ∨
      ∃ id before after, packet = some id ∧
        d'.log = d.log ++ before ++ [.handOver (some id)] ++ after ∧
        (∀ e ∈ before, Silent e) ∧ (∀ e ∈ after, Silent e) ∧
        d.flow.stats.detectionPackets ≠ 255 ∧
        d'.flow.stats.detectionPackets = d.flow.stats.detectionPackets + 1 := by
  obtain ⟨e, f, takenE, ended, rfl⟩ := processEntry_ok ran
  rcases takenE with ⟨takes, traced⟩ | ⟨idle, rfl⟩
  · cases packet with
    | none => simp [takes] at met
    | some id =>
      simp only [Option.isSome_some, if_true, takes, true_implies] at met
      obtain ⟨counter, ends⟩ := endsDetection_of_traced maxDetectionPkts traced
      rcases ended with ⟨again, _⟩ | ⟨_, rfl⟩
      · simp [ends, met.1] at again
      · obtain ⟨before, handedOver, allocs⟩ :=
          handOver_log (d.edit Flow.countDetection) (some id) a.first
        obtain ⟨after, log, proper, _⟩ := traced.logged
        refine .inr ⟨id, before, after, rfl, ?_, ?_, silent_of_proper proper, met.2, ?_⟩
        · rw [released_log, log, taken, handedOver, Det.edit_log]
        · intro event member
          rw [allocs event member]
          exact ⟨by simp, by simp⟩
        · rw [released_stats, counter]
  · refine .inl ?_
    rcases ended with ⟨ends, g, traced, _, rfl⟩ | ⟨_, rfl⟩
    · cases packet with
      | some id => simp [idle, ends] at met
      | none =>
        obtain ⟨events, log, proper, _⟩ := traced.logged
        rw [ending_none] at log traced
        refine ⟨events, by simpa using log, silent_of_proper proper, ?_⟩
        have counter : g.flow.stats.detectionPackets = e.flow.stats.detectionPackets :=
          congrArg Control.detectionPackets traced.control
        simpa using counter
    · exact ⟨[], by simp, by simp, by simp⟩

theorem accounted_step (accounted : Accounted q) (taken : step maxDetectionPkts q action = some q')
    (met : CountedOnce maxDetectionPkts q action) : Accounted q' := by
  obtain ⟨_, ⟨aside, _⟩ | ⟨_, _, rfl⟩ | ⟨s, a, rfl, handled⟩⟩ := step_cases taken
  · obtain ⟨events, log, wrote, _⟩ := aside.logged
    have silent : ∀ e ∈ events, Silent e := fun e member => silent_of_wrote (wrote e member)
    refine ⟨fun id => ?_, ?_⟩
    · have before := accounted.once id
      rw [log, timesHanded_append id _ silent]
      rcases aside.queued with ⟨same | same, next⟩ | ⟨same, next⟩
      · rwa [same, next]
      · simpa [same, next] using before
      · rw [same, next, List.count_append, List.count_singleton]
        by_cases new : id = q.nextPacket
        · simp only [new, Nat.lt_irrefl, if_false] at before ⊢
          simp
          omega
        · have other : (some q.nextPacket == some id) = false := by simpa using Ne.symm new
          simp only [other, Bool.false_eq_true, if_false]
          split at before <;> split <;> omega
    · rw [aside.stats, log, handed_append _ silent]
      exact accounted.counted
  · refine ⟨fun id => ?_, ?_⟩
    · simpa [timesHanded, List.count_append, List.count_singleton] using accounted.once id
    · simp [handed, Flow.restart]
  · cases handled with
    | faulted queue ran =>
      refine ⟨fun id => ?_, accounted.counted⟩
      have before := accounted.once id
      rw [queue, List.count_cons] at before
      exact (Nat.add_le_add_left (Nat.le_add_right _ _) _).trans before
    | @done packet rest d queue ran =>
      have condition := met packet (by simp [queue])
      rcases entry_handed condition ran with
        ⟨events, log, silent, counter⟩ | ⟨id, before, after, rfl, log, quiet, silent, room, counter⟩
      · refine ⟨fun id => ?_, ?_⟩
        · have before := accounted.once id
          rw [queue, List.count_cons] at before
          show timesHanded id d.log + _ ≤ _
          rw [log, timesHanded_append id _ silent]
          exact (Nat.add_le_add_left (Nat.le_add_right _ _) _).trans before
        · show d.flow.stats.detectionPackets.toNat = handed d.log
          rw [log, handed_append _ silent, counter]
          exact accounted.counted
      · refine ⟨fun other => ?_, ?_⟩
        · have onceOther := accounted.once other
          rw [queue, List.count_cons] at onceOther
          show timesHanded other d.log + rest.count (some other) ≤
            if other < q.nextPacket then 1 else 0
          rw [log, timesHanded_append other _ silent, timesHanded_packet,
            timesHanded_append other _ quiet]
          simp only [beq_iff_eq, Option.some.injEq] at onceOther
          omega
        · show d.flow.stats.detectionPackets.toNat = handed d.log
          rw [log, handed_append _ silent, handed_packet, handed_append _ quiet, counter,
            ← accounted.counted, Bytes.toNat_succ room]

/-- **Each packet is handed over once and counted** in a run whose entries meet
the condition. -/
theorem handed_once (maxDetectionPkts : Nat) (template : Flow) (q : FlowQueue)
    (reached : Reaches (step maxDetectionPkts) (CountedOnce maxDetectionPkts) (fresh template) q) :
    (∀ id, timesHanded id q.det.log ≤ 1) ∧
      q.det.flow.stats.detectionPackets.toNat = handed q.det.log := by
  have accounted : Accounted q := reached.invariant ⟨by simp [fresh, timesHanded], rfl⟩
    fun _ _ _ accounted taken met => accounted_step accounted taken met
  refine ⟨fun id => ?_, accounted.counted⟩
  have once := accounted.once id
  split at once <;> omega

/-- Two packets below the default limit. -/
theorem handed_once_two :
    ∃ q : FlowQueue, q.queue.length = 0 ∧ q.nextPacket = 2 ∧ timesHanded 1 q.det.log ≤ 1 := by
  have found : ((exec (step 32) (CountedOnce 32) (fresh {})
      (Action.queuePackets 2 ++ List.replicate 2 (Action.detectAs Proto.unknown))).map fun q =>
        (q.queue.length, q.nextPacket)) = some (0, 2) := by decide
  obtain ⟨q, done, facts⟩ := Option.map_eq_some_iff.mp found
  simp only [Prod.mk.injEq] at facts
  exact ⟨q, facts.1, facts.2, (handed_once 32 {} q (reaches_of_exec done)).1 1⟩

/-- At the default limit: the packet that reaches it is handed over twice. -/
theorem handed_twice :
    ¬ ∀ (maxDetectionPkts : Nat) (template : Flow) (q : FlowQueue),
      Reaches (step maxDetectionPkts) Always (fresh template) q →
      (∀ id, timesHanded id q.det.log ≤ 1) ∧
        q.det.flow.stats.detectionPackets.toNat = handed q.det.log := by
  intro claim
  have found : (exec (step 32) Always (fresh {})
      (Action.queuePackets 32 ++ List.replicate 32 (Action.detectAs Proto.unknown))).any
        (fun q => timesHanded 31 q.det.log == 2) = true := by decide +kernel
  obtain ⟨q, reached, twice⟩ := reached_of_exec found
  have once := (claim 32 {} q reached).1 31
  simp only [beq_iff_eq] at twice
  omega

end NetifyAgent.DetectionRuns
