import NetifyAgent.ApplicationSources
import NetifyAgent.DetectionRuns

/-! The application over the life of a flow. Detection calls its functions for the flow in any
order, each with what nDPI answers by then, and other threads change the flow in between.
`ProcessFlow` chooses the first application known in the order of the sources. An extra
packet is to fill in an application that is still missing; the source replaces whatever is
known by the one of the common name that arrives. -/
namespace NetifyAgent.ApplicationChoice
open NetifyAgent.Runs NetifyAgent.ApplicationSources
open NetifyAgent.ApplicationSources.ProcessFlow NetifyAgent.ApplicationSources.ProcessPacket

variable {s : Services} {d d' e : Det} {cat : Nat → Nat}

/-- What happens to a flow. Outside of detection nothing changes its application. -/
inductive Call where
  | processPacket (s : Services) (packet : Option Nat) (a : Answer)
  | processFlow (s : Services)
  | setGuessedProtocol (s : Services) (a : GiveUp)
  | setDetectionComplete (s : Services)
  | aside (after : Det)

/-- What a call leaves, or `none` where it dereferences a null pointer. -/
def call (d : Det) : Call → Option Det
  | .processPacket s packet a => (processPacket s packet a d).toOption
  | .processFlow s => (processFlow s d).toOption
  | .setGuessedProtocol s a => (setGuessedProtocol s a d).toOption
  | .setDetectionComplete s => (setDetectionComplete s d).toOption
  | .aside after => if chosen after = chosen d then some after else none

/-- No soft dissector matches. -/
def Undissected (s : Services) : Prop := ∀ m ∈ s.softDissectorMatch, ∀ flow, m flow = none

/-- The call is made with one table of application categories, and without a soft dissector
that matches. -/
def Within (cat : Nat → Nat) : Call → Prop
  | .processPacket s _ _ | .processFlow s | .setGuessedProtocol s _ | .setDetectionComplete s =>
    s.categoryApp = cat ∧ Undissected s
  | .aside _ => True

/-- The application that a call is to leave. -/
def lawful (d : Det) : Call → Nat
  | .processFlow s => firstKnown (order s (prepared s d).flow)
  | .processPacket s packet a =>
    let e := answered s packet a d
    if e.flow.flags.detectionInit then
      firstKnown [e.flow.detectedApplication, commonNameApp s e.flow]
    else if e.flow.detectedProtocol ≠ Proto.unknown then
      firstKnown (order s (prepared s e).flow)
    else e.flow.detectedApplication
  | .setGuessedProtocol _ _ | .setDetectionComplete _ | .aside _ => d.flow.detectedApplication

/-- An extra packet brings the common name of another application than the known one. -/
def Displaced (d : Det) : Call → Prop
  | .processPacket s packet a =>
    let flow := (answered s packet a d).flow
    flow.flags.detectionInit = true ∧ flow.detectedApplication ≠ 0 ∧
      commonNameApp s flow ≠ 0 ∧ commonNameApp s flow ≠ flow.detectedApplication
  | _ => False

instance (d : Det) : (c : Call) → Decidable (Displaced d c)
  | .processPacket _ _ _ => inferInstanceAs (Decidable (_ ∧ _ ∧ _ ∧ _))
  | .processFlow _ | .setGuessedProtocol _ _ | .setDetectionComplete _ | .aside _ =>
    .isFalse not_false

/-! ## What does not choose -/

/-- The application is the same, and its category stays or becomes the right one. -/
structure Quiet (cat : Nat → Nat) (d d' : Det) : Prop where
  app : d'.flow.detectedApplication = d.flow.detectedApplication
  category : Consistent cat (chosen d) → Consistent cat (chosen d')

theorem quiet_of_chosen (same : chosen d' = chosen d) : Quiet cat d d' :=
  ⟨congrArg Prod.fst same, fun consistent => same ▸ consistent⟩

theorem Quiet.trans {f : Det} (first : Quiet cat d e) (second : Quiet cat e f) : Quiet cat d f :=
  ⟨second.app.trans first.app, fun consistent => second.category (first.category consistent)⟩

theorem quiet_categories (same : s.categoryApp = cat) : Quiet cat d (FlowUpdate.categories s d) := by
  have filled : chosen (FlowUpdate.categories s d) =
      if d.flow.category.application = 0 ∧ d.flow.detectedApplication ≠ 0 then
        (d.flow.detectedApplication, s.categoryApp d.flow.detectedApplication)
      else chosen d := by
    unfold FlowUpdate.categories
    simp only
    rw [chosen_edit (by split <;> rfl) (by split <;> rfl),
      chosen_edit (by split <;> rfl) (by split <;> rfl)]
    simp only [chosen, Det.edit_flow]
    split <;> rfl
  constructor
  · have app := congrArg Prod.fst filled
    simp only [chosen] at app
    rw [app]
    split <;> rfl
  · intro consistent
    rw [filled]
    split
    · rename_i missing
      simp [Consistent, missing.2, same]
    · exact consistent

theorem quiet_softDissect {complete : Det → Except Entered Det} (undissected : Undissected s)
    (done : FlowUpdate.softDissect s complete d = .ok d') : d' = d := by
  unfold FlowUpdate.softDissect at done
  split at done
  · rename_i nsd matched
    obtain ⟨m, enabled, found⟩ := Option.bind_eq_some_iff.mp matched
    rw [undissected m enabled] at found
    cases found
  · exact (Except.ok.inj done).symm

theorem quiet_body {complete : Det → Except Entered Det} (same : s.categoryApp = cat)
    (undissected : Undissected s) (done : FlowUpdate.body s complete d = .ok d') :
    Quiet cat d d' := by
  obtain ⟨e, dissected, noted⟩ := bind_ok (enter_ok done)
  cases noted
  rw [quiet_softDissect undissected dissected]
  exact (quiet_categories same).trans (quiet_of_chosen rfl)

theorem chosen_processRisks (done : processRisks s d = .ok d') : chosen d' = chosen d := by
  unfold processRisks at done
  cases enter_ok done
  simp only
  split <;> rfl

theorem chosen_setGuessedProtocol {a : GiveUp} (done : setGuessedProtocol s a d = .ok d') :
    chosen d' = chosen d := by
  unfold setGuessedProtocol at done
  cases enter_ok done
  unfold guess
  simp only
  split
  · split <;> rfl
  · rfl

theorem quiet_setDetectionComplete (same : s.categoryApp = cat) (undissected : Undissected s)
    (done : setDetectionComplete s d = .ok d') : Quiet cat d d' := by
  unfold setDetectionComplete at done
  split at done
  · cases done
    exact quiet_of_chosen rfl
  · obtain ⟨e, checked, updated⟩ := bind_ok done
    have risks : chosen e = chosen d.markComplete := by
      split at checked
      · cases checked
        rfl
      · exact chosen_processRisks checked
    have marked : chosen d.markComplete = chosen d := rfl
    exact (quiet_of_chosen (risks.trans marked)).trans (quiet_body same undissected updated)

theorem quiet_conclude {asked : Bool} {x : Det × Bool} (same : s.categoryApp = cat)
    (undissected : Undissected s) (done : ProcessPacket.conclude s asked x = .ok d') :
    Quiet cat x.1 d' := by
  obtain ⟨e, updated, completed⟩ := bind_ok done
  have announced : Quiet cat x.1 e := by
    split at updated
    · exact quiet_body same undissected updated
    · cases updated
      exact quiet_of_chosen rfl
  split at completed
  · exact announced.trans (quiet_setDetectionComplete same undissected completed)
  · cases completed
    exact announced

/-! ## What chooses -/

theorem order_prepared (s : Services) (d : Det) : order s (prepared s d).flow =
    twinApp s (prepared s d).flow :: d.flow.detectedApplication ::
      lowerSources s (prepared s d).flow := by
  have same : (prepared s d).flow.detectedApplication = d.flow.detectedApplication :=
    congrArg Prod.fst chosen_prepared
  rw [order, same]

/-- **`ProcessFlow` chooses the first application known.** -/
theorem processFlow_app (done : processFlow s d = .ok d') :
    d'.flow.detectedApplication = firstKnown (order s (prepared s d).flow) := by
  have app : d'.flow.detectedApplication = _ := congrArg Prod.fst (chosen_processFlow done)
  rw [app, settle_fst, pick_fst, ← firstKnown_append, order_prepared]
  rfl

theorem consistent_processFlow (same : s.categoryApp = cat) (done : processFlow s d = .ok d')
    (consistent : Consistent cat (chosen d)) : Consistent cat (chosen d') := by
  rw [chosen_processFlow done]
  exact consistent_settle same _ (consistent_pick same _ consistent)

/-- An extra packet does what it is to do, unless it displaces the application. -/
theorem updates_app (s : Services) (d : Det) :
    (ProcessPacket.updates s d).1.flow.detectedApplication =
        firstKnown [d.flow.detectedApplication, commonNameApp s d.flow] ↔
      ¬ (d.flow.detectedApplication ≠ 0 ∧ commonNameApp s d.flow ≠ 0 ∧
        commonNameApp s d.flow ≠ d.flow.detectedApplication) := by
  have app : (ProcessPacket.updates s d).1.flow.detectedApplication =
      firstKnown [commonNameApp s d.flow, d.flow.detectedApplication] :=
    (congrArg Prod.fst chosen_updates).trans (pick_fst _ _)
  rw [app]
  simp only [firstKnown_cons, firstKnown_nil]
  split <;> split <;> simp_all

/-- What looking at an answer does to the application, if the packet does not displace it. -/
theorem inspect_app {x : Det × Bool} {packet : Option Nat} {a : Answer}
    (done : ProcessPacket.inspect s (answered s packet a d) = .ok x) :
    x.1.flow.detectedApplication = lawful d (.processPacket s packet a) ↔
      ¬ Displaced d (.processPacket s packet a) := by
  unfold ProcessPacket.inspect at done
  simp only [lawful, Displaced]
  generalize answered s packet a d = e at done ⊢
  by_cases init : e.flow.flags.detectionInit = true
  · simp only [init, Bool.true_eq_false, false_and, if_false, if_true, Except.ok.injEq] at done
    cases done
    simpa only [init, if_true, true_and] using updates_app s e
  · have fresh := Bool.eq_false_iff.mpr init
    simp only [fresh, Bool.false_eq_true, if_false, false_and, not_false_eq_true, iff_true,
      true_and] at done ⊢
    split at done
    · rename_i known
      obtain ⟨f, ran, same⟩ := bind_ok done
      cases same
      rw [if_pos known]
      exact processFlow_app ran
    · rename_i unknown
      cases done
      rw [if_neg unknown]

theorem consistent_inspect {x : Det × Bool} (same : s.categoryApp = cat)
    (done : ProcessPacket.inspect s d = .ok x) (consistent : Consistent cat (chosen d)) :
    Consistent cat (chosen x.1) := by
  unfold ProcessPacket.inspect at done
  split at done
  · obtain ⟨e, ran, same'⟩ := bind_ok done
    cases same'
    exact consistent_processFlow same ran consistent
  · split at done
    · cases done
      rw [chosen_updates]
      exact consistent_pick same _ consistent
    · cases done
      exact consistent

/-! ## Calls -/

theorem toOption_eq_some {α : Type} {x : Except Entered α} {a : α} (taken : x.toOption = some a) :
    x = .ok a := by
  cases x with
  | ok b => exact congrArg Except.ok (Option.some.inj taken)
  | error fault => cases taken

/-- **One call** leaves the application it is to leave, unless it is an extra packet that
displaces it. -/
theorem call_app {c : Call} (within : Within cat c) (taken : call d c = some d') :
    d'.flow.detectedApplication = lawful d c ↔ ¬ Displaced d c := by
  cases c with
  | processPacket s packet a =>
    obtain ⟨x, looked, concluded⟩ := bind_ok (toOption_eq_some taken)
    rw [(quiet_conclude within.1 within.2 concluded).app]
    exact inspect_app looked
  | processFlow s =>
    exact iff_of_true (processFlow_app (toOption_eq_some taken)) not_false
  | setGuessedProtocol s a =>
    have same := chosen_setGuessedProtocol (toOption_eq_some taken)
    exact iff_of_true (congrArg Prod.fst same) not_false
  | setDetectionComplete s =>
    have quiet := quiet_setDetectionComplete within.1 within.2 (toOption_eq_some taken)
    exact iff_of_true quiet.app not_false
  | aside after =>
    simp only [call] at taken
    split at taken
    · rename_i same
      cases taken
      exact iff_of_true (congrArg Prod.fst same) not_false
    · cases taken

/-- Every call keeps the category that of the application. -/
theorem consistent_call {c : Call} (within : Within cat c) (taken : call d c = some d')
    (consistent : Consistent cat (chosen d)) : Consistent cat (chosen d') := by
  cases c with
  | processPacket s packet a =>
    obtain ⟨x, looked, concluded⟩ := bind_ok (toOption_eq_some taken)
    have before : Consistent cat (chosen (answered s packet a d)) := by
      rwa [chosen_answered]
    exact (quiet_conclude within.1 within.2 concluded).category
      (consistent_inspect within.1 looked before)
  | processFlow s => exact consistent_processFlow within.1 (toOption_eq_some taken) consistent
  | setGuessedProtocol s a =>
    rwa [chosen_setGuessedProtocol (toOption_eq_some taken)]
  | setDetectionComplete s =>
    exact (quiet_setDetectionComplete within.1 within.2 (toOption_eq_some taken)).category
      consistent
  | aside after =>
    simp only [call] at taken
    split at taken
    · rename_i same
      cases taken
      rwa [same]
    · cases taken

/-! ## Runs -/

/-- The calls that leave the application they are to leave. -/
def Regular (cat : Nat → Nat) (d : Det) (c : Call) : Prop := Within cat c ∧ ¬ Displaced d c

theorem consistent_run {ok : Det → Call → Prop} {template : Flow}
    (within : ∀ d c, ok d c → Within cat c)
    (reached : Reaches call ok (FlowQueue.fresh template).det d) : Consistent cat (chosen d) := by
  have unknown : Consistent cat (chosen (FlowQueue.fresh template).det) := by
    simp [Consistent, chosen, FlowQueue.fresh, Flow.copy]
  exact reached.invariant (I := fun d => Consistent cat (chosen d)) unknown
    fun _ _ _ consistent taken met => consistent_call (within _ _ met) taken consistent

/-- **The first known application counts.** In a run without an extra packet that displaces
the application, every call leaves the first one known in the order of the sources, and the
category is always the one of the application. -/
theorem first_known_kept (cat : Nat → Nat) (template : Flow) (d : Det)
    (reached : Reaches call (Regular cat) (FlowQueue.fresh template).det d) :
    Consistent cat (chosen d) ∧ ∀ c d', Regular cat d c → call d c = some d' →
      d'.flow.detectedApplication = lawful d c ∧ Consistent cat (chosen d') := by
  have consistent := consistent_run (fun _ _ regular => regular.1) reached
  refine ⟨consistent, fun c d' regular taken => ⟨?_, ?_⟩⟩
  · exact (call_app regular.1 taken).mpr regular.2
  · exact consistent_call regular.1 taken consistent

/-- Two names with an application each, both of them in category 7. -/
def twoNames : Services where
  __ := Services.bare
  appFind name := if name = rawBytes [104] then 1 else if name = rawBytes [99] then 2 else 0
  categoryApp _ := 7

/-- A TLS flow to the host `h`, of which nDPI wants to see more packets. -/
def helloCall : Call :=
  .processPacket twoNames (some 0) ⟨Proto.tls, 0, { hostServerName := [104], extraPackets := true }⟩

/-- The certificate is for `c`. -/
def certificateCall (cn : Option (List UInt8)) : Call :=
  .processPacket twoNames (some 1) ⟨Proto.tls, 0, { hostServerName := [104], serverCn := cn }⟩

theorem within_twoNames (packet : Option Nat) (a : Answer) :
    Within (fun _ => 7) (.processPacket twoNames packet a) :=
  ⟨rfl, fun _ enabled => by cases enabled⟩

/-- A certificate for the host itself. -/
theorem first_known_kept_host : ∃ d d' : Det,
    call d (certificateCall (some [104])) = some d' ∧ d'.flow.detectedApplication = 1 := by
  have found : ((call (FlowQueue.fresh {}).det helloCall).bind fun d =>
      (call d (certificateCall (some [104]))).map fun _ =>
        (decide (Displaced d (certificateCall (some [104]))),
          lawful d (certificateCall (some [104])))) = some (false, 1) := by decide +kernel
  obtain ⟨d, first, found⟩ := Option.bind_eq_some_iff.mp found
  obtain ⟨d', second, facts⟩ := Option.map_eq_some_iff.mp found
  obtain ⟨kept, app⟩ := Prod.mk.inj facts
  have reached : Reaches call (Regular fun _ => 7) (FlowQueue.fresh {}).det d :=
    .next .start first ⟨within_twoNames _ _, by decide +kernel⟩
  have regular : Regular (fun _ => 7) d (certificateCall (some [104])) :=
    ⟨within_twoNames _ _, of_decide_eq_false kept⟩
  exact ⟨d, d', second, ((first_known_kept _ {} d reached).2 _ d' regular second).1.trans app⟩

/-- The host gave an application; the certificate of an extra packet replaces it. -/
theorem known_application_displaced :
    ¬ ∀ (cat : Nat → Nat) (template : Flow) (d : Det),
      Reaches call (fun _ c => Within cat c) (FlowQueue.fresh template).det d →
      Consistent cat (chosen d) ∧ ∀ c d', Within cat c → call d c = some d' →
        d'.flow.detectedApplication = lawful d c ∧ Consistent cat (chosen d') := by
  intro claim
  have found : ((call (FlowQueue.fresh {}).det helloCall).bind fun d =>
      (call d (certificateCall (some [99]))).map fun d' =>
        (d'.flow.detectedApplication, lawful d (certificateCall (some [99])))) =
      some (2, 1) := by decide +kernel
  obtain ⟨d, first, found⟩ := Option.bind_eq_some_iff.mp found
  obtain ⟨d', second, facts⟩ := Option.map_eq_some_iff.mp found
  obtain ⟨app, expected⟩ := Prod.mk.inj facts
  have reached : Reaches call (fun _ c => Within (fun _ => 7) c) (FlowQueue.fresh {}).det d :=
    .next .start first (within_twoNames _ _)
  have same := ((claim _ {} d reached).2 _ d' (within_twoNames _ _) second).1
  exact absurd (app.symm.trans (same.trans expected)) (by decide)

/-! ## The three threads -/

theorem reaches_call {c : Call} (taken : call d c = some d') (within : Within cat c) :
    Reaches call (fun _ c => Within cat c) d d' :=
  .next .start taken within

theorem reaches_aside (same : chosen d' = chosen d) :
    Reaches call (fun _ c => Within cat c) d d' :=
  reaches_call (c := .aside d') (by simp [call, same]) trivial

theorem toOption_of_ok {x : Except Entered Det} (ran : x = .ok d') : x.toOption = some d' := by
  rw [ran]
  rfl

/-- Handling a queue entry is a sequence of calls. -/
theorem reaches_processEntry {maxDetectionPkts : Nat} {a : Answers} {packet : Option Nat}
    (same : s.categoryApp = cat) (undissected : Undissected s)
    (ran : processEntry maxDetectionPkts s a packet d = .ok d') :
    Reaches call (fun _ c => Within cat c) d d' := by
  have within : s.categoryApp = cat ∧ Undissected s := ⟨same, undissected⟩
  obtain ⟨e, taken, ran⟩ := bind_ok ran
  obtain ⟨f, ended, ran⟩ := bind_ok ran
  have first : Reaches call (fun _ c => Within cat c) d e := by
    split at taken
    · have counted : Reaches call (fun _ c => Within cat c) d (d.edit Flow.countDetection) :=
        reaches_aside rfl
      exact counted.trans (reaches_call (c := .processPacket s packet a.first)
        (toOption_of_ok taken) within)
    · cases taken
      exact .start
  have second : Reaches call (fun _ c => Within cat c) e f := by
    split at ended
    · unfold endDetection at ended
      obtain ⟨g, again, ended⟩ := bind_ok ended
      obtain ⟨h, processed, ended⟩ := bind_ok ended
      obtain ⟨i, guessed, ended⟩ := bind_ok ended
      obtain ⟨j, completed, ended⟩ := bind_ok ended
      have packets : Reaches call (fun _ c => Within cat c) e g := by
        split at again
        · exact reaches_call (c := .processPacket s packet a.second) (toOption_of_ok again) within
        · cases again
          exact .start
      have guess : Reaches call (fun _ c => Within cat c) h i := by
        split at guessed
        · exact reaches_call (c := .setGuessedProtocol s a.giveup) (toOption_of_ok guessed) within
        · cases guessed
          exact .start
      have settled : chosen f = chosen j := by
        cases ended
        unfold Flow.settleExpiry
        simp only [chosen, Det.edit_flow]
        split <;> rfl
      exact (((packets.trans (reaches_call (c := .processFlow s) (toOption_of_ok processed)
        within)).trans guess).trans (reaches_call (c := .setDetectionComplete s)
          (toOption_of_ok completed) within)).trans (reaches_aside settled)
    · cases ended
      exact .start
  have released : chosen d' = chosen f := by
    cases ran
    split <;> rfl
  exact (first.trans second).trans (reaches_aside released)

/-- **The three threads only make such calls**, so that what holds in every run of calls holds
while they share the flow. -/
theorem queue_calls {maxDetectionPkts : Nat} {template : Flow} {q : FlowQueue}
    (reached : Reaches (FlowQueue.step maxDetectionPkts) (fun _ action => ∀ s a,
      action = .detect s a → s.categoryApp = cat ∧ Undissected s) (FlowQueue.fresh template) q) :
    Reaches call (fun _ c => Within cat c) (FlowQueue.fresh template).det q.det := by
  refine reached.invariant (I := fun q : FlowQueue =>
    Reaches call (fun _ c => Within cat c) (FlowQueue.fresh template).det q.det) .start ?_
  intro q action q' before taken within
  apply before.trans
  obtain ⟨_, ⟨aside, _⟩ | ⟨_, _, rfl⟩ | ⟨s, a, rfl, handled⟩⟩ := DetectionRuns.step_cases taken
  · apply reaches_aside
    have findings := DetectionRuns.Findings.mk.inj aside.findings
    exact Prod.ext findings.2.1 (congrArg Category.application findings.2.2.2)
  · exact reaches_aside rfl
  · obtain ⟨same, undissected⟩ := within s a rfl
    cases handled with
    | done queue ran => exact reaches_processEntry same undissected ran
    | faulted queue ran => exact .start

/-- The category is the one of the application while the three threads share the flow. -/
theorem consistent_queue {maxDetectionPkts : Nat} {template : Flow} {q : FlowQueue}
    (reached : Reaches (FlowQueue.step maxDetectionPkts) (fun _ action => ∀ s a,
      action = .detect s a → s.categoryApp = cat ∧ Undissected s) (FlowQueue.fresh template) q) :
    Consistent cat (chosen q.det) :=
  consistent_run (fun _ _ within => within) (queue_calls reached)

end NetifyAgent.ApplicationChoice
