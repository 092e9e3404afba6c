import NetifyAgent.Announcements
import NetifyAgent.DetectionRuns

/-! How often completion is announced in a run. It is announced a second time
when a soft dissector completed detection inside `FlowUpdate`, and again when
`ProcessPacket` finds something new in a flow that is complete already. -/
namespace NetifyAgent.CompleteOnce
open NetifyAgent.Runs NetifyAgent.DetectionEntry NetifyAgent.DetectionRuns NetifyAgent.FlowQueue
open NetifyAgent.Announcements ProcessPacket

section
variable {s : Services} {d d' : Det}

/-! ## One call of `ProcessPacket` -/

/-- An update is announced only of a flow that is not complete and that no soft
dissector completes. -/
def Once (s : Services) (x : Det × Bool) : Prop :=
  x.2 = true → x.1.flow.flags.detectionComplete = false ∧ matched s x.1 = none

instance (s : Services) (x : Det × Bool) : Decidable (Once s x) :=
  inferInstanceAs (Decidable (_ → _ ∧ _))

/-- What is announced stays in order exactly if a condition holds. -/
structure Orderly (condition : Prop) (d d' : Det) : Prop where
  grows : ∃ events, (announced d').2 = (announced d).2 ++ events
  sound : condition → Sound d → Sound d'
  exact : Sound d → AtMostOnce d'.log → condition

theorem orderly_of_announced {condition : Prop} (holds : condition)
    (same : announced d' = announced d) : Orderly condition d d' :=
  ⟨⟨[], by rw [same, List.append_nil]⟩, fun _ sound => sound.of_announced same, fun _ _ => holds⟩

theorem Orderly.trans {p q : Prop} {d e f : Det} (first : Orderly p d e)
    (second : Orderly q e f) : Orderly (p ∧ q) d f := by
  obtain ⟨before, told⟩ := first.grows
  obtain ⟨after, told'⟩ := second.grows
  refine ⟨⟨before ++ after, by rw [told', told, List.append_assoc]⟩, ?_, fun sound once => ?_⟩
  · exact fun both sound => second.sound both.2 (first.sound both.1 sound)
  · have earlier : AtMostOnce e.log := by
      rw [← atMostOnce_filter] at once ⊢
      exact (told' ▸ once : AtMostOnce ((announced e).2 ++ after)).of_append
    have holds := first.exact sound earlier
    exact ⟨holds, second.exact (first.sound holds sound) once⟩

theorem Orderly.congr {p q : Prop} (orderly : Orderly p d d') (same : p ↔ q) : Orderly q d d' := by
  rwa [← same]

theorem orderly_setDetectionComplete (ran : setDetectionComplete s d = .ok d') :
    Orderly True d d' := by
  cases pending : d.flow.flags.detectionComplete with
  | true =>
    rw [setDetectionComplete_of_complete s pending] at ran
    cases ran
    exact orderly_of_announced trivial rfl
  | false =>
    have told := setDetectionComplete_announced pending ran
    exact ⟨⟨_, congrArg Prod.snd told⟩, fun _ sound => sound.completed pending told,
      fun _ _ => trivial⟩

theorem orderly_flowUpdate (ran : flowUpdate s d = .ok d') :
    Orderly (d.flow.flags.detectionComplete = false ∧ matched s d = none) d d' := by
  cases pending : d.flow.flags.detectionComplete with
  | true =>
    rw [flowUpdate_of_complete s pending] at ran
    have told := body_complete pending ran
    refine ⟨⟨_, congrArg Prod.snd told⟩, fun met => absurd met.1 (by simp), fun sound once => ?_⟩
    exact absurd once (sound.again pending told)
  | false =>
    have told := flowUpdate_announced pending ran
    cases found : matched s d with
    | none =>
      simp only [found] at told
      obtain ⟨event, other, told⟩ := told
      exact ⟨⟨_, congrArg Prod.snd told⟩, fun _ sound => sound.updated other told,
        fun _ _ => ⟨rfl, rfl⟩⟩
    | some nsd =>
      simp only [found] at told
      refine ⟨⟨_, congrArg Prod.snd told⟩, fun met => absurd met.2 (by simp),
        fun sound once => absurd once ?_⟩
      -- The first of the two announcements is in order, the second is not.
      have first : Sound (d.markComplete.note (.broadcast .dpiComplete)) :=
        sound.completed pending (by simp [announced, Det.markComplete, announces])
      have twice : announced d' = (true, (announced (d.markComplete.note
          (.broadcast .dpiComplete))).2 ++ [.broadcast .dpiComplete]) := by
        rw [told, announced_note]
        simp [announced, Det.markComplete, announces]
      exact first.again rfl twice

theorem orderly_conclude {asked : Bool} {x : Det × Bool} (ran : conclude s asked x = .ok d') :
    Orderly (Once s x) x.1 d' := by
  obtain ⟨e, updated, completed⟩ := bind_ok ran
  have announce : Orderly (Once s x) x.1 e := by
    cases flag : x.2 with
    | true =>
      rw [flag, if_pos rfl] at updated
      exact (orderly_flowUpdate updated).congr (by simp [Once, flag])
    | false =>
      rw [flag] at updated
      cases updated
      exact orderly_of_announced (by simp [Once, flag]) rfl
  split at completed
  · exact (announce.trans (orderly_setDetectionComplete completed)).congr (and_iff_left trivial)
  · cases completed
    exact announce

/-- A call of `ProcessPacket` that announces an update finds the flow incomplete
and no soft dissector that matches. -/
def Single (s : Services) (packet : Option Nat) (a : Answer) (d : Det) : Prop :=
  ∀ x ∈ (inspect s (handed s packet a d)).toOption, Once s x

instance (s : Services) (packet : Option Nat) (a : Answer) (d : Det) :
    Decidable (Single s packet a d) :=
  inferInstanceAs (Decidable (∀ x ∈ (inspect s (handed s packet a d)).toOption, Once s x))

theorem orderly_processPacket {packet : Option Nat} {a : Answer}
    (ran : processPacket s packet a d = .ok d') : Orderly (Single s packet a d) d d' := by
  obtain ⟨x, looked, concluded⟩ := bind_ok ran
  have same : announced x.1 = announced d :=
    (announced_inspect looked).trans (announced_handed packet a)
  have before : Orderly True d x.1 := orderly_of_announced trivial same
  refine (before.trans (orderly_conclude concluded)).congr ?_
  have found : (inspect s (handed s packet a d)).toOption = some x := congrArg Except.toOption looked
  simp [Single, found]

/-! ## One queue entry -/

/-- The calls of `ProcessPacket` that an entry makes. -/
def calls (maxDetectionPkts : Nat) (s : Services) (a : Answers) (packet : Option Nat) (d : Det) :
    List (Answer × Det) :=
  let taken := takesPacket maxDetectionPkts d.flow
  let first := if taken then [(a.first, d.edit Flow.countDetection)] else []
  let after := if taken then processPacket s packet a.first (d.edit Flow.countDetection) else .ok d
  match after with
  | .ok e => first ++ if endsDetection maxDetectionPkts e.flow ∧ packet.isSome then
      [(a.second, e)] else []
  | .error _ => first

/-- Every call an entry makes meets the condition. -/
def SingleEntry (maxDetectionPkts : Nat) (s : Services) (a : Answers) (packet : Option Nat)
    (d : Det) : Prop :=
  ∀ call ∈ calls maxDetectionPkts s a packet d, Single s packet call.1 call.2

instance (maxDetectionPkts : Nat) (s : Services) (a : Answers) (packet : Option Nat) (d : Det) :
    Decidable (SingleEntry maxDetectionPkts s a packet d) :=
  inferInstanceAs (Decidable (∀ call ∈ calls maxDetectionPkts s a packet d, _))

theorem orderly_endDetection {a : Answers} {packet : Option Nat}
    (ran : endDetection s a packet d = .ok d') :
    Orderly (packet.isSome = true → Single s packet a.second d) d d' := by
  obtain ⟨e, again, ran⟩ := bind_ok ran
  obtain ⟨f, processed, ran⟩ := bind_ok ran
  obtain ⟨g, guessed, ran⟩ := bind_ok ran
  obtain ⟨h, completed, ran⟩ := bind_ok ran
  cases ran
  have first : Orderly (packet.isSome = true → Single s packet a.second d) d e := by
    cases present : packet.isSome with
    | true =>
      rw [present, if_pos rfl] at again
      exact (orderly_processPacket again).congr (by simp)
    | false =>
      rw [present] at again
      cases again
      exact orderly_of_announced (by simp) rfl
  have between : announced g = announced e := by
    refine Eq.trans ?_ (announced_processFlow processed)
    split at guessed
    · exact announced_of_standing (stands_setGuessedProtocol guessed)
    · cases guessed
      rfl
  have expired : announced (h.edit Flow.settleExpiry) = announced h := announced_edit (by simp)
  have quiet : Orderly True e g := orderly_of_announced trivial between
  have settled : Orderly True h (h.edit Flow.settleExpiry) := orderly_of_announced trivial expired
  have rest := (quiet.trans (orderly_setDetectionComplete completed)).trans settled
  exact (first.trans rest).congr (by simp)

theorem orderly_processEntry {maxDetectionPkts : Nat} {a : Answers} {packet : Option Nat}
    (ran : processEntry maxDetectionPkts s a packet d = .ok d') :
    Orderly (SingleEntry maxDetectionPkts s a packet d) d d' := by
  obtain ⟨e, taken, ran⟩ := bind_ok ran
  obtain ⟨f, ended, ran⟩ := bind_ok ran
  cases ran
  have first : Orderly (takesPacket maxDetectionPkts d.flow = true →
      Single s packet a.first (d.edit Flow.countDetection)) d e := by
    cases takes : takesPacket maxDetectionPkts d.flow with
    | true =>
      rw [takes, if_pos rfl] at taken
      have counted : Orderly True d (d.edit Flow.countDetection) :=
        orderly_of_announced trivial (announced_edit rfl)
      exact (counted.trans (orderly_processPacket taken)).congr (by simp)
    | false =>
      rw [takes] at taken
      cases taken
      exact orderly_of_announced (by simp) rfl
  have second : Orderly (endsDetection maxDetectionPkts e.flow = true →
      packet.isSome = true → Single s packet a.second e) e f := by
    cases ends : endsDetection maxDetectionPkts e.flow with
    | true =>
      rw [ends, if_pos rfl] at ended
      exact (orderly_endDetection ended).congr (by simp)
    | false =>
      rw [ends] at ended
      cases ended
      exact orderly_of_announced (by simp) rfl
  have last : announced (if f.flow.flags.detectionComplete then f.edit Flow.release else f) =
      announced f := by
    split
    · exact announced_edit rfl
    · rfl
  have released : Orderly True f _ := orderly_of_announced trivial last
  refine ((first.trans second).trans released).congr ?_
  unfold SingleEntry calls
  simp only [taken]
  cases takesPacket maxDetectionPkts d.flow <;> cases endsDetection maxDetectionPkts e.flow <;>
    cases packet.isSome <;> simp

end

/-! ## Nested calls -/

/-- `SetDetectionComplete` and `FlowUpdate` calling each other, with `stop` in
place of the call of `SetDetectionComplete` at a depth. -/
def nested (s : Services) (stop : Det → Except Entered Det) : Nat → Det → Except Entered Det
  | 0 => stop
  | depth + 1 => fun d =>
    if d.flow.flags.detectionComplete then .ok d
    else do
      let d := d.markComplete
      let d ← (if d.flow.flags.risksChecked then .ok d else processRisks s d)
      FlowUpdate.body s (nested s stop depth) d

/-- The recursion ends: no call is nested in a nested call. -/
theorem nested_eq (s : Services) (stop : Det → Except Entered Det) (depth : Nat) :
    nested s stop (depth + 2) = setDetectionComplete s := by
  have returns : ∀ d : Det, d.flow.flags.detectionComplete = true →
      nested s stop (depth + 1) d = .ok d := fun d done => if_pos done
  funext d
  unfold nested setDetectionComplete
  split
  · rfl
  · simp only
    split
    · exact FlowUpdate.body_of_complete s returns rfl
    · cases checked : processRisks s d.markComplete with
      | error fault => rfl
      | ok e =>
        have same := announced_of_standing (stands_processRisks checked)
        exact FlowUpdate.body_of_complete s returns (congrArg Prod.fst same)

/-! ## Runs -/

section
variable {maxDetectionPkts : Nat} {template : Flow} {q q' : FlowQueue} {action : Action}

/-- Every call of `ProcessPacket` in a step meets the condition. -/
def SingleStep (maxDetectionPkts : Nat) (q : FlowQueue) : Action → Prop
  | .detect s a => ∀ packet ∈ q.queue.head?, SingleEntry maxDetectionPkts s a packet q.det
  | _ => True

instance : DecidableRel (SingleStep maxDetectionPkts) := fun q action =>
  match action with
  | .detect s a => inferInstanceAs
      (Decidable (∀ packet ∈ q.queue.head?, SingleEntry maxDetectionPkts s a packet q.det))
  | .dns _ | .reset | .accept | .queuePacket | .expireTest | .expireMark | .expireQueue _ =>
    .isTrue trivial

theorem sound_reset {d : Det} (sound : Sound d) :
    Sound ((d.edit Flow.restart).note .reset) := by
  refine ⟨atMostOnce_concat.mpr ⟨sound.once, fun other => by cases other⟩, ?_⟩
  simp only [Det.note_log, sinceReset_concat]
  rfl

theorem announced_aside (aside : Aside q q') : announced q'.det = announced q.det := by
  obtain ⟨events, log, wrote, _⟩ := aside.logged
  have none : events.filter announces = [] := by
    apply List.filter_eq_nil_iff.mpr
    intro e here
    have quiet := wrote e here
    cases e <;> simp_all [Dns.Wrote, announces]
  simp [announced, aside.complete, log, none]

/-- A step keeps announcements in order exactly if it meets the condition. -/
theorem sound_step (sound : Sound q.det) (taken : step maxDetectionPkts q action = some q') :
    (AtMostOnce q'.det.log ↔ SingleStep maxDetectionPkts q action) ∧
      (SingleStep maxDetectionPkts q action → Sound q'.det) := by
  obtain ⟨_, ⟨aside, other⟩ | ⟨rfl, _, rfl⟩ | ⟨s, a, rfl, handled⟩⟩ := step_cases taken
  · have after := sound.of_announced (announced_aside aside)
    have met : SingleStep maxDetectionPkts q action := by
      cases action with
      | detect s a => exact absurd rfl (other s a)
      | _ => trivial
    exact ⟨iff_of_true after.once met, fun _ => after⟩
  · exact ⟨iff_of_true (sound_reset sound).once trivial, fun _ => sound_reset sound⟩
  · cases handled with
    | @done packet rest d queue ran =>
      have orderly := orderly_processEntry ran
      have same : SingleStep maxDetectionPkts q (.detect s a) ↔
          SingleEntry maxDetectionPkts s a packet q.det := by simp [SingleStep, queue]
      rw [same]
      exact ⟨⟨orderly.exact sound, fun met => (orderly.sound met sound).once⟩,
        fun met => orderly.sound met sound⟩
    | @faulted packet rest entered queue ran =>
      have met : SingleStep maxDetectionPkts q (.detect s a) := by
        have dangling : Dangling maxDetectionPkts packet q.det.flow := by
          by_contra free
          obtain ⟨_, _, ran', _⟩ := processEntry_spec s a free
          rw [ran'] at ran
          cases ran
        obtain ⟨rfl, idle, _, _⟩ := dangling
        simp [SingleStep, queue, SingleEntry, calls, idle]
      exact ⟨iff_of_true sound.once met, fun _ => sound⟩

theorem sound_run
    (reached : Reaches (step maxDetectionPkts) (SingleStep maxDetectionPkts) (fresh template) q) :
    Sound q.det :=
  reached.invariant (I := fun q => Sound q.det) ⟨atMostOnce_nil, rfl⟩
    fun _ _ _ sound taken met => (sound_step sound taken).2 met

end

/-- A soft dissector that matches every flow. -/
def everyFlow : Services := { Services.bare with softDissectorMatch := some fun _ => some ⟨-1, -1⟩ }

end NetifyAgent.CompleteOnce
