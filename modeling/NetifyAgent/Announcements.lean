import NetifyAgent.DetectionStanding

/-! The announcements of completion in a log, and what `FlowUpdate` and
`SetDetectionComplete` add to them. `SetDetectionComplete` returns at once when
detection is complete, so it announces completion once; but `FlowUpdate`
announces whatever the flow has become when it ends. -/
namespace NetifyAgent.Announcements
open NetifyAgent.ProcessPacket

/-! ## Announcements in a log -/

/-- Between two resets completion is announced at most once. -/
def AtMostOnce (log : List Event) : Prop :=
  ∀ before between after, log = before ++ between ++ after → Event.reset ∉ between →
    between.count (.broadcast .dpiComplete) ≤ 1

def tally (n : Nat) : Event → Nat
  | .reset => 0
  | .broadcast .dpiComplete => n + 1
  | _ => n

/-- The announcements of completion since the last reset. -/
def sinceReset (log : List Event) : Nat := log.foldl tally 0

/-- The events that count here. -/
def announces : Event → Bool
  | .broadcast _ | .reset => true
  | _ => false

section
variable {log events : List Event} {e : Event}

theorem sinceReset_concat : sinceReset (log ++ [e]) = tally (sinceReset log) e := by
  simp [sinceReset]

theorem tally_quiet (quiet : announces e = false) (n : Nat) : tally n e = n := by
  cases e with
  | broadcast _ => cases quiet
  | reset => cases quiet
  | _ => rfl

/-- They are the ones in the longest stretch without a reset. -/
theorem sinceReset_stretch (log : List Event) :
    ∃ before between, log = before ++ between ∧ Event.reset ∉ between ∧
      between.count (.broadcast .dpiComplete) = sinceReset log := by
  induction log using List.reverseRecOn with
  | nil => exact ⟨[], [], rfl, by simp, rfl⟩
  | append_singleton log e ih =>
    obtain ⟨before, between, split, free, count⟩ := ih
    rw [sinceReset_concat]
    by_cases start : e = .reset
    · subst start
      exact ⟨log ++ [.reset], [], by simp, by simp, rfl⟩
    · refine ⟨before, between ++ [e], by rw [split, List.append_assoc], ?_, ?_⟩
      · simp [free, Ne.symm start]
      · rw [List.count_append, count]
        by_cases complete : e = .broadcast .dpiComplete
        · subst complete
          rfl
        · rw [List.count_singleton, beq_eq_false_iff_ne.mpr complete]
          cases e with
          | broadcast event =>
            cases event with
            | dpiComplete => exact absurd rfl complete
            | dpiNew => rfl
            | dpiUpdate => rfl
          | reset => exact absurd rfl start
          | _ => rfl

theorem le_sinceReset (before : List Event) {between : List Event} (free : Event.reset ∉ between) :
    between.count (.broadcast .dpiComplete) ≤ sinceReset (before ++ between) := by
  induction between using List.reverseRecOn with
  | nil => exact Nat.zero_le _
  | append_singleton between e ih =>
    simp only [List.mem_append, List.mem_singleton, not_or] at free
    rw [← List.append_assoc, sinceReset_concat, List.count_append, List.count_singleton]
    have soFar := ih free.1
    cases e with
    | broadcast event =>
      cases event with
      | dpiComplete => exact Nat.add_le_add_right soFar 1
      | dpiNew => exact soFar
      | dpiUpdate => exact soFar
    | reset => exact absurd rfl free.2
    | _ => exact soFar

theorem atMostOnce_concat : AtMostOnce (log ++ [e]) ↔
    AtMostOnce log ∧ (e = .broadcast .dpiComplete → sinceReset log = 0) := by
  constructor
  · intro once
    refine ⟨fun before between after split free => ?_, ?_⟩
    · exact once before between (after ++ [e]) (by rw [split, List.append_assoc]) free
    · rintro rfl
      obtain ⟨before, between, split, free, count⟩ := sinceReset_stretch log
      have one := once before (between ++ [.broadcast .dpiComplete]) []
        (by rw [split, List.append_nil, List.append_assoc]) (by simp [free])
      rw [List.count_append, count] at one
      exact Nat.le_zero.mp (Nat.le_of_add_le_add_right one)
  · rintro ⟨once, first⟩ before between after split free
    induction after using List.reverseRecOn with
    | append_singleton after last _ =>
      rw [← List.append_assoc] at split
      exact once before between after (List.append_inj_left' split rfl) free
    | nil =>
      rw [List.append_nil] at split
      induction between using List.reverseRecOn with
      | nil => exact Nat.zero_le _
      | append_singleton between last _ =>
        rw [← List.append_assoc] at split
        have same := List.append_inj_left' split rfl
        have last' := List.append_inj_right' split rfl
        cases last'
        simp only [List.mem_append, not_or] at free
        rw [List.count_append, List.count_singleton]
        by_cases complete : e = .broadcast .dpiComplete
        · have none := le_sinceReset before free.1
          rw [← same, first complete] at none
          simp [complete, Nat.le_zero.mp none]
        · rw [beq_eq_false_iff_ne.mpr complete]
          exact once before between [] (by rw [same, List.append_nil]) free.1

theorem atMostOnce_nil : AtMostOnce [] := by
  intro before between after split _
  obtain ⟨front, rfl⟩ := List.append_eq_nil_iff.mp split.symm
  obtain ⟨rfl, rfl⟩ := List.append_eq_nil_iff.mp front
  exact Nat.zero_le _

theorem AtMostOnce.of_append (once : AtMostOnce (log ++ events)) : AtMostOnce log :=
  fun before between after split free =>
    once before between (after ++ events) (by rw [split, List.append_assoc]) free

/-- Only the events that count decide. -/
theorem sinceReset_filter (log : List Event) :
    sinceReset (log.filter announces) = sinceReset log := by
  induction log using List.reverseRecOn with
  | nil => rfl
  | append_singleton log e ih =>
    rw [List.filter_append, sinceReset_concat]
    cases loud : announces e with
    | true => rw [List.filter_singleton, loud, cond_true, sinceReset_concat, ih]
    | false => rw [List.filter_singleton, loud, cond_false, List.append_nil, ih,
        tally_quiet loud]

theorem atMostOnce_filter (log : List Event) :
    AtMostOnce (log.filter announces) ↔ AtMostOnce log := by
  induction log using List.reverseRecOn with
  | nil => rfl
  | append_singleton log e ih =>
    rw [List.filter_append, atMostOnce_concat]
    cases loud : announces e with
    | true => rw [List.filter_singleton, loud, cond_true, atMostOnce_concat, ih, sinceReset_filter]
    | false =>
      rw [List.filter_singleton, loud, cond_false, List.append_nil, ih]
      refine (and_iff_left ?_).symm
      rintro rfl
      cases loud

end

/-! ## What the stages announce -/

/-- Whether detection is complete, and the events that count. -/
def announced (d : Det) : Bool × List Event :=
  (d.flow.flags.detectionComplete, d.log.filter announces)

/-- Completion is announced at most once, and it is announced when it happens. -/
structure Sound (d : Det) : Prop where
  once : AtMostOnce d.log
  told : sinceReset d.log = if d.flow.flags.detectionComplete then 1 else 0

section
variable {s : Services} {d d' : Det}

theorem announced_of_standing (same : d'.standing = d.standing) : announced d' = announced d := by
  obtain ⟨flow, log⟩ := Prod.mk.inj same
  have outward : ∀ log : List Event,
      (log.filter Event.outward).filter announces = log.filter announces := by
    intro log
    rw [List.filter_filter]
    apply List.filter_congr
    intro e _
    cases e <;> rfl
  have complete := congrArg Standing.complete flow
  simp only [Flow.standing] at complete
  simp only [announced, complete, ← outward d'.log, ← outward d.log, log]

theorem Sound.of_announced (sound : Sound d) (same : announced d' = announced d) : Sound d' := by
  obtain ⟨complete, log⟩ := Prod.mk.inj same
  refine ⟨?_, ?_⟩
  · rw [← atMostOnce_filter, log, atMostOnce_filter]
    exact sound.once
  · rw [← sinceReset_filter, log, sinceReset_filter, complete]
    exact sound.told

/-- What is logged on top decides with the flow as it was. -/
theorem once_of_announced {c : Bool} {events : List Event}
    (told : announced d' = (c, (announced d).2 ++ events)) :
    (AtMostOnce d'.log ↔ AtMostOnce (d.log.filter announces ++ events)) ∧
      sinceReset d'.log = events.foldl tally (sinceReset d.log) := by
  obtain ⟨_, log⟩ := Prod.mk.inj told
  refine ⟨?_, ?_⟩
  · rw [← atMostOnce_filter, log]
    exact Iff.rfl
  · rw [← sinceReset_filter, log, sinceReset, List.foldl_append, ← sinceReset,
      announced, sinceReset_filter]

/-- Completion is announced when it happens. -/
theorem Sound.completed (sound : Sound d) (pending : d.flow.flags.detectionComplete = false)
    (told : announced d' = (true, (announced d).2 ++ [.broadcast .dpiComplete])) : Sound d' := by
  obtain ⟨once, since⟩ := once_of_announced told
  have none : sinceReset d.log = 0 := by simpa [pending] using sound.told
  have complete : d'.flow.flags.detectionComplete = true := congrArg Prod.fst told
  refine ⟨?_, ?_⟩
  · rw [once, atMostOnce_concat, atMostOnce_filter, sinceReset_filter]
    exact ⟨sound.once, fun _ => none⟩
  · rw [since, none, complete]
    rfl

/-- Other announcements do not count. -/
theorem Sound.updated (sound : Sound d) {event : ProcessorEvent} (other : event ≠ .dpiComplete)
    (told : announced d' = ((announced d).1, (announced d).2 ++ [.broadcast event])) :
    Sound d' := by
  obtain ⟨once, since⟩ := once_of_announced told
  have complete : d'.flow.flags.detectionComplete = d.flow.flags.detectionComplete :=
    congrArg Prod.fst told
  have same : tally (sinceReset d.log) (.broadcast event) = sinceReset d.log := by
    cases event with
    | dpiComplete => exact absurd rfl other
    | dpiNew => rfl
    | dpiUpdate => rfl
  refine ⟨?_, ?_⟩
  · rw [once, atMostOnce_concat, atMostOnce_filter]
    exact ⟨sound.once, fun complete => absurd (Event.broadcast.inj complete) other⟩
  · rw [since, complete, List.foldl_cons, List.foldl_nil, same]
    exact sound.told

/-- A completion that was announced is announced again. -/
theorem Sound.again (sound : Sound d) (done : d.flow.flags.detectionComplete = true) {c : Bool}
    {events : List Event}
    (told : announced d' = (c, (announced d).2 ++ .broadcast .dpiComplete :: events)) :
    ¬ AtMostOnce d'.log := by
  obtain ⟨once, _⟩ := once_of_announced told
  rw [once, List.append_cons]
  intro more
  have none := (atMostOnce_concat.mp more.of_append).2 rfl
  rw [sinceReset_filter, sound.told, done] at none
  cases none

theorem announced_hashes : announced (ProcessFlow.hashes s d) = announced d := by
  have plain : ∀ e : Det, ∀ flow : Flow, flow.flags = e.flow.flags →
      announced ⟨flow, e.log⟩ = announced e := by
    intro e flow same
    simp only [announced, same]
  unfold ProcessFlow.hashes
  simp only
  split
  · exact plain d _ rfl
  · split
    · split
      · split
        · simp [announced, announces]
        · exact plain d _ rfl
      · split
        · rfl
        · rfl
    · exact plain d _ rfl

theorem announced_processFlow (done : processFlow s d = .ok d') : announced d' = announced d := by
  unfold processFlow enter at done
  split at done
  · cases done
    have before := announced_of_standing (ProcessFlow.stands_hashed (s := s) (d := d))
    refine Eq.trans (announced_of_standing ?_) ((announced_hashes (s := s)).trans before)
    rw [ProcessFlow.stands_finish, ProcessFlow.stands_categories, ProcessFlow.stands_endpoints]
  · cases done

/-! ## `FlowUpdate` and `SetDetectionComplete` -/

theorem announced_note (event : ProcessorEvent) : announced (d.note (.broadcast event)) =
    ((announced d).1, (announced d).2 ++ [.broadcast event]) := by
  simp [announced, announces]

/-- The soft dissector that matches when `FlowUpdate` looks for one. -/
def matched (s : Services) (d : Det) : Option SoftDissector :=
  s.softDissectorMatch.bind fun m => m (FlowUpdate.categories s d).flow

theorem event_complete {flow : Flow} (complete : flow.flags.detectionComplete = true) :
    FlowUpdate.event flow = .dpiComplete := if_pos complete

theorem event_pending {flow : Flow} (pending : flow.flags.detectionComplete = false) :
    FlowUpdate.event flow ≠ .dpiComplete := by
  unfold FlowUpdate.event
  rw [pending]
  split
  · cases ‹_›
  · split <;> simp

/-- `FlowUpdate` on a flow that is complete announces completion. -/
theorem body_complete (done : d.flow.flags.detectionComplete = true)
    (ran : FlowUpdate.body s .ok d = .ok d') :
    announced d' = (true, (announced d).2 ++ [.broadcast .dpiComplete]) := by
  obtain ⟨e, dissected, noted⟩ := bind_ok (enter_ok ran)
  cases noted
  have same : announced e = announced d := by
    have categories := announced_of_standing (FlowUpdate.stands_categories (s := s) (d := d))
    unfold FlowUpdate.softDissect at dissected
    split at dissected
    · cases dissected
      exact (announced_of_standing (FlowUpdate.stands_override _)).trans categories
    · cases dissected
      exact categories
  have complete : e.flow.flags.detectionComplete = true := (congrArg Prod.fst same).trans done
  rw [announced_note, event_complete complete, same]
  exact congrArg (·, _) done

/-- So does `SetDetectionComplete`, while detection is not complete. -/
theorem setDetectionComplete_announced (pending : d.flow.flags.detectionComplete = false)
    (ran : setDetectionComplete s d = .ok d') :
    announced d' = (true, (announced d).2 ++ [.broadcast .dpiComplete]) := by
  simp only [setDetectionComplete, pending, Bool.false_eq_true, if_false] at ran
  obtain ⟨e, checked, updated⟩ := bind_ok ran
  have marked : announced d.markComplete = (true, (announced d).2) := by
    simp [announced, Det.markComplete, announces]
  have same : announced e = (true, (announced d).2) := by
    split at checked
    · cases checked
      exact marked
    · exact (announced_of_standing (stands_processRisks checked)).trans marked
  have told := body_complete (congrArg Prod.fst same) updated
  rw [told, same]

/-- `FlowUpdate` while detection is not complete: without a matching soft
dissector it announces something else, with one it announces completion twice. -/
theorem flowUpdate_announced (pending : d.flow.flags.detectionComplete = false)
    (ran : flowUpdate s d = .ok d') :
    match matched s d with
    | none => ∃ event, event ≠ .dpiComplete ∧
        announced d' = ((announced d).1, (announced d).2 ++ [.broadcast event])
    | some _ => announced d' =
        (true, (announced d).2 ++ [.broadcast .dpiComplete, .broadcast .dpiComplete]) := by
  have ran : FlowUpdate.body s (setDetectionComplete s) d = .ok d' := ran
  obtain ⟨e, dissected, noted⟩ := bind_ok (enter_ok ran)
  cases noted
  have categories := announced_of_standing (FlowUpdate.stands_categories (s := s) (d := d))
  unfold FlowUpdate.softDissect at dissected
  unfold matched
  cases found : s.softDissectorMatch.bind fun m => m (FlowUpdate.categories s d).flow with
  | none =>
    simp only [found] at dissected
    cases dissected
    have same : (FlowUpdate.categories s d).flow.flags.detectionComplete = false :=
      (congrArg Prod.fst categories).trans pending
    exact ⟨_, event_pending same, by rw [announced_note, categories]⟩
  | some nsd =>
    simp only [found] at dissected
    have overridden : announced (FlowUpdate.override s nsd (FlowUpdate.categories s d)) =
        announced d := (announced_of_standing (FlowUpdate.stands_override nsd)).trans categories
    have told := setDetectionComplete_announced ((congrArg Prod.fst overridden).trans pending)
      dissected
    rw [overridden] at told
    have complete : e.flow.flags.detectionComplete = true := congrArg Prod.fst told
    rw [announced_note, event_complete complete, told]
    simp

/-! ## Stages of `ProcessPacket` -/

theorem announced_edit {f : Flow → Flow}
    (same : (f d.flow).flags.detectionComplete = d.flow.flags.detectionComplete) :
    announced (d.edit f) = announced d := by
  simp [announced, same]

theorem announced_update {step : Det → Det × Bool}
    (same : ∀ d, announced (step d).1 = announced d) (x : Det × Bool) :
    announced (update step x).1 = announced x.1 := by
  unfold update
  simp only
  split
  · exact (announced_edit rfl).trans (same x.1)
  · exact same x.1

theorem announced_processAlpn (alpn : List UInt8) (client : Bool) :
    announced (processAlpn s alpn client d).1 = announced d := by
  unfold processAlpn
  split
  · exact announced_edit rfl
  · split
    · rfl
    · simp only
      split
      · split
        · exact announced_edit rfl
        · refine (announced_edit rfl).trans ?_
          exact (announced_of_standing (stands_setProtocol _)).trans (announced_edit rfl)
      · exact announced_edit rfl

theorem announced_alpns (x : Det × Bool) :
    announced (negotiatedAlpn s (advertisedAlpns s x)).1 = announced x.1 := by
  have advertised : announced (advertisedAlpns s x).1 = announced x.1 := by
    unfold advertisedAlpns
    split
    · exact (announced_edit rfl).trans (announced_processAlpn _ _)
    · rfl
  refine Eq.trans ?_ advertised
  unfold negotiatedAlpn
  split
  · exact (announced_edit rfl).trans (announced_processAlpn _ _)
  · rfl

theorem announced_updates : announced (updates s d).1 = announced d := by
  have cleared : announced (setUpdated false d) = announced d := announced_edit rfl
  unfold updates
  simp only
  split
  · refine Eq.trans ?_ cleared
    unfold tlsUpdates
    simp only
    rw [announced_alpns,
      announced_update fun _ => announced_of_standing stands_certFingerprint,
      announced_update fun _ => announced_of_standing stands_serverJa3,
      announced_update fun _ => announced_of_standing stands_storeSubjectDn,
      announced_update fun _ => announced_of_standing stands_storeIssuerDn,
      announced_update fun _ => announced_of_standing stands_serverCn,
      announced_update fun _ => announced_of_standing stands_cipherSuite]
  · split
    · unfold mdnsUpdate
      split
      · exact (announced_edit rfl).trans cleared
      · exact cleared
    · split
      · unfold sshUpdate
        split
        · exact cleared
        · exact (announced_edit rfl).trans
            ((announced_of_standing (stands_store _ _ _)).trans cleared)
      · exact cleared

theorem announced_inspect {x : Det × Bool} (looked : inspect s d = .ok x) :
    announced x.1 = announced d := by
  unfold inspect at looked
  split at looked
  · obtain ⟨e, ran, same⟩ := bind_ok looked
    cases same
    exact announced_processFlow ran
  · split at looked
    · cases looked
      exact announced_updates
    · cases looked
      rfl

/-- The flow as `ProcessPacket` looks at it: handed over, its protocol mapped. -/
def handed (s : Services) (packet : Option Nat) (a : Answer) (d : Det) : Det :=
  mapProtocol s ndpiProtocolStun a (handOver packet a (allocate d))

theorem announced_handed (packet : Option Nat) (a : Answer) :
    announced (handed s packet a d) = announced d := by
  apply announced_of_standing
  exact (stands_mapProtocol _ _).trans ((stands_handOver _ _).trans stands_allocate)

end

end NetifyAgent.Announcements
