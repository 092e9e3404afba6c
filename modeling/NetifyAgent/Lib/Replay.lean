import Mathlib.Data.List.Basic

/-! Logs that determine a state. A state is replayed from a log by folding the
effects of the logged events; a property of events may depend on the state in
which they happen. -/
namespace NetifyAgent.Replay

variable {σ ε : Type} {after : σ → ε → σ} {P Q : σ → ε → Prop} {s : σ} {events : List ε}

/-- Every event has the property in the state in which it happens. -/
def Along (after : σ → ε → σ) (P : σ → ε → Prop) : σ → List ε → Prop
  | _, [] => True
  | s, e :: events => P s e ∧ Along after P (after s e) events

instance decidableAlong [∀ s e, Decidable (P s e)] :
    ∀ s events, Decidable (Along after P s events)
  | _, [] => .isTrue trivial
  | s, e :: events =>
    have := decidableAlong (after s e) events
    inferInstanceAs (Decidable (P s e ∧ Along after P (after s e) events))

theorem along_append (s : σ) (before later : List ε) :
    Along after P s (before ++ later) ↔
      Along after P s before ∧ Along after P (before.foldl after s) later := by
  induction before generalizing s with
  | nil => simp [Along]
  | cons e before ih => simp [Along, ih, and_assoc]

theorem Along.mono (weaker : ∀ s e, P s e → Q s e) (along : Along after P s events) :
    Along after Q s events := by
  induction events generalizing s with
  | nil => trivial
  | cons e events ih => exact ⟨weaker s e along.1, ih along.2⟩

theorem Along.and (first : Along after P s events) (second : Along after Q s events) :
    Along after (fun s e => P s e ∧ Q s e) s events := by
  induction events generalizing s with
  | nil => trivial
  | cons e events ih => exact ⟨⟨first.1, second.1⟩, ih first.2 second.2⟩

/-- A property that holds of an event in every state. -/
theorem along_of_forall (always : ∀ e ∈ events, ∀ s, P s e) : Along after P s events := by
  induction events generalizing s with
  | nil => trivial
  | cons e events ih =>
    exact ⟨always e List.mem_cons_self s, ih fun e later => always e (List.mem_cons_of_mem _ later)⟩

theorem Along.of_mem {e : ε} (along : Along after P s events) (member : e ∈ events) :
    ∃ t, P t e := by
  induction events generalizing s with
  | nil => cases member
  | cons head events ih =>
    rcases List.mem_cons.mp member with rfl | later
    · exact ⟨s, along.1⟩
    · exact ih along.2 later

theorem Along.of_isPrefix {before : List ε} (along : Along after P s events)
    (isPrefix : before <+: events) : Along after P s before := by
  obtain ⟨later, rfl⟩ := isPrefix
  exact ((along_append s before later).mp along).1

/-- **Replay rule.** What every event of a log keeps holds after the log. -/
theorem Along.invariant {I : σ → Prop} (keep : ∀ s e, I s → P s e → I (after s e)) (start : I s)
    (along : Along after P s events) : I (events.foldl after s) := by
  induction events generalizing s with
  | nil => exact start
  | cons e events ih => exact ih (keep s e start along.1) along.2

/-- **Exact runs.** Where an event keeps what holds exactly when it has the property, all
events of a log keep it exactly when all of them have the property. -/
theorem along_iff {I : σ → Prop} (start : I s) (each : ∀ s e, I s → (I (after s e) ↔ P s e)) :
    Along after (fun s e => I (after s e)) s events ↔ Along after P s events := by
  induction events generalizing s with
  | nil => exact Iff.rfl
  | cons e events ih =>
    constructor
    · rintro ⟨here, later⟩
      exact ⟨(each s e start).mp here, (ih here).mp later⟩
    · rintro ⟨here, later⟩
      have kept := (each s e start).mpr here
      exact ⟨kept, (ih kept).mpr later⟩

end NetifyAgent.Replay
