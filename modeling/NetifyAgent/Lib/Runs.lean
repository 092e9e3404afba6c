import Mathlib.Logic.Basic

/-! Runs of a system that takes one labelled step at a time. A step is a
partial function: it is `none` when the action is not enabled. A run may be
restricted to steps that meet a condition on the state before the step and the
action, so that a property can be proved of exactly the runs that meet it. -/
namespace NetifyAgent.Runs

variable {σ α : Type}

/-- The states reached from `start` by steps that all meet `ok`. -/
inductive Reaches (step : σ → α → Option σ) (ok : σ → α → Prop) (start : σ) : σ → Prop where
  | start : Reaches step ok start start
  | next {s t : σ} {a : α} : Reaches step ok start s → step s a = some t → ok s a →
      Reaches step ok start t

/-- The condition that every step meets. -/
def Always : σ → α → Prop := fun _ _ => True

variable {step : σ → α → Option σ} {ok ok' : σ → α → Prop} {start s t : σ}

/-- **Invariant rule.** What holds at the start and is kept by every step that
meets the condition holds in every state such runs reach. -/
theorem Reaches.invariant {I : σ → Prop} (init : I start)
    (keep : ∀ s a t, I s → step s a = some t → ok s a → I t)
    (reached : Reaches step ok start s) : I s := by
  induction reached with
  | start => exact init
  | next _ taken met ih => exact keep _ _ _ ih taken met

/-- A run that meets a condition meets every weaker one. -/
theorem Reaches.weaken (weaker : ∀ s a, ok s a → ok' s a) (reached : Reaches step ok start s) :
    Reaches step ok' start s := by
  induction reached with
  | start => exact .start
  | next _ taken met ih => exact .next ih taken (weaker _ _ met)

theorem Reaches.any (reached : Reaches step ok start s) : Reaches step Always start s :=
  reached.weaken fun _ _ _ => trivial

theorem Reaches.trans (first : Reaches step ok start s) (second : Reaches step ok s t) :
    Reaches step ok start t := by
  induction second with
  | start => exact first
  | next _ taken met ih => exact .next ih taken met

instance : DecidableRel (Always : σ → α → Prop) := fun _ _ => .isTrue trivial

/-- Executes a list of actions, each of which has to be enabled and meet the
condition. -/
def exec (step : σ → α → Option σ) (ok : σ → α → Prop) [DecidableRel ok] (start : σ) :
    List α → Option σ
  | [] => some start
  | a :: rest => if ok start a then (step start a).bind fun t => exec step ok t rest else none

/-- An executed list of actions is a run. -/
theorem reaches_of_exec [DecidableRel ok] {actions : List α}
    (done : exec step ok start actions = some t) : Reaches step ok start t := by
  induction actions generalizing start with
  | nil => cases done; exact .start
  | cons a rest ih =>
    simp only [exec] at done
    split at done
    · rename_i met
      obtain ⟨s, taken, done⟩ := Option.bind_eq_some_iff.mp done
      exact (Reaches.next .start taken met).trans (ih done)
    · cases done

/-- What is found at the end of an execution is found in a reachable state. -/
theorem reached_of_exec [DecidableRel ok] {actions : List α} {p : σ → Bool}
    (found : (exec step ok start actions).any p = true) :
    ∃ t, Reaches step ok start t ∧ p t = true := by
  obtain ⟨t, done, holds⟩ := (Option.any_eq_true p _).mp found
  exact ⟨t, reaches_of_exec done, holds⟩

/-- Every action of a list meets a condition where the list takes it. -/
def Along (step : σ → α → Option σ) (p : σ → α → Prop) (start : σ) : List α → Prop
  | [] => True
  | a :: rest => p start a ∧ ∀ t ∈ step start a, Along step p t rest

instance along_decidable (step : σ → α → Option σ) (p : σ → α → Prop) [DecidableRel p] :
    ∀ (start : σ) (actions : List α), Decidable (Along step p start actions)
  | _, [] => .isTrue trivial
  | start, a :: rest =>
    have (t : σ) : Decidable (Along step p t rest) := along_decidable step p t rest
    inferInstanceAs (Decidable (p start a ∧ ∀ t ∈ step start a, Along step p t rest))

/-- **Rule for a list of actions.** An invariant that steps under one condition
keep, and that gives another there, gives it all along. -/
theorem Along.rule {I : σ → Prop} {p : σ → α → Prop} {actions : List α} (init : I start)
    (met : Along step ok start actions)
    (each : ∀ s a, I s → ok s a → p s a ∧ ∀ t ∈ step s a, I t) : Along step p start actions := by
  induction actions generalizing start with
  | nil => trivial
  | cons a rest ih =>
    obtain ⟨here, after⟩ := each start a init met.1
    exact ⟨here, fun t taken => ih (after t taken) (met.2 t taken)⟩

end NetifyAgent.Runs
