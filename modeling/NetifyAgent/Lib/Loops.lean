import Mathlib.Computability.StateTransition
import Mathlib.Data.Fintype.Card
import Mathlib.Order.WellFounded

/-! When a loop ends. The loop is a partial step function, whose `none` is the
exit. `StateTransition.eval` is defined where it ends; a loop that can only be in
finitely many states ends exactly when it never comes back to one. -/
namespace NetifyAgent.Loops
open StateTransition Relation

section
variable {σ : Type*} {next : σ → Option σ}

theorem ends_at {s : σ} (exit : next s = none) : (eval next s).Dom :=
  Part.dom_iff_mem.mpr ⟨s, mem_eval.mpr ⟨.refl, exit⟩⟩

/-- A loop ends if it ends after the next iteration. -/
theorem ends_iff_next {s t : σ} (taken : next s = some t) :
    (eval next s).Dom ↔ (eval next t).Dom := by
  rw [reaches_eval (ReflTransGen.single (Option.mem_def.mpr taken))]

/-- A loop ends where every iteration that may follow does. -/
theorem ends_of_next {s : σ} (later : ∀ t, next s = some t → (eval next t).Dom) :
    (eval next s).Dom := by
  cases taken : next s with
  | none => exact ends_at taken
  | some t => exact (ends_iff_next taken).mpr (later t taken)

/-- A loop ends if a measure goes down while an invariant holds. -/
theorem ends_of_measure (I : σ → Prop) (measure : σ → Nat)
    (down : ∀ s t, I s → next s = some t → I t ∧ measure t < measure s) (s : σ) (start : I s) :
    (eval next s).Dom := by
  induction bound : measure s using Nat.strong_induction_on generalizing s with
  | _ bound ih =>
    subst bound
    refine ends_of_next fun t taken => ?_
    obtain ⟨kept, less⟩ := down s t start taken
    exact ih (measure t) less t kept rfl

/-- A loop that ends never comes back to a state. -/
theorem no_return_of_ends {s : σ} (ends : (eval next s).Dom) {t : σ} (reached : Reaches next s t) :
    ¬ Reaches₁ next t t := by
  rw [reaches_eval reached] at ends
  obtain ⟨last, ended⟩ := Part.dom_iff_mem.mp ends
  intro back
  refine evalInduction (C := fun t => ¬ Reaches₁ next t t) ended (fun t _ ih back => ?_) back
  obtain ⟨u, taken, rest⟩ := TransGen.head'_iff.mp back
  exact ih u taken (TransGen.tail' rest taken)

/-- A loop with finitely many states ends if it never comes back to one. -/
theorem ends_of_no_return {s : σ} (finite : {t | Reaches next s t}.Finite)
    (fresh : ∀ t, Reaches next s t → ¬ Reaches₁ next t t) : (eval next s).Dom := by
  have := finite.to_subtype
  let later (b a : {t | Reaches next s t}) : Prop := Reaches₁ next a.1 b.1
  have : IsTrans _ later := ⟨fun _ _ _ first second => TransGen.trans second first⟩
  have : Std.Irrefl later := ⟨fun a => fresh a.1 a.2⟩
  have wf := Finite.wellFounded_of_trans_of_irrefl later
  have ends : ∀ a : {t | Reaches next s t}, (eval next a.1).Dom := by
    intro a
    induction a using wf.induction with
    | _ a ih =>
      refine ends_of_next fun t taken => ?_
      exact ih ⟨t, ReflTransGen.tail a.2 taken⟩ (TransGen.single taken)
  exact ends ⟨s, .refl⟩

/-- **Endless loops.** A loop with finitely many states ends exactly when it
never comes back to one. -/
theorem ends_iff_no_return {s : σ} (finite : {t | Reaches next s t}.Finite) :
    (eval next s).Dom ↔ ∀ t, Reaches next s t → ¬ Reaches₁ next t t :=
  ⟨fun ends _ reached => no_return_of_ends ends reached, ends_of_no_return finite⟩

end

end NetifyAgent.Loops
