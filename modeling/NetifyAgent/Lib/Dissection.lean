import Mathlib.Data.List.Basic
import Mathlib.Data.List.Count

/-! Programs that walk over untrusted input. A dissection ends with a value,
returns early or never returns, and it leaves behind the log of everything it
did on the way: the offsets it read, the counters it bumped, the fields it
assigned. It depends on nothing but its arguments, so two runs on the same
input have the same log. Loops take fuel, and a stable family of dissections
gives the same answer for every amount of fuel that is enough. -/
namespace NetifyAgent.Dissection

/-- How a dissection ends. -/
inductive Outcome (α : Type) where
  /-- It produced a value. -/
  | ok (value : α)
  /-- It returned early. -/
  | left
  /-- The fuel of one of its loops ran out. -/
  | spun
  deriving DecidableEq, Repr

/-- A finished dissection: how it ended and what it did. -/
@[ext] structure Dissect (ω α : Type) where
  outcome : Outcome α
  log : List ω
  deriving DecidableEq, Repr

variable {ω α β : Type}

/-- Runs the rest of a program after a first part. -/
def Dissect.andThen (x : Dissect ω α) (f : α → Dissect ω β) : Dissect ω β :=
  match x.outcome with
  | .ok a => ⟨(f a).outcome, x.log ++ (f a).log⟩
  | .left => ⟨.left, x.log⟩
  | .spun => ⟨.spun, x.log⟩

instance : Monad (Dissect ω) where
  pure a := ⟨.ok a, []⟩
  bind := Dissect.andThen

/-- Records one action. -/
def emit (w : ω) : Dissect ω Unit := ⟨.ok (), [w]⟩

/-- Records several actions. -/
def emits (ws : List ω) : Dissect ω Unit := ⟨.ok (), ws⟩

/-- Returns to the caller without a value. -/
def leave : Dissect ω α := ⟨.left, []⟩

/-- Marks a loop whose fuel ran out. -/
def spin : Dissect ω α := ⟨.spun, []⟩

@[simp] theorem pure_outcome (a : α) : (pure a : Dissect ω α).outcome = .ok a := rfl
@[simp] theorem pure_log (a : α) : (pure a : Dissect ω α).log = [] := rfl
@[simp] theorem emit_outcome (w : ω) : (emit w).outcome = .ok () := rfl
@[simp] theorem emit_log (w : ω) : (emit w).log = [w] := rfl
@[simp] theorem emits_outcome (ws : List ω) : (emits ws).outcome = .ok () := rfl
@[simp] theorem emits_log (ws : List ω) : (emits ws).log = ws := rfl
@[simp] theorem leave_outcome : (leave : Dissect ω α).outcome = .left := rfl
@[simp] theorem leave_log : (leave : Dissect ω α).log = [] := rfl
@[simp] theorem spin_outcome : (spin : Dissect ω α).outcome = .spun := rfl
@[simp] theorem spin_log : (spin : Dissect ω α).log = [] := rfl

theorem bind_of_ok {x : Dissect ω α} {a : α} (f : α → Dissect ω β)
    (h : x.outcome = .ok a) : x >>= f = ⟨(f a).outcome, x.log ++ (f a).log⟩ := by
  show x.andThen f = _
  simp only [Dissect.andThen, h]

theorem bind_of_left {x : Dissect ω α} (f : α → Dissect ω β) (h : x.outcome = .left) :
    x >>= f = ⟨.left, x.log⟩ := by
  show x.andThen f = _
  simp only [Dissect.andThen, h]

theorem bind_of_spun {x : Dissect ω α} (f : α → Dissect ω β) (h : x.outcome = .spun) :
    x >>= f = ⟨.spun, x.log⟩ := by
  show x.andThen f = _
  simp only [Dissect.andThen, h]

@[simp] theorem emit_bind (w : ω) (f : Unit → Dissect ω β) :
    emit w >>= f = ⟨(f ()).outcome, w :: (f ()).log⟩ := rfl

@[simp] theorem emits_bind (ws : List ω) (f : Unit → Dissect ω β) :
    emits ws >>= f = ⟨(f ()).outcome, ws ++ (f ()).log⟩ := rfl

@[simp] theorem leave_bind (f : α → Dissect ω β) : leave >>= f = leave := rfl
@[simp] theorem spin_bind (f : α → Dissect ω β) : spin >>= f = spin := rfl

private theorem id_andThen (x : Dissect ω α) : x.andThen (fun a => pure a) = x := by
  obtain ⟨outcome, log⟩ := x
  cases outcome <;> simp [Dissect.andThen]

private theorem andThen_assoc {γ : Type} (x : Dissect ω α) (f : α → Dissect ω β)
    (g : β → Dissect ω γ) :
    (x.andThen f).andThen g = x.andThen fun a => (f a).andThen g := by
  obtain ⟨outcome, log⟩ := x
  cases outcome with
  | ok a =>
    simp only [Dissect.andThen]
    cases step : (f a).outcome <;> simp
  | left => rfl
  | spun => rfl

instance : LawfulMonad (Dissect ω) := LawfulMonad.mk' _
  id_andThen
  (fun _ f => (bind_of_ok f rfl).trans (by simp))
  andThen_assoc

/-- A program ends with a value exactly when both of its parts do. -/
theorem bind_ok_iff {x : Dissect ω α} {f : α → Dissect ω β} {b : β} :
    (x >>= f).outcome = .ok b ↔ ∃ a, x.outcome = .ok a ∧ (f a).outcome = .ok b := by
  cases h : x.outcome with
  | ok a => simp [bind_of_ok f h]
  | left => simp [bind_of_left f h]
  | spun => simp [bind_of_spun f h]

theorem bind_spun_iff {x : Dissect ω α} {f : α → Dissect ω β} :
    (x >>= f).outcome = .spun ↔
      x.outcome = .spun ∨ ∃ a, x.outcome = .ok a ∧ (f a).outcome = .spun := by
  cases h : x.outcome with
  | ok a => simp [bind_of_ok f h]
  | left => simp [bind_of_left f h]
  | spun => simp [bind_of_spun f h]

theorem mem_bind_log {x : Dissect ω α} {f : α → Dissect ω β} {w : ω} :
    w ∈ (x >>= f).log ↔ w ∈ x.log ∨ ∃ a, x.outcome = .ok a ∧ w ∈ (f a).log := by
  cases h : x.outcome with
  | ok a => simp [bind_of_ok f h]
  | left => simp [bind_of_left f h]
  | spun => simp [bind_of_spun f h]

/-! ## Properties of everything a program did -/

/-- Every logged action has the property. -/
def Every (P : ω → Prop) (x : Dissect ω α) : Prop := ∀ w ∈ x.log, P w

variable {P : ω → Prop} {x : Dissect ω α} {f : α → Dissect ω β}

@[simp] theorem every_pure (a : α) : Every P (pure a : Dissect ω α) := by simp [Every]
@[simp] theorem every_emit (w : ω) : Every P (emit w) ↔ P w := by simp [Every]
@[simp] theorem every_leave : Every P (leave : Dissect ω α) := by simp [Every]
@[simp] theorem every_spin : Every P (spin : Dissect ω α) := by simp [Every]

theorem every_bind :
    Every P (x >>= f) ↔ Every P x ∧ ∀ a, x.outcome = .ok a → Every P (f a) := by
  simp only [Every, mem_bind_log, or_imp, forall_and]
  exact and_congr_right fun _ =>
    ⟨fun h a ha w hw => h w ⟨a, ha, hw⟩, fun h w ⟨a, ha, hw⟩ => h a ha w hw⟩

theorem every_of_bind (first : Every P x) (rest : ∀ a, Every P (f a)) : Every P (x >>= f) :=
  every_bind.mpr ⟨first, fun a _ => rest a⟩

theorem Every.mono {Q : ω → Prop} (weaker : ∀ w, P w → Q w) (every : Every P x) : Every Q x :=
  fun w logged => weaker w (every w logged)

/-- How often an action with the property was logged. -/
def tally (p : ω → Bool) (x : Dissect ω α) : Nat := x.log.countP p

variable {p : ω → Bool}

@[simp] theorem tally_pure (a : α) : tally p (pure a : Dissect ω α) = 0 := rfl
@[simp] theorem tally_leave : tally p (leave : Dissect ω α) = 0 := rfl
@[simp] theorem tally_spin : tally p (spin : Dissect ω α) = 0 := rfl
@[simp] theorem tally_emit (w : ω) : tally p (emit w) = if p w then 1 else 0 := by
  simp [tally, List.countP_cons]

theorem tally_bind_of_ok {a : α} (h : x.outcome = .ok a) :
    tally p (x >>= f) = tally p x + tally p (f a) := by
  simp [tally, bind_of_ok f h, List.countP_append]

theorem tally_bind_of_left (h : x.outcome = .left) : tally p (x >>= f) = tally p x := by
  simp [tally, bind_of_left f h]

theorem tally_eq_zero : tally p x = 0 ↔ Every (fun w => p w = false) x := by
  simp [tally, Every, List.countP_eq_zero]

/-- One for an early return. -/
def Outcome.returns : Outcome α → Nat
  | .left => 1
  | _ => 0

/-- An action with the property is logged once for an early return, and never
otherwise. -/
def MarksReturn (p : ω → Bool) (x : Dissect ω α) : Prop := tally p x = x.outcome.returns

theorem marksReturn_pure (a : α) : MarksReturn p (pure a : Dissect ω α) := rfl

theorem marksReturn_spin : MarksReturn p (spin : Dissect ω α) := rfl

theorem marksReturn_emits {ws : List ω} (unmarked : ∀ w ∈ ws, p w = false) :
    MarksReturn p (emits ws) := tally_eq_zero.mpr unmarked

theorem marksReturn_emit {w : ω} (unmarked : p w = false) : MarksReturn p (emit w) := by
  simp [MarksReturn, unmarked, Outcome.returns]

theorem marksReturn_bind (first : MarksReturn p x) (rest : ∀ a, MarksReturn p (f a)) :
    MarksReturn p (x >>= f) := by
  unfold MarksReturn at first ⊢
  cases h : x.outcome with
  | ok a =>
    rw [tally_bind_of_ok h, first, h, rest a, bind_of_ok f h]
    simp [Outcome.returns]
  | left =>
    rw [tally_bind_of_left h, first, h, bind_of_left f h]
    rfl
  | spun =>
    rw [bind_of_spun f h]
    rw [h] at first
    exact first

/-! ## Fuel -/

/-- More fuel never changes an answer. -/
def Stable (F : Nat → Dissect ω α) : Prop :=
  ∀ n m, n ≤ m → (F n).outcome ≠ .spun → F m = F n

theorem stable_of_step {F : Nat → Dissect ω α}
    (h : ∀ n, (F n).outcome ≠ .spun → F (n + 1) = F n) : Stable F := by
  intro n m le settled
  induction le with
  | refl => rfl
  | @step m _ ih => rw [h m (by rwa [ih]), ih]

theorem stable_const (x : Dissect ω α) : Stable fun _ => x := fun _ _ _ _ => rfl

/-- Sequencing preserves stability: the first part settles before the rest is
asked for anything. -/
theorem stable_bind {F : Nat → Dissect ω α} {G : Nat → α → Dissect ω β}
    (first : Stable F) (rest : ∀ a, Stable fun n => G n a) :
    Stable fun n => F n >>= G n := by
  intro n m le settled
  simp only [ne_eq, bind_spun_iff, not_or, not_exists, not_and] at settled
  show F m >>= G m = F n >>= G n
  rw [first n m le settled.1]
  cases h : (F n).outcome with
  | ok a =>
    have same : G m a = G n a := rest a n m le (settled.2 a h)
    rw [bind_of_ok _ h, bind_of_ok _ h, same]
  | left => rw [bind_of_left _ h, bind_of_left _ h]
  | spun => exact absurd h settled.1

/-- A stable family has at most one answer. -/
theorem stable_unique {F : Nat → Dissect ω α} (stable : Stable F) {n m : Nat}
    (hn : (F n).outcome ≠ .spun) (hm : (F m).outcome ≠ .spun) : F n = F m := by
  rcases Nat.le_total n m with le | le
  · exact (stable n m le hn).symm
  · exact stable m n le hm

/-! ## Two programs side by side -/

/-- Two programs end alike, with related values. -/
inductive Outcome.Related (R : α → β → Prop) : Outcome α → Outcome β → Prop where
  | ok {a : α} {b : β} (related : R a b) : Related R (.ok a) (.ok b)
  | left : Related R .left .left
  | spun : Related R .spun .spun

/-- Two programs do the same as far as a view shows, and end alike. -/
structure Alike {ν : Type} (view : ω → Option ν) (R : α → β → Prop) (x : Dissect ω α)
    (y : Dissect ω β) : Prop where
  log : x.log.filterMap view = y.log.filterMap view
  outcome : x.outcome.Related R y.outcome

section
variable {ν γ δ : Type} {view : ω → Option ν} {R : α → β → Prop} {S : γ → δ → Prop}
  {x : Dissect ω α} {y : Dissect ω β}

theorem alike_pure {a : α} {b : β} (related : R a b) :
    Alike view R (pure a : Dissect ω α) (pure b) := ⟨rfl, .ok related⟩

theorem alike_spin : Alike view R (spin : Dissect ω α) (spin : Dissect ω β) := ⟨rfl, .spun⟩

theorem alike_emits {ws ws' : List ω} (same : ws.filterMap view = ws'.filterMap view) :
    Alike view (fun _ _ => True) (emits ws) (emits ws') := ⟨same, .ok trivial⟩

theorem alike_emit {w w' : ω} (same : view w = view w') :
    Alike view (fun _ _ => True) (emit w) (emit w') :=
  ⟨by simp only [emit_log, List.filterMap_cons, same], .ok trivial⟩

theorem alike_ite {c : Prop} [Decidable c] {x' : Dissect ω α} {y' : Dissect ω β}
    (holds : c → Alike view R x y) (fails : ¬ c → Alike view R x' y') :
    Alike view R (if c then x else x') (if c then y else y') := by
  split
  · exact holds ‹_›
  · exact fails ‹_›

theorem Alike.spun_iff (alike : Alike view R x y) :
    y.outcome = .spun ↔ x.outcome = .spun := by
  obtain ⟨_, outcome⟩ := alike
  generalize x.outcome = first at outcome
  generalize y.outcome = second at outcome
  cases outcome <;> simp

/-- Programs like a third one are alike. -/
theorem Alike.opposite {z : Dissect ω γ} {T : α → γ → Prop} (first : Alike view R x y)
    (second : Alike view T x z) : Alike view (fun _ _ => True) y z := by
  obtain ⟨log, outcome⟩ := first
  obtain ⟨log', outcome'⟩ := second
  refine ⟨log.symm.trans log', ?_⟩
  generalize x.outcome = ends at outcome outcome'
  generalize y.outcome = ends₁ at outcome ⊢
  generalize z.outcome = ends₂ at outcome' ⊢
  cases outcome with
  | ok related =>
    cases outcome'
    exact .ok trivial
  | left =>
    cases outcome'
    exact .left
  | spun =>
    cases outcome'
    exact .spun

/-- Programs that start alike and go on alike from there are alike. -/
theorem alike_bind {f : α → Dissect ω γ} {g : β → Dissect ω δ} (first : Alike view R x y)
    (rest : ∀ a b, x.outcome = .ok a → R a b → Alike view S (f a) (g b)) :
    Alike view S (x >>= f) (y >>= g) := by
  obtain ⟨xo, xl⟩ := x
  obtain ⟨yo, yl⟩ := y
  obtain ⟨log, outcome⟩ := first
  simp only at log outcome
  cases outcome with
  | @ok a b related =>
    obtain ⟨more, ends⟩ := rest a b rfl related
    rw [bind_of_ok _ rfl, bind_of_ok _ rfl]
    exact ⟨by simp only [List.filterMap_append, log, more], ends⟩
  | left =>
    rw [bind_of_left _ rfl, bind_of_left _ rfl]
    exact ⟨log, .left⟩
  | spun =>
    rw [bind_of_spun _ rfl, bind_of_spun _ rfl]
    exact ⟨log, .spun⟩

end

end NetifyAgent.Dissection
