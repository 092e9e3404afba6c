import Mathlib.Order.BoundedOrder.Lattice

/-! Chains of two operations without parentheses, over a lattice. Grouped to the
right both operations bind alike; the usual reading binds meets tighter. The two
agree for all values exactly if no join comes after a meet. -/
namespace NetifyAgent.Chains

inductive Op where
  | meet
  | join
  deriving DecidableEq, Repr

section
variable {α : Type*} [Lattice α]

/-- The value of a chain that is grouped to the right. -/
def grouped (first : α) : List (Op × α) → α
  | [] => first
  | (.meet, a) :: rest => first ⊓ grouped a rest
  | (.join, a) :: rest => first ⊔ grouped a rest

/-- The value of a chain whose meets bind tighter than its joins. -/
def tight (first : α) : List (Op × α) → α
  | [] => first
  | (.meet, a) :: rest => tight (first ⊓ a) rest
  | (.join, a) :: rest => first ⊔ tight a rest

/-- No join comes after a meet. -/
def JoinsFirst (ops : List Op) : Prop := ops.Pairwise fun op later => op = .meet → later = .meet

instance (ops : List Op) : Decidable (JoinsFirst ops) :=
  inferInstanceAs (Decidable (ops.Pairwise _))

/-- A meet in front of meets. -/
theorem grouped_meet {x a : α} {rest : List (Op × α)} (meets : ∀ next ∈ rest, next.1 = .meet) :
    grouped (x ⊓ a) rest = x ⊓ grouped a rest := by
  cases rest with
  | nil => rfl
  | cons next rest =>
    obtain ⟨op, b⟩ := next
    cases meets (op, b) List.mem_cons_self
    exact inf_assoc x a _

theorem grouped_eq_tight {first : α} {rest : List (Op × α)}
    (ordered : JoinsFirst (rest.map Prod.fst)) : grouped first rest = tight first rest := by
  induction rest generalizing first with
  | nil => rfl
  | cons next rest ih =>
    obtain ⟨op, a⟩ := next
    have parts := List.pairwise_cons.mp ordered
    cases op with
    | join => exact congrArg (first ⊔ ·) (ih parts.2)
    | meet =>
      have meets : ∀ next ∈ rest, next.1 = .meet := fun next mem =>
        parts.1 next.1 (List.mem_map_of_mem mem) rfl
      exact (grouped_meet meets).symm.trans (ih parts.2)

variable [BoundedOrder α]

/-- A join of tops is the top. -/
theorem tight_top {x : α} {ops : List Op} (joined : x = ⊤ ∨ .join ∈ ops) :
    tight x (ops.map fun op => (op, ⊤)) = ⊤ := by
  induction ops generalizing x with
  | nil => simpa [tight] using joined
  | cons op ops ih =>
    cases op with
    | join => simp [tight, ih (.inl rfl)]
    | meet =>
      simp only [List.map_cons, tight, inf_top_eq]
      exact ih (by simpa using joined)

/-- **Precedence.** Grouping to the right gives every chain of these operations
its usual value exactly if no join comes after a meet. -/
theorem grouped_iff_tight [Nontrivial α] {ops : List Op} :
    (∀ (first : α) (rest : List (Op × α)), rest.map Prod.fst = ops →
      grouped first rest = tight first rest) ↔ JoinsFirst ops := by
  refine ⟨fun agree => ?_, fun ordered first rest shape => grouped_eq_tight (shape ▸ ordered)⟩
  induction ops with
  | nil => exact List.Pairwise.nil
  | cons op ops ih =>
    cases op with
    | join =>
      refine List.pairwise_cons.mpr ⟨fun _ _ meet => (by cases meet), ih fun first rest shape => ?_⟩
      -- The bottom in front of a join leaves the rest of the chain.
      simpa [grouped, tight] using agree ⊥ ((.join, first) :: rest) (by simp [shape])
    | meet =>
      have meets : ∀ later ∈ ops, later = .meet := by
        intro later mem
        cases later with
        | meet => rfl
        | join =>
          have values := agree ⊥ ((.meet, ⊤) :: ops.map fun op => (op, ⊤))
            (by simp [Function.comp_def])
          simp only [grouped, tight, bot_inf_eq, tight_top (.inr mem)] at values
          exact (bot_ne_top values).elim
      refine List.pairwise_cons.mpr ⟨fun later mem _ => meets later mem, ?_⟩
      exact List.pairwise_of_forall_mem_list fun op _ later mem _ => meets later mem

end
end NetifyAgent.Chains
