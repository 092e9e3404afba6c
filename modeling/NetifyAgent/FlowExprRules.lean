import NetifyAgent.FlowGrammar

/-! What the rules of the attributes have in common, and which ones differ. All
assign the value and the result together but the comparisons of risks, and all
end but the comparison of the hostname with a regular expression. -/
namespace NetifyAgent

/-- Every rule assigns the value and the result. -/
def Assigns (rules : ExprTest → Option ExprAction) : Prop :=
  ∀ test action, rules test = some action → ∃ b, action = .both b

/-- The rules for `==` and for `!=` give opposite answers. -/
def Negates (rules : ExprTest → Option ExprAction) : Prop :=
  ∀ v, ∀ action, rules (.compare .equal v) = some action →
    ∃ b, action = .both b ∧ rules (.compare .notEqual v) = some (.both !b)

section
variable (s : ExprServices) (view : ExprView)

theorem exprNumber_assigns (n : Nat) : Assigns (exprNumber s n) := by
  intro test action rule
  cases test with
  | set => exact ⟨_, (Option.some.inj rule).symm⟩
  | unset => exact ⟨_, (Option.some.inj rule).symm⟩
  | compare op v =>
    cases v <;> first | exact ⟨_, (Option.some.inj rule).symm⟩ | cases rule

theorem exprNumber_negates (n : Nat) : Negates (exprNumber s n) := by
  intro v action rule
  cases v <;> first | exact ⟨_, (Option.some.inj rule).symm, rfl⟩ | cases rule

theorem exprFlag_assigns (flag : Bool) : Assigns (exprFlag flag) := by
  intro test action rule
  cases test with
  | set => exact ⟨_, (Option.some.inj rule).symm⟩
  | unset => exact ⟨_, (Option.some.inj rule).symm⟩
  | compare op v =>
    cases op <;> cases v <;> first | exact ⟨_, (Option.some.inj rule).symm⟩ | cases rule

theorem exprFlag_negates (flag : Bool) : Negates (exprFlag flag) := by
  intro v action rule
  cases v <;> first | exact ⟨_, (Option.some.inj rule).symm, rfl⟩ | cases rule

theorem exprEqual_assigns (equal : FlowValue → Option Bool) : Assigns (exprEqual equal) := by
  intro test action rule
  cases test with
  | set => cases rule
  | unset => cases rule
  | compare op v =>
    cases op with
    | equal =>
      obtain ⟨b, -, is⟩ := Option.map_eq_some_iff.mp rule
      exact ⟨b, is.symm⟩
    | notEqual =>
      obtain ⟨b, -, is⟩ := Option.map_eq_some_iff.mp rule
      exact ⟨!b, is.symm⟩
    | _ => cases rule

theorem exprEqual_negates (equal : FlowValue → Option Bool) : Negates (exprEqual equal) := by
  intro v action rule
  obtain ⟨b, found, is⟩ := Option.map_eq_some_iff.mp rule
  exact ⟨b, is.symm, by simp [exprEqual, found]⟩

theorem exprKnown_assigns (known : Bool) (equal : FlowValue → Option Bool) :
    Assigns (exprKnown known equal) := by
  intro test action rule
  cases test with
  | set => exact ⟨_, (Option.some.inj rule).symm⟩
  | unset => exact ⟨_, (Option.some.inj rule).symm⟩
  | compare op v => exact exprEqual_assigns equal (.compare op v) action rule

theorem exprFwmark_assigns : Assigns (exprFwmark s view) := by
  intro test action rule
  by_cases tracked : s.conntrackMdata
  · simp only [exprFwmark, if_pos tracked] at rule
    exact exprNumber_assigns s _ test action rule
  · simp only [exprFwmark, if_neg tracked, Option.map_eq_some_iff] at rule
    obtain ⟨-, -, is⟩ := rule
    exact ⟨false, is.symm⟩

theorem exprCategory_assigns : Assigns (exprCategory s view) := by
  intro test action rule
  cases test with
  | set => cases rule
  | unset => cases rule
  | compare op v =>
    cases op <;> cases v <;> first | exact ⟨_, (Option.some.inj rule).symm⟩ | cases rule

/-- A rule of its own kind: a comparison of risks, or of the hostname with a
regular expression. -/
def Irregular : FlowAttr → ExprTest → Prop
  | .risks, .compare _ _ => True
  | .detectedHostname, .compare .equal (.regex _) => True
  | _, _ => False

theorem exprRisks_assigns {test : ExprTest} {action : ExprAction}
    (rule : exprRisks s view test = some action) (regular : ¬ Irregular .risks test) :
    ∃ b, action = .both b := by
  cases test with
  | set => exact ⟨_, (Option.some.inj rule).symm⟩
  | unset => exact ⟨_, (Option.some.inj rule).symm⟩
  | compare op v => exact (regular trivial).elim

theorem exprDetectedHostname_assigns {test : ExprTest} {action : ExprAction}
    (rule : exprDetectedHostname s view test = some action)
    (regular : ¬ Irregular .detectedHostname test) : ∃ b, action = .both b := by
  cases test with
  | set => exact ⟨_, (Option.some.inj rule).symm⟩
  | unset => exact ⟨_, (Option.some.inj rule).symm⟩
  | compare op v =>
    cases op <;> cases v <;>
      first | exact ⟨_, (Option.some.inj rule).symm⟩ | cases rule | exact (regular trivial).elim

/-- All rules but the irregular ones assign the value and the result. -/
theorem exprAttr_assigns {attr : FlowAttr} {test : ExprTest} {action : ExprAction}
    (rule : exprAttr s view attr test = some action) (regular : ¬ Irregular attr test) :
    ∃ b, action = .both b := by
  cases attr with
  | risks => exact exprRisks_assigns s view rule regular
  | detectedHostname => exact exprDetectedHostname_assigns s view rule regular
  | category => exact exprCategory_assigns s view test action rule
  | ctMark => exact exprFwmark_assigns s view test action rule
  | _ =>
    first
      | exact exprNumber_assigns s _ test action rule
      | exact exprFlag_assigns _ test action rule
      | exact exprEqual_assigns _ test action rule
      | exact exprKnown_assigns _ _ test action rule

/-- A rule does not assign the value only where risks are compared. -/
theorem exprAttr_resultOnly {attr : FlowAttr} {test : ExprTest} {b : Bool}
    (rule : exprAttr s view attr test = some (.resultOnly b)) :
    attr = .risks ∧ ∃ op v, test = .compare op v := by
  by_cases irregular : Irregular attr test
  · cases test with
    | set => cases attr <;> exact irregular.elim
    | unset => cases attr <;> exact irregular.elim
    | compare op v =>
      cases attr with
      | risks => exact ⟨rfl, op, v, rfl⟩
      | detectedHostname =>
        cases op <;> cases v <;> first | cases rule | skip
        simp only [exprAttr, exprDetectedHostname] at rule
        split at rule
        · cases rule
        · split at rule <;> cases rule
      | _ => exact irregular.elim
  · obtain ⟨c, both⟩ := exprAttr_assigns s view rule irregular
    cases both

/-- The comparisons of an attribute are the ones that the parser takes. -/
theorem exprAttr_takes {attr : FlowAttr} {op : Cmp} {v : FlowValue}
    (accepted : (exprAttr s view attr (.compare op v)).isSome) : attr.takes op := by
  cases op with
  | equal => cases attr <;> rfl
  | notEqual => cases attr <;> rfl
  | _ => cases attr <;> first | rfl | (cases v <;> cases accepted)

/-- The rules for `==` and `!=` are opposite but for four attributes. -/
theorem exprAttr_negates {attr : FlowAttr} (category : attr ≠ .category) (risks : attr ≠ .risks)
    (hostname : attr ≠ .detectedHostname) (fwmark : attr ≠ .ctMark) :
    Negates (exprAttr s view attr) := by
  cases attr with
  | category => exact (category rfl).elim
  | risks => exact (risks rfl).elim
  | detectedHostname => exact (hostname rfl).elim
  | ctMark => exact (fwmark rfl).elim
  | _ =>
    first
      | exact exprNumber_negates s _
      | exact exprFlag_negates _
      | exact exprEqual_negates _

end
end NetifyAgent
