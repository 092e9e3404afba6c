import NetifyAgent.FlowExprRules

/-! `!=` against `==`. Most attributes have one comparison and its negation. Of
the others, `category` compares three categories both times with "or", a regular
expression is never searched for, and without the connection tracker both
comparisons of `fwmark` are false. -/
namespace NetifyAgent

/-- One parse returns the negation of what the other returns. -/
def Contrary (equal notEqual : Except ParseStop Bool) : Prop :=
  ∃ b, equal = .ok b ∧ notEqual = .ok !b

/-- Where `!=` is the negation of `==`. -/
def NegationHolds (s : ExprServices) (flow : ExprFlow) : FlowAttr → FlowValue → Prop
  | .category, .name text =>
    let id := s.lookupApp (unquote s text)
    (id = flow.category.application ↔ id = flow.category.domain) ∧
      (id = flow.category.domain ↔ id = flow.categoryNetwork)
  | .detectedHostname, .regex _ => textOf flow.hostServerName = [] ∨ ¬ s.workingRegex
  | .ctMark, _ => s.conntrackMdata
  | _, _ => True

/-- What `Parse` returns after an action. -/
def ExprAction.outcome : ExprAction → Except ParseStop Bool
  | .both b | .resultOnly b => .ok b
  | .endless => .error .endless

section
variable {s : ExprServices} {flow : ExprFlow} {view : ExprView}

/-- A text that is a single test. -/
theorem parse_test (known : exprView s flow = some view) {attr : FlowAttr} {test : ExprTest}
    {action : ExprAction} (rule : exprAttr s view attr test = some action) {expr : List Char}
    (tokens : exprTokens expr = test.tokens attr ++ [.semicolon]) (yylval : Bool) :
    ndFlowParser.parse s yylval flow expr = action.outcome := by
  have accepted : (FlowExpr.atom attr test).Accepted (exprAttr s view) := by
    refine ⟨Option.isSome_iff_exists.mpr ⟨action, rule⟩, fun op v compared => ?_⟩
    subst compared
    exact exprAttr_takes s view (Option.isSome_iff_exists.mpr ⟨action, rule⟩)
  have room : 1 + (FlowExpr.atom attr test).need ≤ maxSymbols := by
    cases test <;> simp [FlowExpr.need, ExprTest.tokens, maxSymbols]
  rw [parse_tokens known (e := .atom attr test) trivial accepted tokens, FlowExpr.evalOn_room _ room]
  simp only [FlowExpr.eval, ExprTest.eval, rule]
  cases action <;> rfl

/-- Where the rules are opposite, the two parses are. -/
theorem contrary_of_negates (known : exprView s flow = some view) {attr : FlowAttr}
    {v : FlowValue} {equal notEqual : List Char}
    (equalTokens : exprTokens equal = ExprTest.tokens attr (.compare .equal v) ++ [.semicolon])
    (notEqualTokens :
      exprTokens notEqual = ExprTest.tokens attr (.compare .notEqual v) ++ [.semicolon])
    {b : Bool} (rule : exprAttr s view attr (.compare .equal v) = some (.both b))
    (other : exprAttr s view attr (.compare .notEqual v) = some (.both !b))
    (yylval yylval' : Bool) :
    Contrary (ndFlowParser.parse s yylval flow equal)
      (ndFlowParser.parse s yylval' flow notEqual) :=
  ⟨b, parse_test known rule equalTokens yylval, parse_test known other notEqualTokens yylval'⟩

theorem contrary_ok {b c : Bool} : Contrary (.ok b) (.ok c) ↔ c = !b := by
  constructor
  · rintro ⟨_, first, second⟩
    cases first
    exact Except.ok.inj second
  · rintro rfl
    exact ⟨b, rfl, rfl⟩

/-- Every regular expression has the colon that the loop looks for. -/
theorem colon_of_regex {found : List Char} (accepted : FlowTokens.regex found) :
    ':' ∈ unquote s found := by
  obtain ⟨rest, rfl⟩ := FlowTokens.scheme_of_regex accepted
  have kept : ':' ∈ bufferText s ('\'' :: 'r' :: 'x' :: ':' :: rest) := by
    unfold bufferText ndfpMaxBuflen
    split <;> simp
  exact List.mem_filter.mpr ⟨kept, rfl⟩

/-- **Negation.** `attr != v;` is the negation of `attr == v;` exactly where
`NegationHolds`. -/
theorem contrary_iff (known : exprView s flow = some view) {attr : FlowAttr}
    {v : FlowValue} {equal notEqual : List Char}
    (equalTokens : exprTokens equal = [.flow attr, .cmp .equal, .value v, .semicolon])
    (notEqualTokens : exprTokens notEqual = [.flow attr, .cmp .notEqual, .value v, .semicolon])
    (allowed : (exprAttr s view attr (.compare .equal v)).isSome) (yylval yylval' : Bool) :
    Contrary (ndFlowParser.parse s yylval flow equal)
        (ndFlowParser.parse s yylval' flow notEqual) ↔
      NegationHolds s flow attr v := by
  obtain ⟨action, rule⟩ := Option.isSome_iff_exists.mp allowed
  have is := exprView_flow known
  have first := parse_test known rule equalTokens yylval
  have second {action : ExprAction}
      (rule : exprAttr s view attr (.compare .notEqual v) = some action) :=
    parse_test known rule notEqualTokens yylval'
  cases attr with
  | category =>
    cases v with
    | name text =>
      rw [first, second rfl]
      cases rule
      simp only [ExprAction.outcome, contrary_ok, NegationHolds, is]
      grind
    | _ => cases rule
  | risks =>
    cases v with
    | name text =>
      rw [first, second rfl]
      cases rule
      exact iff_of_true (contrary_ok.mpr rfl) trivial
    | _ => cases rule
  | detectedHostname =>
    cases v with
    | name text =>
      rw [first, second rfl]
      cases rule
      exact iff_of_true (contrary_ok.mpr rfl) trivial
    | regex text =>
      have mem : .value (.regex text) ∈ exprTokens equal := by simp [equalTokens]
      have colon : ':' ∈ unquote s text :=
        colon_of_regex (regex_of_mem (List.takeWhile_subset _ mem))
      have loops : (stripScheme (unquote s text)).isSome := by simp [stripScheme, colon]
      rw [first, second rfl]
      simp only [exprAttr, exprDetectedHostname, loops, if_true, is] at rule
      simp only [NegationHolds]
      split at rule
      · rename_i idle
        cases rule
        exact iff_of_true (contrary_ok.mpr rfl) idle
      · rename_i searched
        cases rule
        refine iff_of_false ?_ searched
        rintro ⟨_, returned, -⟩
        cases returned
    | _ => cases rule
  | ctMark =>
    by_cases tracked : s.conntrackMdata
    · simp only [exprAttr, exprFwmark, if_pos tracked] at rule second
      obtain ⟨b, rfl, other⟩ := exprNumber_negates s _ v action rule
      exact iff_of_true ⟨b, first, second other⟩ tracked
    · simp only [exprAttr, exprFwmark, if_neg tracked, Option.map_eq_some_iff] at rule second
      obtain ⟨number, accepted, rfl⟩ := rule
      obtain ⟨b, -, other⟩ := exprNumber_negates s _ v number accepted
      rw [first, second ⟨_, other, rfl⟩]
      exact iff_of_false (by simp [ExprAction.outcome, contrary_ok]) tracked
  | _ =>
    obtain ⟨b, rfl, other⟩ := exprAttr_negates s view (by decide) (by decide) (by decide)
      (by decide) v action rule
    exact iff_of_true ⟨b, first, second other⟩ (by cases v <;> trivial)

end

/-- A flow is of VLAN 7 or it is not. -/
theorem vlan_contrary :
    Contrary (ndFlowParser.parse sampleServices false sampleFlow "vlan_id == 7;".toList)
      (ndFlowParser.parse sampleServices true sampleFlow "vlan_id != 7;".toList) :=
  (@contrary_iff sampleServices sampleFlow _ rfl .vlanId (.number ['7']) _ _ (by decide +kernel)
    (by decide +kernel) rfl false true).mpr trivial

/-- A flow whose application is in a category and whose domain is not is both in
the category and not in it. -/
theorem category_not_contrary :
    ¬ Contrary (ndFlowParser.parse sampleServices false sampleFlow "category == 'games';".toList)
      (ndFlowParser.parse sampleServices false sampleFlow "category != 'games';".toList) := by
  have equal : ndFlowParser.parse sampleServices false sampleFlow "category == 'games';".toList =
      .ok true := by decide +kernel
  have notEqual : ndFlowParser.parse sampleServices false sampleFlow
      "category != 'games';".toList = .ok true := by decide +kernel
  rw [equal, notEqual, contrary_ok]
  exact Bool.noConfusion

end NetifyAgent
