import NetifyAgent.FlowExprNegation

/-! Expressions inside expressions. The value of an expression is on the stack
and its result in the parser. The comparisons of risks set the result alone: as
operands they have the value that the last token with a value left in `yylval`. -/
namespace NetifyAgent

/-- The operand that does not change the other one. -/
def BoolOp.neutral : BoolOp → Bool
  | .and => true
  | .or => false

theorem BoolOp.apply_left_ne {op : BoolOp} {a b c : Bool} :
    op.apply a c ≠ op.apply b c ↔ a ≠ b ∧ c = op.neutral := by
  cases op <;> cases a <;> cases b <;> cases c <;> decide

theorem BoolOp.apply_right_ne {op : BoolOp} {a b c : Bool} :
    op.apply c a ≠ op.apply c b ↔ a ≠ b ∧ c = op.neutral := by
  cases op <;> cases a <;> cases b <;> cases c <;> decide

namespace FlowExpr

section
variable (s : ExprServices) (view : ExprView)

/-- The first byte that the last value of an expression leaves in `yylval`. -/
def lastByte : FlowExpr → Option Bool
  | .atom _ (.compare _ v) => some (v.firstByte s)
  | .atom _ _ => none
  | .paren inner => inner.lastByte
  | .join head _ rest => rest.lastByte.or head.lastByte

/-- The value of an expression turns on the byte that is in `yylval` before it:
its first comparison is one of risks, and no operand on the way hides it. -/
def Turns : FlowExpr → Prop
  | .atom attr test => ∃ b, exprAttr s view attr test = some (.resultOnly b)
  | .paren inner => inner.Turns
  | .join head op rest =>
    match head.lastByte s with
    | some byte => head.Turns ∧
      ∃ x, rest.eval s (exprAttr s view) byte = .ok x ∧ x.value = op.neutral
    | none => rest.Turns ∧
      ∃ x, head.eval s (exprAttr s view) false = .ok x ∧ x.value = op.neutral

end

section
variable {s : ExprServices} {view : ExprView}

theorem ends_of_test {attr : FlowAttr} {test : ExprTest} {yylval : Bool} {x : Evaluated}
    (ends : (FlowExpr.atom attr test).eval s (exprAttr s view) yylval = .ok x) :
    (∃ b, exprAttr s view attr test = some (.both b) ∧ x = ⟨b, b, test.yylval s yylval⟩) ∨
    ∃ b, exprAttr s view attr test = some (.resultOnly b) ∧
      x = ⟨yylval, b, test.yylval s yylval⟩ := by
  simp only [eval, ExprTest.eval] at ends
  cases rule : exprAttr s view attr test with
  | none => rw [rule] at ends; cases ends
  | some action =>
    rw [rule] at ends
    cases action with
    | both b => exact .inl ⟨b, rfl, (Except.ok.inj ends).symm⟩
    | resultOnly b => exact .inr ⟨b, rfl, (Except.ok.inj ends).symm⟩
    | endless => cases ends

theorem ends_of_paren {inner : FlowExpr} {yylval : Bool} {x : Evaluated}
    (ends : inner.paren.eval s (exprAttr s view) yylval = .ok x) :
    ∃ y, inner.eval s (exprAttr s view) yylval = .ok y ∧ x = ⟨y.value, y.value, y.yylval⟩ := by
  obtain ⟨y, inside, is⟩ := ends_of_bind ends
  exact ⟨y, inside, (Except.ok.inj is).symm⟩

theorem ends_of_join {head rest : FlowExpr} {op : BoolOp} {yylval : Bool} {x : Evaluated}
    (ends : (FlowExpr.join head op rest).eval s (exprAttr s view) yylval = .ok x) :
    ∃ y z, head.eval s (exprAttr s view) yylval = .ok y ∧
      rest.eval s (exprAttr s view) y.yylval = .ok z ∧
      x = ⟨op.apply y.value z.value, op.apply y.value z.value, z.yylval⟩ := by
  obtain ⟨y, first, later⟩ := ends_of_bind ends
  obtain ⟨z, second, is⟩ := ends_of_bind later
  exact ⟨y, z, first, second, (Except.ok.inj is).symm⟩

/-- The byte behind an expression. -/
theorem yylval_of_eval {e : FlowExpr} {yylval : Bool} {x : Evaluated}
    (ends : e.eval s (exprAttr s view) yylval = .ok x) :
    x.yylval = (e.lastByte s).getD yylval := by
  induction e generalizing yylval x with
  | atom attr test =>
    rcases ends_of_test ends with ⟨b, -, rfl⟩ | ⟨b, -, rfl⟩ <;> cases test <;> rfl
  | paren inner ih =>
    obtain ⟨y, inside, rfl⟩ := ends_of_paren ends
    exact (ih inside : y.yylval = _)
  | join head op rest headIh restIh =>
    obtain ⟨y, z, first, second, rfl⟩ := ends_of_join ends
    rw [restIh second, headIh first, lastByte]
    cases rest.lastByte s <;> rfl

/-- An expression ends from every byte or from none. -/
theorem ends_again {e : FlowExpr} {yylval : Bool} {x : Evaluated}
    (ends : e.eval s (exprAttr s view) yylval = .ok x) (other : Bool) :
    ∃ x', e.eval s (exprAttr s view) other = .ok x' := by
  induction e generalizing yylval x other with
  | atom attr test =>
    simp only [eval, ExprTest.eval]
    rcases ends_of_test ends with ⟨b, rule, -⟩ | ⟨b, rule, -⟩ <;> rw [rule] <;> exact ⟨_, rfl⟩
  | paren inner ih =>
    obtain ⟨y, inside, -⟩ := ends_of_paren ends
    obtain ⟨y', inside'⟩ := ih inside other
    simp only [eval, inside']
    exact ⟨_, rfl⟩
  | join head op rest headIh restIh =>
    obtain ⟨y, z, first, second, -⟩ := ends_of_join ends
    obtain ⟨y', first'⟩ := headIh first other
    obtain ⟨z', second'⟩ := restIh second y'.yylval
    simp only [eval, first', ok_then, second']
    exact ⟨_, rfl⟩

/-- Without a comparison there is nothing to turn on. -/
theorem not_turns_of_lastByte {e : FlowExpr} (bare : e.lastByte s = none) :
    ¬ e.Turns s view := by
  induction e with
  | atom attr test =>
    rintro ⟨b, rule⟩
    obtain ⟨-, op, v, rfl⟩ := exprAttr_resultOnly s view rule
    cases bare
  | paren inner ih => exact ih bare
  | join head op rest headIh restIh =>
    obtain ⟨restBare, headBare⟩ := Option.or_eq_none_iff.mp bare
    simp only [Turns, headBare]
    exact fun turns => restIh restBare turns.1

/-- An expression turns on the byte exactly if the byte changes its value. -/
theorem turns_iff {e : FlowExpr} {x x' : Evaluated}
    (ends : e.eval s (exprAttr s view) false = .ok x)
    (ends' : e.eval s (exprAttr s view) true = .ok x') :
    e.Turns s view ↔ x.value ≠ x'.value := by
  induction e generalizing x x' with
  | atom attr test =>
    rcases ends_of_test ends with ⟨b, rule, rfl⟩ | ⟨b, rule, rfl⟩ <;>
      rcases ends_of_test ends' with ⟨b', rule', rfl⟩ | ⟨b', rule', rfl⟩ <;>
      simp only [rule] at rule' <;> cases rule'
    · simp [Turns, rule]
    · simp [Turns, rule]
  | paren inner ih =>
    obtain ⟨y, inside, rfl⟩ := ends_of_paren ends
    obtain ⟨y', inside', rfl⟩ := ends_of_paren ends'
    change Turns s view inner ↔ y.value ≠ y'.value
    exact ih inside inside'
  | join head op rest headIh restIh =>
    obtain ⟨y, z, first, second, rfl⟩ := ends_of_join ends
    obtain ⟨y', z', first', second', rfl⟩ := ends_of_join ends'
    rw [yylval_of_eval first] at second
    rw [yylval_of_eval first'] at second'
    cases last : head.lastByte s with
    | some byte =>
      -- The rest starts from the byte that the head leaves, whatever was before.
      rw [last, Option.getD_some] at second second'
      cases second.symm.trans second'
      rw [BoolOp.apply_left_ne, ← headIh first first']
      simp only [Turns, last, second, Except.ok.injEq, exists_eq_left']
    | none =>
      rw [last, Option.getD_none] at second second'
      have same : y.value = y'.value :=
        not_not.mp (mt (headIh first first').mpr (not_turns_of_lastByte last))
      simp only [← same]
      rw [BoolOp.apply_right_ne, ← restIh second second']
      simp only [Turns, last, first, Except.ok.injEq, exists_eq_left']

/-- The result is the value, but of a comparison of risks. -/
theorem result_of_eval {e : FlowExpr} {yylval : Bool} {x : Evaluated}
    (ends : e.eval s (exprAttr s view) yylval = .ok x) : x.result = x.value ∨
      ∃ attr test, e = .atom attr test ∧ exprAttr s view attr test = some (.resultOnly x.result) ∧
        x.value = yylval := by
  cases e with
  | atom attr test =>
    rcases ends_of_test ends with ⟨b, -, rfl⟩ | ⟨b, rule, rfl⟩
    · exact .inl rfl
    · exact .inr ⟨attr, test, rfl, rule, rfl⟩
  | paren inner =>
    obtain ⟨y, -, rfl⟩ := ends_of_paren ends
    exact .inl rfl
  | join head op rest =>
    obtain ⟨y, z, -, -, rfl⟩ := ends_of_join ends
    exact .inl rfl

/-- What does not turn on the byte has one value, which is its result. -/
theorem steady {e : FlowExpr} (still : ¬ e.Turns s view) {y y' : Bool} {x x' : Evaluated}
    (ends : e.eval s (exprAttr s view) y = .ok x)
    (ends' : e.eval s (exprAttr s view) y' = .ok x') :
    x.value = x'.value ∧ x'.result = x'.value := by
  constructor
  · cases y <;> cases y'
    · cases ends.symm.trans ends'; rfl
    · exact not_not.mp (mt (turns_iff ends ends').mpr still)
    · exact (not_not.mp (mt (turns_iff ends' ends).mpr still)).symm
    · cases ends.symm.trans ends'; rfl
  · rcases result_of_eval ends' with same | ⟨attr, test, rfl, rule, -⟩
    · exact same
    · exact (still ⟨_, rule⟩).elim

end

/-! ## Two expressions -/

/-- `(A) op (B)`. -/
def joined (a : FlowExpr) (op : BoolOp) (b : FlowExpr) : FlowExpr :=
  .join (.paren a) op (.paren b)

theorem accepted_joined {rules : FlowAttr → ExprTest → Option ExprAction} {a b : FlowExpr}
    {op : BoolOp} (aAccepted : a.Accepted rules) (bAccepted : b.Accepted rules) :
    (a.joined op b).Accepted rules := ⟨aAccepted, bAccepted⟩

end FlowExpr

/-- `(A) && (B);` or `(A) || (B);`. -/
def joinText (A : List Char) (op : BoolOp) (B : List Char) : List Char :=
  let sign := match op with
    | .and => ") && ("
    | .or => ") || ("
  '(' :: A ++ sign.toList ++ B ++ ");".toList

/-- Where two expressions can be put together: the first one does not turn on the
byte before it, and the second one does not, or it is itself a comparison of risks
and the first one leaves a byte that happens to be its answer. -/
def Composes (s : ExprServices) (view : ExprView) (a b : FlowExpr) : Prop :=
  ¬ a.Turns s view ∧ (¬ b.Turns s view ∨
    ∃ attr test r, b = .atom attr test ∧ exprAttr s view attr test = some (.resultOnly r) ∧
      a.lastByte s = some r)

theorem BoolOp.exists_neutral (b : Bool) : ∃ op : BoolOp, b = op.neutral := by
  cases b
  · exact ⟨.or, rfl⟩
  · exact ⟨.and, rfl⟩

/-- The two together parse to what they parse to alone, for both operators and
whatever is in `yylval` before each of the three parses. -/
def Compositional (s : ExprServices) (flow : ExprFlow) (A B : List Char) : Prop :=
  ∀ (op : BoolOp) (yylval aYylval bYylval : Bool),
    ndFlowParser.parse s yylval flow (joinText A op B) = (do
      let x ← ndFlowParser.parse s aYylval flow (A ++ [';'])
      let y ← ndFlowParser.parse s bYylval flow (B ++ [';'])
      .ok (op.apply x y))

section
variable {s : ExprServices} {view : ExprView} {a b : FlowExpr}

/-- The values that the two expressions have together give what their results
give, for both operators and from every byte. -/
def ValuesAgree (s : ExprServices) (view : ExprView) (a b : FlowExpr) : Prop :=
  ∀ (op : BoolOp) (yylval aYylval bYylval : Bool) (x y x' y' : Evaluated),
    a.eval s (exprAttr s view) yylval = .ok x → b.eval s (exprAttr s view) x.yylval = .ok y →
    a.eval s (exprAttr s view) aYylval = .ok x' → b.eval s (exprAttr s view) bYylval = .ok y' →
      op.apply x.value y.value = op.apply x'.result y'.result

theorem Composes.agree (composes : Composes s view a b) : ValuesAgree s view a b := by
  intro op yylval aYylval bYylval x y x' y' first second first' second'
  obtain ⟨still, other⟩ := composes
  obtain ⟨value, result⟩ := FlowExpr.steady still first first'
  rw [value, result]
  rcases other with still | ⟨attr, test, r, rfl, rule, last⟩
  · obtain ⟨value, result⟩ := FlowExpr.steady still second second'
    rw [value, result]
  · have byte : x.yylval = r := by rw [FlowExpr.yylval_of_eval first, last]; rfl
    rcases FlowExpr.ends_of_test second with ⟨c, both, -⟩ | ⟨c, only, rfl⟩
    · cases rule.symm.trans both
    · rcases FlowExpr.ends_of_test second' with ⟨c', both, -⟩ | ⟨c', only', rfl⟩
      · cases rule.symm.trans both
      · cases rule.symm.trans only'
        rw [byte]

/-- The first of two expressions that agree with their results does not turn. -/
theorem ValuesAgree.still (agree : ValuesAgree s view a b) {x y : Evaluated}
    (aEnds : a.eval s (exprAttr s view) false = .ok x)
    (bEnds : b.eval s (exprAttr s view) false = .ok y) : ¬ a.Turns s view := by
  intro turns
  obtain ⟨x', aEnds'⟩ := FlowExpr.ends_again aEnds true
  obtain ⟨byte, last⟩ : ∃ byte, a.lastByte s = some byte :=
    Option.ne_none_iff_exists'.mp fun bare => FlowExpr.not_turns_of_lastByte bare turns
  have left : x.yylval = byte := by rw [FlowExpr.yylval_of_eval aEnds, last]; rfl
  have left' : x'.yylval = byte := by rw [FlowExpr.yylval_of_eval aEnds', last]; rfl
  obtain ⟨z, second⟩ := FlowExpr.ends_again bEnds byte
  obtain ⟨op, neutral⟩ := BoolOp.exists_neutral z.value
  have one := agree op _ _ _ x z x z aEnds (left ▸ second) aEnds second
  have two := agree op _ _ _ x' z x z aEnds' (left' ▸ second) aEnds second
  exact BoolOp.apply_left_ne.mpr ⟨(FlowExpr.turns_iff aEnds aEnds').mp turns, neutral⟩
    (one.trans two.symm)

theorem ValuesAgree.composes (agree : ValuesAgree s view a b) {x y : Evaluated}
    (aEnds : a.eval s (exprAttr s view) false = .ok x)
    (bEnds : b.eval s (exprAttr s view) false = .ok y) : Composes s view a b := by
  have still := agree.still aEnds bEnds
  refine ⟨still, or_iff_not_imp_left.mpr fun turns => ?_⟩
  obtain ⟨op, neutral⟩ := BoolOp.exists_neutral x.value
  by_cases compared : ∃ attr test r, b = .atom attr test ∧
      exprAttr s view attr test = some (.resultOnly r)
  · obtain ⟨attr, test, r, rfl, rule⟩ := compared
    refine ⟨attr, test, r, rfl, rule, ?_⟩
    -- From a byte `c` the second expression has the value `c` and the result `r`.
    have operand (c : Bool) : (FlowExpr.atom attr test).eval s (exprAttr s view) c =
        .ok ⟨c, r, test.yylval s c⟩ := by
      simp only [FlowExpr.eval, ExprTest.eval, rule]
      rfl
    obtain ⟨x', aEnds'⟩ := FlowExpr.ends_again aEnds (!r)
    obtain ⟨value, result⟩ := FlowExpr.steady still aEnds' aEnds
    have left := agree op _ _ false x' _ x _ aEnds' (operand _) aEnds (operand _)
    rw [value, result] at left
    have byte : x'.yylval = r := by
      by_contra differ
      exact BoolOp.apply_right_ne.mpr ⟨differ, neutral⟩ left
    rw [FlowExpr.yylval_of_eval aEnds'] at byte
    cases last : a.lastByte s with
    | some byte' => rw [last] at byte; exact congrArg some byte
    | none => rw [last] at byte; cases r <;> cases byte
  · obtain ⟨y', bEnds'⟩ := FlowExpr.ends_again bEnds true
    obtain ⟨z, second⟩ := FlowExpr.ends_again bEnds x.yylval
    have plain {c : Bool} {y : Evaluated} (ends : b.eval s (exprAttr s view) c = .ok y) :
        y.result = y.value := by
      rcases FlowExpr.result_of_eval ends with same | ⟨attr, test, is, rule, -⟩
      · exact same
      · exact (compared ⟨attr, test, _, is, rule⟩).elim
    have result := (FlowExpr.steady still aEnds aEnds).2
    have one := agree op _ _ _ x z x y aEnds second aEnds bEnds
    have two := agree op _ _ _ x z x y' aEnds second aEnds bEnds'
    rw [plain bEnds, result] at one
    rw [plain bEnds', result] at two
    have differ := (FlowExpr.turns_iff bEnds bEnds').mp (not_not.mp turns)
    exact (BoolOp.apply_right_ne.mpr ⟨differ, neutral⟩ (one.symm.trans two)).elim

end

section
variable {s : ExprServices} {flow : ExprFlow} {view : ExprView}

/-- A parse of `e;`, where `e` may be grouped in any way. -/
theorem parse_derived (known : exprView s flow = some view) {e : FlowExpr}
    (accepted : e.Accepted (exprAttr s view)) {expr : List Char}
    (tokens : exprTokens expr = e.tokens ++ [.semicolon]) (yylval : Bool) :
    ndFlowParser.parse s yylval flow expr =
      e.regroup.evalOn s (exprAttr s view) 1 yylval >>= fun x => .ok x.result :=
  parse_tokens known e.grouped_regroup (FlowExpr.accepted_regroup.mpr accepted)
    (by rw [e.tokens_regroup, tokens]) yylval

/-- A parse that returns, by its tree. -/
theorem ends_of_parse (known : exprView s flow = some view) {e : FlowExpr}
    (accepted : e.Accepted (exprAttr s view)) {expr : List Char}
    (tokens : exprTokens expr = e.tokens ++ [.semicolon]) {yylval r : Bool}
    (returns : ndFlowParser.parse s yylval flow expr = .ok r) :
    ∃ x, e.regroup.eval s (exprAttr s view) yylval = .ok x ∧ x.result = r := by
  rw [parse_derived known accepted tokens] at returns
  obtain ⟨x, ends, is⟩ := FlowExpr.ends_of_bind returns
  rw [FlowExpr.evalOn_room _ (FlowExpr.room_of_evalOn ends)] at ends
  exact ⟨x, ends, Except.ok.inj is⟩

/-- The two together, on a stack with room for them. -/
theorem parse_joined (known : exprView s flow = some view) {a b : FlowExpr} {op : BoolOp}
    (aAccepted : a.Accepted (exprAttr s view)) (bAccepted : b.Accepted (exprAttr s view))
    {expr : List Char} (tokens : exprTokens expr = (a.joined op b).tokens ++ [.semicolon])
    (room : 1 + (a.joined op b).regroup.need ≤ maxSymbols) {yylval : Bool} {x y : Evaluated}
    (first : a.regroup.eval s (exprAttr s view) yylval = .ok x)
    (second : b.regroup.eval s (exprAttr s view) x.yylval = .ok y) :
    ndFlowParser.parse s yylval flow expr = .ok (op.apply x.value y.value) := by
  rw [parse_derived known (FlowExpr.accepted_joined aAccepted bAccepted) tokens,
    FlowExpr.evalOn_room _ room]
  change ((FlowExpr.join (.paren a.regroup) op (.paren b.regroup)).eval s (exprAttr s view)
    yylval >>= _) = _
  simp only [FlowExpr.eval, first, FlowExpr.ok_then, second]

end

/-- A regular expression goes on to the last quote of the line. -/
example :
    exprTokens "(app=='rx:^') && (app=='ab');".toList =
      [.lparen, .flow .application, .cmp .equal,
        .value (.regex "'rx:^') && (app=='ab'".toList), .rparen, .semicolon] := by
  decide +kernel

end NetifyAgent
