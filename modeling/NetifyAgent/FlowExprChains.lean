import Mathlib.Data.Fintype.Order
import NetifyAgent.FlowExprNegation
import NetifyAgent.Lib.Chains

/-! Chains of tests without parentheses. `%expect 4` leaves the four conflicts
between the two operators to the default, which is to shift: both operators bind
alike, and a chain is grouped to the right. -/
namespace NetifyAgent
open NetifyAgent.Chains

/-- An attribute and how it is asked for. -/
abbrev FlowTest := FlowAttr × ExprTest

def BoolOp.toOp : BoolOp → Chains.Op
  | .and => .meet
  | .or => .join

theorem BoolOp.grouped_apply (op : BoolOp) (a b : Bool) (rest : List (Chains.Op × Bool)) :
    op.apply a (grouped b rest) = grouped a ((op.toOp, b) :: rest) := by
  cases op <;> rfl

/-- The tokens of a chain. -/
def chainTokens (first : FlowTest) (rest : List (BoolOp × FlowTest)) : List FlowToken :=
  first.2.tokens first.1 ++
    rest.flatMap fun next => .bool next.1 :: next.2.2.tokens next.2.1

/-- The tree of a chain. -/
def chainTree (first : FlowTest) : List (BoolOp × FlowTest) → FlowExpr
  | [] => .atom first.1 first.2
  | (op, next) :: rest => .join (.atom first.1 first.2) op (chainTree next rest)

/-- The symbols that a chain takes on the stack, two for each test that waits and
as many as the last has tokens. -/
def chainNeed (first : FlowTest) : List (BoolOp × FlowTest) → Nat
  | [] => (first.2.tokens first.1).length
  | (_, next) :: rest => max (first.2.tokens first.1).length (2 + chainNeed next rest)

section
variable (s : ExprServices) (view : ExprView)

/-- What a test assigns, where it assigns the value and the result. -/
def truth (test : FlowTest) : Bool :=
  match exprAttr s view test.1 test.2 with
  | some (.both b) => b
  | _ => false

/-- The truth values of a chain. -/
def truths (rest : List (BoolOp × FlowTest)) : List (Chains.Op × Bool) :=
  rest.map fun next => (next.1.toOp, truth s view next.2)

end

theorem tokens_chainTree (first : FlowTest) (rest : List (BoolOp × FlowTest)) :
    (chainTree first rest).tokens = chainTokens first rest := by
  induction rest generalizing first with
  | nil => simp [chainTree, chainTokens, FlowExpr.tokens]
  | cons next rest ih =>
    simp only [chainTree, FlowExpr.tokens, ih, chainTokens, List.flatMap_cons, List.cons_append]

theorem grouped_chainTree (first : FlowTest) (rest : List (BoolOp × FlowTest)) :
    (chainTree first rest).Grouped := by
  induction rest generalizing first with
  | nil => trivial
  | cons next rest ih => exact ⟨trivial, trivial, ih next.2⟩

theorem need_chainTree (first : FlowTest) (rest : List (BoolOp × FlowTest)) :
    (chainTree first rest).need = chainNeed first rest := by
  induction rest generalizing first with
  | nil => rfl
  | cons next rest ih => simp only [chainTree, FlowExpr.need, ih, chainNeed]

section
variable {s : ExprServices} {flow : ExprFlow} {view : ExprView}

/-- The grammar has a rule for the test, and it is a regular one. -/
def Regular (s : ExprServices) (view : ExprView) (test : FlowTest) : Prop :=
  (exprAttr s view test.1 test.2).isSome ∧ ¬ Irregular test.1 test.2

theorem rule_of_regular {test : FlowTest} (regular : Regular s view test) :
    exprAttr s view test.1 test.2 = some (.both (truth s view test)) := by
  obtain ⟨action, rule⟩ := Option.isSome_iff_exists.mp regular.1
  obtain ⟨b, rfl⟩ := exprAttr_assigns s view rule regular.2
  rw [rule, truth, rule]

theorem accepted_of_regular {test : FlowTest} (regular : Regular s view test) :
    (FlowExpr.atom test.1 test.2).Accepted (exprAttr s view) :=
  ⟨regular.1, fun op v compared => exprAttr_takes s view (compared ▸ regular.1)⟩

/-- A test alone returns its truth value. -/
theorem parse_regular (known : exprView s flow = some view) {test : FlowTest}
    (regular : Regular s view test) {expr : List Char}
    (tokens : exprTokens expr = chainTokens test [] ++ [.semicolon]) (yylval : Bool) :
    ndFlowParser.parse s yylval flow expr = .ok (truth s view test) :=
  parse_test known (rule_of_regular regular) (by simpa [chainTokens] using tokens) yylval

theorem accepted_chainTree {first : FlowTest} {rest : List (BoolOp × FlowTest)}
    (here : Regular s view first) (later : ∀ next ∈ rest, Regular s view next.2) :
    (chainTree first rest).Accepted (exprAttr s view) := by
  induction rest generalizing first with
  | nil => exact accepted_of_regular here
  | cons next rest ih =>
    obtain ⟨now, later⟩ := List.forall_mem_cons.mp later
    exact ⟨accepted_of_regular here, ih now later⟩

/-- The tree of a chain has the value of the chain grouped to the right. -/
theorem eval_chainTree {first : FlowTest} {rest : List (BoolOp × FlowTest)}
    (here : Regular s view first) (later : ∀ next ∈ rest, Regular s view next.2) (yylval : Bool) :
    ∃ after, (chainTree first rest).eval s (exprAttr s view) yylval =
      .ok ⟨grouped (truth s view first) (truths s view rest),
        grouped (truth s view first) (truths s view rest), after⟩ := by
  induction rest generalizing first yylval with
  | nil =>
    simp only [chainTree, FlowExpr.eval, ExprTest.eval, rule_of_regular here]
    exact ⟨_, rfl⟩
  | cons next rest ih =>
    obtain ⟨now, later⟩ := List.forall_mem_cons.mp later
    obtain ⟨after, value⟩ := ih now later (first.2.yylval s yylval)
    refine ⟨after, ?_⟩
    simp only [chainTree, FlowExpr.eval, ExprTest.eval, rule_of_regular here, ExprAction.run]
    change ((chainTree next.2 rest).eval s (exprAttr s view) (first.2.yylval s yylval) >>= _) = _
    rw [value]
    exact congrArg (fun b => Except.ok (⟨b, b, after⟩ : Evaluated))
      (next.1.grouped_apply (truth s view first) (truth s view next.2) (truths s view rest))

/-- **Chains.** `Parse` of a chain of regular tests returns its value grouped to
the right, or the stack overflows. That is the value with `&&` binding tighter,
whatever the truth values are, exactly if no `||` comes after an `&&`. -/
theorem parse_chain (known : exprView s flow = some view) {first : FlowTest}
    {rest : List (BoolOp × FlowTest)} (here : Regular s view first)
    (later : ∀ next ∈ rest, Regular s view next.2) {expr : List Char}
    (tokens : exprTokens expr = chainTokens first rest ++ [.semicolon]) (yylval : Bool) :
    (ndFlowParser.parse s yylval flow expr =
      if 1 + chainNeed first rest ≤ maxSymbols then
        .ok (grouped (truth s view first) (truths s view rest))
      else .error .memoryExhausted) ∧
    ((∀ (a : Bool) (values : List (Chains.Op × Bool)),
        values.map Prod.fst = rest.map (fun next => next.1.toOp) →
          grouped a values = tight a values) ↔
      rest.Pairwise fun next after => next.1 = .and → after.1 = .and) := by
  constructor
  · obtain ⟨after, value⟩ := eval_chainTree here later yylval
    rw [← tokens_chainTree] at tokens
    rw [parse_tokens known (grouped_chainTree first rest) (accepted_chainTree here later) tokens,
      ← need_chainTree]
    split
    · rename_i room
      rw [FlowExpr.evalOn_room _ room, value]
      rfl
    · rename_i full
      rw [FlowExpr.evalOn_no_room _ (Nat.not_le.mp full) value]
      rfl
  · rw [grouped_iff_tight, JoinsFirst, List.pairwise_map]
    have same (op op' : BoolOp) :
        (op.toOp = .meet → op'.toOp = .meet) ↔ (op = .and → op' = .and) := by
      cases op <;> cases op' <;> simp [BoolOp.toOp]
    simp only [same]

end

/-- One chain, grouped to the right. -/
theorem parse_two_ors :
    ndFlowParser.parse sampleServices false sampleFlow "vlan_id || ip_nat || !vlan_id;".toList =
      .ok true :=
  (@parse_chain sampleServices sampleFlow _ rfl (.vlanId, .set)
    [(.or, .ipNat, .set), (.or, .vlanId, .unset)] ⟨rfl, id⟩
    (by simp [Regular, exprAttr, exprVlanId, exprNumber, exprIpNat, exprFlag, Irregular])
    "vlan_id || ip_nat || !vlan_id;".toList (by decide +kernel) false).1

/-- With `&&` binding tighter a false `A` and a true `C` make `A && B || C` true. -/
theorem and_or_false :
    ndFlowParser.parse sampleServices false sampleFlow "vlan_id;".toList = .ok false ∧
      ndFlowParser.parse sampleServices false sampleFlow "ip_nat;".toList = .ok false ∧
      ndFlowParser.parse sampleServices false sampleFlow "ip_protocol;".toList = .ok true ∧
      ndFlowParser.parse sampleServices false sampleFlow
        "vlan_id && ip_nat || ip_protocol;".toList ≠ .ok (false && false || true) := by
  decide +kernel

end NetifyAgent
