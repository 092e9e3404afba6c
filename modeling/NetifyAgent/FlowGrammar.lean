import NetifyAgent.FlowParser

/-! The grammar of flow expressions, and what the parser makes of a text that it
derives. The grammar does not say how `a op b op c` is grouped. The parser groups
it to the right, whatever the operators are: it computes the value of the tree
whose joins all have a single operand on their left. -/
namespace NetifyAgent

/-- The derivations of `expr`. -/
inductive FlowExpr where
  | atom (attr : FlowAttr) (test : ExprTest)
  | paren (inner : FlowExpr)
  | join (head : FlowExpr) (op : BoolOp) (rest : FlowExpr)
  deriving DecidableEq, Repr

def ExprTest.tokens (attr : FlowAttr) : ExprTest → List FlowToken
  | .set => [.flow attr]
  | .unset => [.bang, .flow attr]
  | .compare op v => [.flow attr, .cmp op, .value v]

/-- The first byte of `yylval` behind a test. -/
def ExprTest.yylval (s : ExprServices) (before : Bool) : ExprTest → Bool
  | .set | .unset => before
  | .compare _ v => v.firstByte s

/-- What an expression leaves behind: its value, the result of the parser and the
first byte of `yylval`. -/
structure Evaluated where
  value : Bool
  result : Bool
  yylval : Bool
  deriving DecidableEq, Repr

/-- The evaluation of a test. -/
def ExprTest.eval (s : ExprServices) (test : ExprTest) (action : Option ExprAction)
    (yylval : Bool) : Except ParseStop Evaluated :=
  match action with
  | none => .error .syntaxError
  | some action => do
    let (value, result) ← action.run yylval
    .ok ⟨value, result, test.yylval s yylval⟩

/-- The stack holds that many symbols. -/
def fits (symbols : Nat) : Except ParseStop Unit :=
  if symbols ≤ maxSymbols then .ok () else .error .memoryExhausted

namespace FlowExpr

def tokens : FlowExpr → List FlowToken
  | .atom attr test => test.tokens attr
  | .paren inner => .lparen :: (inner.tokens ++ [.rparen])
  | .join head op rest => head.tokens ++ .bool op :: rest.tokens

/-- A single operand. -/
def Single : FlowExpr → Prop
  | .join _ _ _ => False
  | _ => True

/-- Every join has a single operand on its left. -/
def Grouped : FlowExpr → Prop
  | .atom _ _ => True
  | .paren inner => inner.Grouped
  | .join head _ rest => head.Single ∧ head.Grouped ∧ rest.Grouped

/-- The symbols that a tree takes on the stack. -/
def need : FlowExpr → Nat
  | .atom attr test => (test.tokens attr).length
  | .paren inner => max (1 + inner.need) 3
  | .join head _ rest => max head.need (2 + rest.need)

section
variable (s : ExprServices) (rules : FlowAttr → ExprTest → Option ExprAction)

/-- The grammar has a rule for every test. -/
def Accepted : FlowExpr → Prop
  | .atom attr test => (rules attr test).isSome ∧
    ∀ op v, test = .compare op v → attr.takes op
  | .paren inner => inner.Accepted
  | .join head _ rest => head.Accepted ∧ rest.Accepted

/-- The evaluation of a tree on a stack with room for it. -/
def eval : FlowExpr → Bool → Except ParseStop Evaluated
  | .atom attr test, yylval => test.eval s (rules attr test) yylval
  | .paren inner, yylval => do
    let x ← inner.eval yylval
    .ok { x with result := x.value }
  | .join head op rest, yylval => do
    let x ← head.eval yylval
    let y ← rest.eval x.yylval
    .ok ⟨op.apply x.value y.value, op.apply x.value y.value, y.yylval⟩

/-- The evaluation of a tree on top of other symbols. -/
def evalOn : FlowExpr → Nat → Bool → Except ParseStop Evaluated
  | .atom attr test, symbols, yylval => do
    fits (symbols + (test.tokens attr).length)
    test.eval s (rules attr test) yylval
  | .paren inner, symbols, yylval => do
    fits (symbols + 1)
    let x ← inner.evalOn (symbols + 1) yylval
    fits (symbols + 3)
    .ok { x with result := x.value }
  | .join head op rest, symbols, yylval => do
    let x ← head.evalOn symbols yylval
    fits (symbols + 2)
    let y ← rest.evalOn (symbols + 2) x.yylval
    .ok ⟨op.apply x.value y.value, op.apply x.value y.value, y.yylval⟩

end

/-! ## Evaluation and the stack -/

theorem ends_of_bind {α β : Type} {first : Except ParseStop α} {next : α → Except ParseStop β}
    {b : β} (ends : first >>= next = .ok b) : ∃ a, first = .ok a ∧ next a = .ok b := by
  cases first with
  | error stop => cases ends
  | ok a => exact ⟨a, rfl, ends⟩

theorem ok_then {α β : Type} (a : α) (next : α → Except ParseStop β) :
    (Except.ok a >>= next) = next a := rfl

/-- What fits with more symbols fits with fewer. -/
theorem fits_trans {fewer more : Nat} (le : fewer ≤ more) {α : Type}
    (next : Unit → Except ParseStop α) :
    (fits fewer >>= fun _ => fits more >>= next) = fits more >>= next := by
  by_cases room : more ≤ maxSymbols
  · simp only [fits, if_pos room, if_pos (le.trans room), ok_then]
  · by_cases some : fewer ≤ maxSymbols
    · simp only [fits, if_neg room, if_pos some, ok_then]
    · simp only [fits, if_neg room, if_neg some]
      rfl

section
variable {s : ExprServices} {rules : FlowAttr → ExprTest → Option ExprAction}

/-- With room on the stack the symbols below do not matter. -/
theorem evalOn_room (e : FlowExpr) {symbols : Nat} (room : symbols + e.need ≤ maxSymbols)
    (yylval : Bool) : e.evalOn s rules symbols yylval = e.eval s rules yylval := by
  induction e generalizing symbols yylval with
  | atom attr test =>
    have enough : fits (symbols + (test.tokens attr).length) = .ok () := if_pos room
    simp only [evalOn, enough, eval]
    rfl
  | paren inner ih =>
    simp only [need] at room
    have below : fits (symbols + 1) = .ok () := if_pos (by omega)
    have above : fits (symbols + 3) = .ok () := if_pos (by omega)
    simp only [evalOn, eval, below, above, ih (by omega : symbols + 1 + inner.need ≤ _)]
    rfl
  | join head op rest headIh restIh =>
    simp only [need] at room
    have between : fits (symbols + 2) = .ok () := if_pos (by omega)
    simp only [evalOn, eval, between, headIh (by omega : symbols + head.need ≤ _),
      restIh (by omega : symbols + 2 + rest.need ≤ _)]
    rfl

/-- Without room the parser gives up, where the tree has a value at all. -/
theorem evalOn_no_room (e : FlowExpr) {symbols : Nat} (full : maxSymbols < symbols + e.need)
    {yylval : Bool} {x : Evaluated} (value : e.eval s rules yylval = .ok x) :
    e.evalOn s rules symbols yylval = .error .memoryExhausted := by
  induction e generalizing symbols yylval x with
  | atom attr test =>
    have none : fits (symbols + (test.tokens attr).length) = .error .memoryExhausted :=
      if_neg (Nat.not_le.mpr full)
    simp only [evalOn, none]
    rfl
  | paren inner ih =>
    simp only [need] at full
    obtain ⟨y, inside, -⟩ := ends_of_bind value
    by_cases open_ : symbols + 1 ≤ maxSymbols
    · have below : fits (symbols + 1) = .ok () := if_pos open_
      by_cases room : symbols + 1 + inner.need ≤ maxSymbols
      · -- The tree fits, the parenthesis behind it does not.
        have above : fits (symbols + 3) = .error .memoryExhausted := if_neg (by omega)
        simp only [evalOn, below, evalOn_room inner room, inside, above]
        rfl
      · simp only [evalOn, below, ih (Nat.not_le.mp room) inside]
        rfl
    · have below : fits (symbols + 1) = .error .memoryExhausted := if_neg open_
      simp only [evalOn, below]
      rfl
  | join head op rest headIh restIh =>
    simp only [need] at full
    obtain ⟨y, first, later⟩ := ends_of_bind value
    obtain ⟨z, second, -⟩ := ends_of_bind later
    by_cases room : symbols + head.need ≤ maxSymbols
    · by_cases more : symbols + 2 ≤ maxSymbols
      · have between : fits (symbols + 2) = .ok () := if_pos more
        simp only [evalOn, evalOn_room head room, first, between]
        change (rest.evalOn s rules (symbols + 2) y.yylval >>= _) = _
        rw [restIh (by omega) second]
        rfl
      · have between : fits (symbols + 2) = .error .memoryExhausted := if_neg more
        simp only [evalOn, evalOn_room head room, first, between]
        rfl
    · simp only [evalOn, headIh (Nat.not_le.mp room) first]
      rfl

/-- Where the parser gets through, there is room. -/
theorem room_of_evalOn {e : FlowExpr} {symbols : Nat} {yylval : Bool} {x : Evaluated}
    (ends : e.evalOn s rules symbols yylval = .ok x) : symbols + e.need ≤ maxSymbols := by
  have fitted {symbols : Nat} {u : Unit} (ok : fits symbols = .ok u) : symbols ≤ maxSymbols := by
    by_contra full
    simp only [fits, if_neg full] at ok
    cases ok
  induction e generalizing symbols yylval x with
  | atom attr test =>
    obtain ⟨_, room, -⟩ := ends_of_bind ends
    exact fitted room
  | paren inner ih =>
    obtain ⟨_, -, rest⟩ := ends_of_bind ends
    obtain ⟨y, inside, rest⟩ := ends_of_bind rest
    obtain ⟨_, above, -⟩ := ends_of_bind rest
    have room := ih inside
    have more := fitted above
    simp only [need]
    omega
  | join head op rest headIh restIh =>
    obtain ⟨y, first, later⟩ := ends_of_bind ends
    obtain ⟨_, -, later⟩ := ends_of_bind later
    obtain ⟨z, second, -⟩ := ends_of_bind later
    have room := headIh first
    have more := restIh second
    simp only [need]
    omega

end

end FlowExpr

/-! ## The parser -/

/-- The tokens that can follow an operand. -/
def Follows : FlowToken → Prop
  | .bool _ | .rparen | .semicolon => True
  | _ => False

/-- The tokens that can follow an expression. -/
def Closes : FlowToken → Prop
  | .rparen | .semicolon => True
  | _ => False

/-- The tokens that can follow a tree. -/
def FlowExpr.FollowedBy : FlowExpr → FlowToken → Prop
  | .join _ _ _ => Closes
  | _ => Follows

theorem FlowExpr.Single.followedBy {e : FlowExpr} (single : e.Single) {c : FlowToken}
    (follows : Follows c) : e.FollowedBy c := by
  cases e with
  | join head op rest => exact single.elim
  | _ => exact follows

theorem FlowExpr.followedBy {e : FlowExpr} {c : FlowToken} (closes : Closes c) :
    e.FollowedBy c := by
  cases e with
  | join head op rest => exact closes
  | _ => cases c <;> first | exact trivial | exact closes.elim

namespace ExprParser
open FlowExpr

/-- The parser behind an expression. -/
def put (p : ExprParser) (x : Evaluated) : ExprParser :=
  { p with operand := .value x.value, result := x.result, yylval := x.yylval }

section
variable {s : ExprServices} {rules : FlowAttr → ExprTest → Option ExprAction} {p : ExprParser}

theorem run_cons (token : FlowToken) (tokens : List FlowToken) :
    p.run s rules (token :: tokens) =
      p.feed s rules token >>= fun q => q.run s rules tokens := rfl

theorem shift_eq (next : ExprParser) :
    p.shift next = fits (p.symbols + 1) >>= fun _ => .ok next := by
  by_cases room : p.symbols < maxSymbols
  · simp only [shift, if_pos room, fits, if_pos (Nat.succ_le_of_lt room)]
    rfl
  · simp only [shift, if_neg room, fits, if_neg (by omega : ¬ p.symbols + 1 ≤ maxSymbols)]
    rfl

/-- What follows an operand makes an expression of it first. -/
theorem feed_settle {c : FlowToken} (follows : Follows c) :
    p.feed s rules c = p.settle rules >>= fun top =>
      ({ p with operand := .value top.1, result := top.2 } : ExprParser).feed s rules c := by
  cases settled : p.settle rules with
  | error stop => cases c <;> first | exact follows.elim | (simp only [feed, settled]; rfl)
  | ok top =>
    have one : p.operand.symbols = 1 := by
      cases operand : p.operand <;> simp only [settle, operand] at settled <;>
        first | rfl | cases settled
    cases c with
    | bool op =>
      simp only [feed, settled]
      change p.shift _ = ({ p with operand := .value top.1, result := top.2 } : ExprParser).shift _
      simp only [shift, symbols, one]
      rfl
    | rparen => simp only [feed, settled]; rfl
    | semicolon => simp only [feed, settled]; rfl
    | _ => exact follows.elim

/-- What follows an expression reduces the operators before it. -/
theorem feed_join {c : FlowToken} (closes : Closes c) {left : Bool} {op : BoolOp}
    {x : Evaluated} :
    (({ p with frames := .binary left op :: p.frames }).put x).feed s rules c =
      (p.put ⟨op.apply left x.value, op.apply left x.value, x.yylval⟩).feed s rules c := by
  cases c <;> first | rfl | exact closes.elim

theorem run_settle {c : FlowToken} (follows : Follows c) (rest : List FlowToken) :
    p.run s rules (c :: rest) = p.settle rules >>= fun top =>
      ({ p with operand := .value top.1, result := top.2 } : ExprParser).run s rules (c :: rest) := by
  rw [run_cons, feed_settle follows, bind_assoc]
  rfl

theorem feed_bang {frames : List ExprFrame} {result yylval : Bool} :
    (⟨frames, .start, result, yylval⟩ : ExprParser).feed s rules .bang =
      fits (symbolsOf frames + 1) >>= fun _ => .ok ⟨frames, .bang, result, yylval⟩ :=
  shift_eq _

theorem feed_lparen {frames : List ExprFrame} {result yylval : Bool} :
    (⟨frames, .start, result, yylval⟩ : ExprParser).feed s rules .lparen =
      fits (symbolsOf frames + 1) >>= fun _ => .ok ⟨.paren :: frames, .start, result, yylval⟩ :=
  shift_eq _

theorem feed_flow {frames : List ExprFrame} {result yylval : Bool} {attr : FlowAttr} :
    (⟨frames, .start, result, yylval⟩ : ExprParser).feed s rules (.flow attr) =
      fits (symbolsOf frames + 1) >>= fun _ => .ok ⟨frames, .attr attr yylval, result, yylval⟩ :=
  shift_eq _

@[simp] theorem symbolsOf_paren (frames : List ExprFrame) :
    symbolsOf (.paren :: frames) = symbolsOf frames + 1 := by
  simp [symbolsOf, ExprFrame.symbols]; omega

@[simp] theorem symbolsOf_binary (left : Bool) (op : BoolOp) (frames : List ExprFrame) :
    symbolsOf (.binary left op :: frames) = symbolsOf frames + 2 := by
  simp [symbolsOf, ExprFrame.symbols]; omega

theorem feed_rparen {frames : List ExprFrame} {result yylval : Bool} {x : Evaluated} :
    ((⟨.paren :: frames, .start, result, yylval⟩ : ExprParser).put x).feed s rules .rparen =
      fits (symbolsOf frames + 3) >>= fun _ =>
        .ok ((⟨frames, .start, result, yylval⟩ : ExprParser).put { x with result := x.value }) := by
  have top : (⟨.paren :: frames, .value x.value, x.result, x.yylval⟩ : ExprParser).symbols + 1 =
      symbolsOf frames + 3 := by
    simp [ExprParser.symbols, ExprOperand.symbols]
  rw [← top]
  exact shift_eq _

theorem feed_bool {frames : List ExprFrame} {result yylval : Bool} {op : BoolOp}
    {x : Evaluated} :
    ((⟨frames, .start, result, yylval⟩ : ExprParser).put x).feed s rules (.bool op) =
      fits (symbolsOf frames + 2) >>= fun _ =>
        .ok ⟨.binary x.value op :: frames, .start, x.result, x.yylval⟩ :=
  shift_eq _

theorem run_test {attr : FlowAttr} {test : ExprTest} (accepted : (rules attr test).isSome)
    (takes : ∀ op v, test = .compare op v → attr.takes op) (start : p.operand = .start)
    {c : FlowToken} (follows : Follows c) (rest : List FlowToken) :
    p.run s rules (test.tokens attr ++ c :: rest) =
      (FlowExpr.atom attr test).evalOn s rules p.symbols p.yylval >>= fun x =>
        (p.put x).run s rules (c :: rest) := by
  obtain ⟨frames, operand, result, yylval⟩ := p
  cases start
  obtain ⟨action, rule⟩ := Option.isSome_iff_exists.mp accepted
  cases test with
  | set =>
    have settled := @run_settle s rules ⟨frames, .attr attr yylval, result, yylval⟩ c follows rest
    simp only [settle, rule] at settled
    rw [ExprTest.tokens, List.singleton_append, run_cons, feed_flow, bind_assoc]
    simp only [ok_then, settled, FlowExpr.evalOn, ExprTest.eval, rule, bind_assoc]
    rfl
  | unset =>
    rw [ExprTest.tokens, List.cons_append, run_cons, feed_bang, bind_assoc]
    simp only [ok_then, List.singleton_append, run_cons (.flow attr), feed, reduce, rule, shift_eq,
      bind_assoc, FlowExpr.evalOn, ExprTest.eval]
    exact fits_trans (Nat.le_succ _) _
  | compare op v =>
    rw [ExprTest.tokens, List.cons_append, run_cons, feed_flow, bind_assoc]
    simp only [ok_then, List.cons_append, List.nil_append, run_cons (.cmp op), run_cons (.value v),
      feed, takes op v rfl, if_true, reduce, rule, shift_eq, bind_assoc, FlowExpr.evalOn,
      ExprTest.eval]
    exact (fits_trans (Nat.le_succ (symbolsOf frames + 1)) _).trans
      (fits_trans (Nat.le_succ (symbolsOf frames + 2)) _)

/-- **The parser evaluates the tree.** Whatever follows it, an expression does to
the parser what its tree evaluates to. -/
theorem run_tokens (e : FlowExpr) (grouped : e.Grouped) (accepted : e.Accepted rules)
    (start : p.operand = .start) {c : FlowToken} (follows : e.FollowedBy c)
    (rest : List FlowToken) :
    p.run s rules (e.tokens ++ c :: rest) =
      e.evalOn s rules p.symbols p.yylval >>= fun x => (p.put x).run s rules (c :: rest) := by
  induction e generalizing p c rest with
  | atom attr test => exact run_test accepted.1 accepted.2 start follows rest
  | paren inner ih =>
    obtain ⟨frames, operand, result, yylval⟩ := p
    cases start
    have inside := ih grouped accepted (p := ⟨.paren :: frames, .start, result, yylval⟩) rfl
      (c := .rparen) (followedBy trivial) (c :: rest)
    simp only [ExprParser.symbols, ExprOperand.symbols, symbolsOf_paren, Nat.add_zero,
      run_cons .rparen, feed_rparen, bind_assoc, ok_then] at inside
    simp only [tokens, List.cons_append, List.append_assoc, List.nil_append, run_cons .lparen,
      feed_lparen, bind_assoc, ok_then, inside, evalOn]
    rfl
  | join head op tail headIh tailIh =>
    obtain ⟨frames, operand, result, yylval⟩ := p
    cases start
    have first := headIh grouped.2.1 accepted.1 (p := ⟨frames, .start, result, yylval⟩) rfl
      (c := .bool op) (grouped.1.followedBy trivial) (tail.tokens ++ c :: rest)
    simp only [tokens, List.append_assoc, List.cons_append, first, evalOn, bind_assoc]
    refine bind_congr fun x => ?_
    have second := tailIh grouped.2.2 accepted.2
      (p := ⟨.binary x.value op :: frames, .start, x.result, x.yylval⟩) rfl (c := c)
      (followedBy follows) rest
    simp only [ExprParser.symbols, ExprOperand.symbols, symbolsOf_binary, Nat.add_zero] at second ⊢
    simp only [run_cons (.bool op), feed_bool, bind_assoc, ok_then, second]
    refine bind_congr fun _ => bind_congr fun y => ?_
    rw [run_cons, run_cons, feed_join (p := ⟨frames, .start, x.result, x.yylval⟩) follows]
    rfl

end
end ExprParser

section
variable {s : ExprServices} {rules : FlowAttr → ExprTest → Option ExprAction}

/-- An expression with its semicolon. -/
theorem yyparse_tokens {e : FlowExpr} (grouped : e.Grouped) (accepted : e.Accepted rules)
    (yylval : Bool) :
    yyparse s rules yylval (e.tokens ++ [.semicolon]) =
      e.evalOn s rules 1 yylval >>= fun x => .ok x.result := by
  have read := ExprParser.run_tokens (s := s) (p := { yylval }) e grouped accepted rfl
    (c := .semicolon) (FlowExpr.followedBy trivial) []
  simp only [yyparse, read, bind_assoc]
  rfl

end

/-- `Parse` of a text that is one expression and a semicolon. -/
theorem parse_tokens {s : ExprServices} {flow : ExprFlow} {view : ExprView} {expr : List Char}
    (known : exprView s flow = some view) {e : FlowExpr} (grouped : e.Grouped)
    (accepted : e.Accepted (exprAttr s view)) (tokens : exprTokens expr = e.tokens ++ [.semicolon])
    (yylval : Bool) :
    ndFlowParser.parse s yylval flow expr =
      e.evalOn s (exprAttr s view) 1 yylval >>= fun x => .ok x.result := by
  simp only [ndFlowParser.parse, known, tokens, yyparse_tokens grouped accepted]

/-! ## Grouping -/

namespace FlowExpr

/-- `op rest` behind an expression that is grouped to the right. -/
def attach : FlowExpr → BoolOp → FlowExpr → FlowExpr
  | .join head op mid, op', rest => .join head op (mid.attach op' rest)
  | e, op', rest => .join e op' rest

/-- The tree that the parser finds for the tokens of a tree. -/
def regroup : FlowExpr → FlowExpr
  | .atom attr test => .atom attr test
  | .paren inner => .paren inner.regroup
  | .join head op rest => head.regroup.attach op rest.regroup

theorem tokens_attach (e : FlowExpr) (op : BoolOp) (rest : FlowExpr) :
    (e.attach op rest).tokens = e.tokens ++ .bool op :: rest.tokens := by
  induction e with
  | atom attr test => rfl
  | paren inner _ => rfl
  | join head op' mid _ ih => simp [attach, tokens, ih]

/-- Grouping does not change a text. -/
theorem tokens_regroup (e : FlowExpr) : e.regroup.tokens = e.tokens := by
  induction e with
  | atom attr test => rfl
  | paren inner ih => simp [regroup, tokens, ih]
  | join head op rest headIh restIh => simp [regroup, tokens_attach, tokens, headIh, restIh]

theorem grouped_attach {e rest : FlowExpr} {op : BoolOp} (head : e.Grouped)
    (tail : rest.Grouped) : (e.attach op rest).Grouped := by
  induction e with
  | atom attr test => exact ⟨trivial, head, tail⟩
  | paren inner _ => exact ⟨trivial, head, tail⟩
  | join first op' mid _ ih => exact ⟨head.1, head.2.1, ih head.2.2⟩

theorem grouped_regroup (e : FlowExpr) : e.regroup.Grouped := by
  induction e with
  | atom attr test => trivial
  | paren inner ih => exact ih
  | join head op rest headIh restIh => exact grouped_attach headIh restIh

section
variable {rules : FlowAttr → ExprTest → Option ExprAction}

theorem accepted_attach {e rest : FlowExpr} {op : BoolOp} :
    (e.attach op rest).Accepted rules ↔ e.Accepted rules ∧ rest.Accepted rules := by
  induction e with
  | atom attr test => rfl
  | paren inner _ => rfl
  | join first op' mid _ ih => simp [attach, Accepted, ih, and_assoc]

theorem accepted_regroup {e : FlowExpr} : e.regroup.Accepted rules ↔ e.Accepted rules := by
  induction e with
  | atom attr test => rfl
  | paren inner ih => exact ih
  | join head op rest headIh restIh => simp [regroup, accepted_attach, Accepted, headIh, restIh]

end
end FlowExpr
end NetifyAgent
