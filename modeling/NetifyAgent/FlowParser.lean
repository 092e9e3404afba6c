import NetifyAgent.FlowExpr

/-! The parser of flow expressions: the stack, what each token does to it, and
`ndFlowParser::Parse`. Below a state there is always the one of the expressions
before. The stack is a list of what waits for an operand, the last one first, and
the part of an operand that is there. -/
namespace NetifyAgent

/-- What waits for an operand. -/
inductive ExprFrame where
  /-- `'('`. -/
  | paren
  /-- `expr op`, with the value of `expr`. -/
  | binary (left : Bool) (op : BoolOp)
  deriving DecidableEq, Repr

/-- What is there of an operand. `stale` is the first byte of `yylval` when the
attribute was shifted. -/
inductive ExprOperand where
  | start
  | bang
  | attr (attr : FlowAttr) (stale : Bool)
  | cmp (attr : FlowAttr) (op : Cmp) (stale : Bool)
  /-- `expr`, with its value. -/
  | value (b : Bool)
  deriving DecidableEq, Repr

structure ExprParser where
  frames : List ExprFrame := []
  operand : ExprOperand := .start
  /-- `expr_result`. -/
  result : Bool := false
  /-- The first byte of `yylval` is not zero. -/
  yylval : Bool
  deriving DecidableEq, Repr

/-- The symbols that fit above the first state: one less than `YYMAXDEPTH` leaves
room for. -/
def maxSymbols : Nat := 9998

def ExprFrame.symbols : ExprFrame → Nat
  | .paren => 1
  | .binary _ _ => 2

def ExprOperand.symbols : ExprOperand → Nat
  | .start => 0
  | .bang | .attr _ _ | .value _ => 1
  | .cmp _ _ _ => 2

/-- The symbols on a stack of such frames, the expressions before included. -/
def symbolsOf (frames : List ExprFrame) : Nat := 1 + (frames.map ExprFrame.symbols).sum

def ExprParser.symbols (p : ExprParser) : Nat := symbolsOf p.frames + p.operand.symbols

def BoolOp.apply : BoolOp → Bool → Bool → Bool
  | .and, a, b => a && b
  | .or, a, b => a || b

/-- The first byte of `yylval` with a value in it is not zero. -/
def FlowValue.firstByte (s : ExprServices) : FlowValue → Bool
  | .otherType t => t != .unknown
  | .origin o => o != .unknown
  | .tunnelType t => t != .none
  | .bool b => b
  | .addrMac text | .addrIp text | .name text | .regex text => text != []
  | .number text => numberValue s text % 256 != 0

/-- The comparisons that may follow an attribute. -/
def FlowAttr.takes (attr : FlowAttr) (op : Cmp) : Bool :=
  match attr with
  | .ipProto | .vlanId | .localPort | .otherPort | .ndpiRiskScore | .ndpiRiskScoreClient
  | .ndpiRiskScoreServer | .sslVersion | .sslCipher | .ctMark => true
  | _ => op == .equal || op == .notEqual

/-- The value of the symbol that a rule is reduced to, and the result. `first`
is the value of the first symbol of the rule. -/
def ExprAction.run (first : Bool) : ExprAction → Except ParseStop (Bool × Bool)
  | .both b => .ok (b, b)
  | .resultOnly b => .ok (first, b)
  | .endless => .error .endless

namespace ExprParser

/-- One more symbol is put on the stack of `p`. -/
def shift (p : ExprParser) (next : ExprParser) : Except ParseStop ExprParser :=
  if p.symbols < maxSymbols then .ok next else .error .memoryExhausted

/-- The last symbol of a rule is put on the stack of `p`, and the rule reduced. -/
def reduce (p : ExprParser) (first : Bool) (action : Option ExprAction) (yylval : Bool) :
    Except ParseStop ExprParser :=
  match action with
  | none => .error .syntaxError
  | some action => do
    let p ← p.shift { p with yylval }
    let (b, result) ← action.run first
    .ok { p with operand := .value b, result }

/-- The value of an operand that nothing is added to, and the result. -/
def settle (atom : FlowAttr → ExprTest → Option ExprAction) (p : ExprParser) :
    Except ParseStop (Bool × Bool) :=
  match p.operand with
  | .value b => .ok (b, p.result)
  | .attr attr stale =>
    match atom attr .set with
    | some action => action.run stale
    | none => .error .syntaxError
  | _ => .error .syntaxError

/-- The operators above the last parenthesis are reduced, the last one first. -/
def unwind : List ExprFrame → Bool × Bool → List ExprFrame × Bool × Bool
  | .binary left op :: frames, (right, _) =>
    unwind frames (op.apply left right, op.apply left right)
  | frames, top => (frames, top)

/-- One token. -/
def feed (s : ExprServices) (atom : FlowAttr → ExprTest → Option ExprAction) (p : ExprParser) :
    FlowToken → Except ParseStop ExprParser
  | .flow attr =>
    match p.operand with
    | .start => p.shift { p with operand := .attr attr p.yylval }
    | .bang => p.reduce p.yylval (atom attr .unset) p.yylval
    | _ => .error .syntaxError
  | .cmp op =>
    match p.operand with
    | .attr attr stale =>
      if attr.takes op then p.shift { p with operand := .cmp attr op stale }
      else .error .syntaxError
    | _ => .error .syntaxError
  | .value v =>
    match p.operand with
    | .cmp attr op stale => p.reduce stale (atom attr (.compare op v)) (v.firstByte s)
    | _ => .error .syntaxError
  | .bang =>
    match p.operand with
    | .start => p.shift { p with operand := .bang }
    | _ => .error .syntaxError
  | .lparen =>
    match p.operand with
    | .start => p.shift { p with frames := .paren :: p.frames }
    | _ => .error .syntaxError
  | .bool op => do
    let (left, result) ← p.settle atom
    p.shift { p with frames := .binary left op :: p.frames, operand := .start, result }
  | .rparen => do
    match unwind p.frames (← p.settle atom) with
    | (.paren :: frames, value, result) =>
      let p := { p with frames := .paren :: frames, operand := .value value, result }
      p.shift { p with frames, result := value }
    | _ => .error .syntaxError
  | .semicolon => do
    match unwind p.frames (← p.settle atom) with
    | ([], value, result) =>
      let p := { p with frames := [], operand := .value value, result }
      p.shift { p with operand := .start }
    | _ => .error .syntaxError
  | .eof | .other => .error .syntaxError

/-- The tokens, one after the other. -/
def run (s : ExprServices) (atom : FlowAttr → ExprTest → Option ExprAction) (p : ExprParser)
    (tokens : List FlowToken) : Except ParseStop ExprParser :=
  tokens.foldlM (feed s atom) p

end ExprParser

/-- What `Parse` sets up from the flow; nothing if the lower map is unknown. -/
def exprView (s : ExprServices) (flow : ExprFlow) : Option ExprView :=
  match flow.lowerMap with
  | .unknown => none
  | .local_ => some {
      flow
      localMac := flow.lowerMac.getString s
      otherMac := flow.upperMac.getString s
      localIp := flow.lowerAddr
      otherIp := flow.upperAddr
      localPort := flow.lowerAddr.getPort
      otherPort := flow.upperAddr.getPort
      origin := match flow.origin with
        | .lower => .local_
        | .upper => .other
        | .unknown => .unknown }
  | .other => some {
      flow
      localMac := flow.upperMac.getString s
      otherMac := flow.lowerMac.getString s
      localIp := flow.upperAddr
      otherIp := flow.lowerAddr
      localPort := flow.upperAddr.getPort
      otherPort := flow.lowerAddr.getPort
      origin := match flow.origin with
        | .lower => .other
        | .upper => .local_
        | .unknown => .unknown }

theorem exprView_flow {s : ExprServices} {flow : ExprFlow} {view : ExprView}
    (known : exprView s flow = some view) : view.flow = flow := by
  cases side : flow.lowerMap <;> simp only [exprView, side] at known <;> cases known <;> rfl

/-- The tokens that the parser reads. -/
def exprTokens (text : List Char) : List FlowToken := (flowTokens text).takeWhile (· ≠ .eof)

/-- `yyparse`, with the rules for attributes and the first byte of `yylval`, which
is not initialized. -/
def yyparse (s : ExprServices) (atom : FlowAttr → ExprTest → Option ExprAction) (yylval : Bool)
    (tokens : List FlowToken) : Except ParseStop Bool := do
  let p ← ExprParser.run s atom { yylval } tokens
  if p.operand = .start ∧ p.frames = [] then .ok p.result else .error .syntaxError

/-- `ndFlowParser::Parse`. -/
def ndFlowParser.parse (s : ExprServices) (yylval : Bool) (flow : ExprFlow) (expr : List Char) :
    Except ParseStop Bool :=
  match exprView s flow with
  | none => .ok false
  | some view => yyparse s (exprAttr s view) yylval (exprTokens expr)

/-- An agent that knows one category and one risk. -/
def sampleServices : ExprServices where
  pton := ⟨fun _ => none, fun _ => none⟩
  ntop := fun _ => []
  lookupApp := fun tag => if tag = "games".toList then 5 else 0
  lookupProto := fun _ => 0
  riskLookup := fun name => if name = "weak".toList then 9 else 0
  outOfRange := fun _ => 2 ^ 64 - 1
  beyond := []
  pointerByte := fun _ _ => 0
  conntrackMdata := true
  workingRegex := true
  regexSearch := fun _ _ => some false

/-- A TCP flow of that category and at that risk. -/
def sampleFlow : ExprFlow where
  ipVersion := 4
  ipProtocol := 6
  lowerMap := .local_
  category := { application := 5 }
  risks := [9]

end NetifyAgent
