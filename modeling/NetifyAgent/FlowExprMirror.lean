import NetifyAgent.FlowParser

/-! An expression cannot tell a flow from its mirror image. Every rule reads the
two ends through the view that `Parse` sets up, and the other fields do not
depend on the side that was seen first. -/
namespace NetifyAgent

/-- The same flow seen from the other end. -/
def LowerMap.mirror : LowerMap → LowerMap
  | .unknown => .unknown
  | .local_ => .other
  | .other => .local_

def Origin.mirror : Origin → Origin
  | .unknown => .unknown
  | .lower => .upper
  | .upper => .lower

/-- The lower and the upper end exchanged, all other fields equal. -/
def ExprFlow.mirror (flow : ExprFlow) : ExprFlow :=
  { flow with
    lowerMac := flow.upperMac
    upperMac := flow.lowerMac
    lowerAddr := flow.upperAddr
    upperAddr := flow.lowerAddr
    lowerMap := flow.lowerMap.mirror
    origin := flow.origin.mirror }

theorem ExprFlow.mirror_mirror (flow : ExprFlow) : flow.mirror.mirror = flow := by
  have map : flow.lowerMap.mirror.mirror = flow.lowerMap := by cases flow.lowerMap <;> rfl
  have origin : flow.origin.mirror.mirror = flow.origin := by cases flow.origin <;> rfl
  simp only [ExprFlow.mirror, map, origin]

/-- The view of the mirror image shows the same local and the same other end. -/
theorem exprView_mirror (s : ExprServices) (flow : ExprFlow) :
    exprView s flow.mirror =
      (exprView s flow).map fun view => { view with flow := flow.mirror } := by
  cases known : flow.lowerMap with
  | unknown => simp [exprView, ExprFlow.mirror, known, LowerMap.mirror]
  | local_ =>
    cases origin : flow.origin <;>
      simp [exprView, ExprFlow.mirror, known, origin, LowerMap.mirror, Origin.mirror]
  | other =>
    cases origin : flow.origin <;>
      simp [exprView, ExprFlow.mirror, known, origin, LowerMap.mirror, Origin.mirror]

/-- No rule reads a field of the lower or the upper end. -/
theorem exprAttr_mirror (s : ExprServices) (view : ExprView) (attr : FlowAttr) (test : ExprTest) :
    exprAttr s { view with flow := view.flow.mirror } attr test = exprAttr s view attr test := by
  cases attr <;> rfl

/-- **Mirror invariance.** An expression has the same result on a flow and on its
mirror image, from the same first byte of `yylval`. -/
theorem parse_mirror (s : ExprServices) (yylval : Bool) (flow : ExprFlow) (expr : List Char) :
    ndFlowParser.parse s yylval flow.mirror expr = ndFlowParser.parse s yylval flow expr := by
  simp only [ndFlowParser.parse, exprView_mirror]
  cases known : exprView s flow with
  | none => rfl
  | some view =>
    have same : exprAttr s { view with flow := flow.mirror } = exprAttr s view := by
      rw [← exprView_flow known]
      exact funext fun attr => funext fun test => exprAttr_mirror s view attr test
    simp only [Option.map_some, same]

end NetifyAgent
