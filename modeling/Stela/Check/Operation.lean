import Stela.Check.Expr

/-!
# Typed operations

What remains to be done for a call, a subscript, an operation, an array or an
assignment once its parts have types.
-/

namespace Stela.Check

/-- Notes the type of an expression, which a condition has to fit. -/
def record (node : Node) (context : ExprContext) (type : ExprType) : Check ExprType := do
  match context with
  | .condition => checkCondition type node.span
  | _ => pure ()
  update fun s => { s with exprTypes := s.exprTypes.insert node.id ⟨node.span, type⟩ }
  return type

/-- The type found by `p` for an expression at `span`, which has to be known. -/
def known (span : Span) (p : Check ExprType) : Check ExprType := do
  requireKnown (← p) span

/-- Records the transfers of the arguments that are passed by value. -/
def transferArgs : List (RefKind × TypeId) → List (Expr × ExprType) → Check Unit
  | (.value, type) :: params, (expr, source) :: args => do
    recordTransfer type .argument expr source
    transferArgs params args
  | (.reference, _) :: params, _ :: args => transferArgs params args
  | _, _ => return

/-- The result of a call whose callee and arguments are typed. -/
def finishCall (node : Node) (callee : Expr) (calleeType : ExprType)
    (args : List (Expr × ExprType)) : Check ExprType := do
  let calleeType ← requireKnown calleeType callee.span
  match ← concreteTy calleeType.type with
  | .func params ret =>
    let argTypes := args.map (·.2)
    if !(← accepts params argTypes) then
      raise (.noMatchingOverload (← typeText calleeType.type) (← typeTexts argTypes) 0) node.span
    transferArgs params args
    return .value ret
  | _ => raise (.notAFunction (← typeText calleeType.type)) callee.span

/-- The element type of what is subscripted. -/
def arrayElement (array : ExprType) (span : Span) : Check TypeId := do
  match ← concreteTy array.type with
  | .array element => return element
  | _ => raise (.invalidOperand "[]" [← typeText array.type]) span

def checkSubscript (array subscript : ExprType) (span : Span) : Check Unit := do
  if !(← builtinOf subscript.type).any Builtin.isIndex then
    raise (.invalidOperand "[]" [← typeText array.type, ← typeText subscript.type]) span
      (some "array subscripts are `sint` or `uint`")

/-- The type of a binary operation whose operands are typed. An arithmetic
operation on two pending operands is pending too. -/
def finishBinary (op : BinOp) (left right : ExprType) (span : Span) : Check ExprType := do
  let (left, right) ← settlePending left right span
  match ← pendingOf left.type with
  | some _ =>
    match op.opClass with
    | .bitwise | .arithmetic => return left
    | _ => return .value Builtin.bool.typeId
  | none => return .value (← checkBinary op left.type right.type span)

/-- The element type of an array that is expected. -/
def expectedElement (expected : Option TypeId) : Check (Option TypeId) := do
  match expected with
  | some type => elementOf type
  | none => return none

/-- The type of an empty array, which only its surroundings can tell. -/
def emptyArray (expected : Option TypeId) (span : Span) : Check ExprType := do
  let element ← expectedElement expected
  match expected.filter fun _ => element.isSome with
  | some type => return .value type
  | none =>
    raise (.cannotInfer "an empty array literal") span
      (some "give the variable a type, e.g. `let xs: [sint] = [];`")

/-- Checks an assignment to a place once both sides are typed. -/
def finishAssign (op : Option BinOp) (place : ExprType) (value : Expr) (assigned : ExprType)
    (span : Span) : Check Unit := do
  match op with
  | some op =>
    let result ← checkBinary op place.type assigned.type span
    if !(← same result place.type) then
      let texts := [← typeText place.type, ← typeText assigned.type]
      raise (.invalidOperand (op.spelling ++ "=") texts) span
  | none =>
    if !(← same place.type assigned.type) then mismatch place.type assigned.type value.span
    recordTransfer place.type .assign value assigned

end Stela.Check
