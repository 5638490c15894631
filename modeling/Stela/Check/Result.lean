import Stela.Check.Expr
import Stela.Syntax.Paths

/-!
# Result types of bodies

A body without an annotated result type returns the type of its first `return`
whose type is known, or `void` when it returns no value. When a body ends, what
was assumed about its result is checked and its pending type is replaced in
every expression typed so far.
-/

namespace Stela

namespace CheckState

/-- The type of an expression once the pending type of a function is known. A
function type with that result is entered anew. -/
def settled (t : TypeTable) (pending ret : TypeId) (type : ExprType) : ExprType × TypeTable :=
  if type.type == pending then ({ type with type := ret }, t)
  else
    match t.get? type.type with
    | some (.func params result) =>
      if result == pending then
        let (id, t) := t.intern (.func params ret)
        ({ type with type := id }, t)
      else (type, t)
    | _ => (type, t)

/-- Replaces a pending type in the types of the given expressions, in order. -/
def settleExprs (pending ret : TypeId) (s : CheckState) (exprs : List Nat) : CheckState :=
  exprs.foldl (fun s id =>
    match s.exprTypes.get? id with
    | none => s
    | some typing =>
      let (type, types) := settled s.tables.types pending ret typing.type
      { s with tables.types := types, exprTypes := s.exprTypes.insert id { typing with type } }) s

/-- Replaces the pending type of a function by its result type. -/
def resolvePending (s : CheckState) (func : SymbolId) (ret : TypeId) : CheckState :=
  match s.tables.types.find? (.pending func) with
  | none => s
  | some pending => settleExprs pending ret s (s.exprTypes.toList.map (·.1))

end CheckState

namespace Check

/-- Checks what was assumed about the result of a function. -/
def verifyAssumptions (func : SymbolId) (ret : TypeId) : Check Unit := do
  let (mine, others) := (← state).assumptions.partition fun a => a.func == func
  update fun s => { s with assumptions := others }
  mine.forM fun a => do
    if !(← same a.type ret) then mismatch ret a.type a.span

/-- Replaces the pending type of a function by its result type in the types of all expressions. -/
def replacePending (func : SymbolId) (ret : TypeId) : Check Unit := do
  let s ← state
  if (s.tables.types.find? (.pending func)).isSome then
    s.exprTypes.toList.forM fun entry => do
      let _ ← tyOf entry.2.type.type
  update fun s => s.resolvePending func ret

/-- Settles the result type of a finished body. -/
def finishBody (frame : Frame) (body : List Stmt) (span : Span) : Check TypeId := do
  let name ← nameOf frame.symbol
  let ret ← match frame.ret.expected with
    | some type => pure type
    | none =>
      if !frame.pendingReturns.isEmpty then
        raise (.badReturn (.undeducibleRecursion name)) span
          (some "annotate the return type or add a non-recursive `return`")
      else pure Builtin.void.typeId
  frame.pendingReturns.forM fun call => do
    if call.callee != frame.symbol then noteAssumption call.callee ret call.span
  if !(← isVoid ret) && !stmtsReturn body then
    raise (.badReturn (.notAllPathsReturn name)) span
  verifyAssumptions frame.symbol ret
  replacePending frame.symbol ret
  return ret

/-- Fixes the result type of the innermost body. -/
def deduceReturn (type : TypeId) : Check Unit := do
  match ← frame? with
  | none => return
  | some frame =>
    modifyFrame fun frame => { frame with ret := .deduced (some type) }
    match frame.kind with
    | .function => modifyFunc frame.symbol fun info => { info with ret := some type }
    | .closure => modifyClosure frame.symbol fun info => { info with ret := some type }

def checkLoopControl (keyword : String) (span : Span) : Check Unit := do
  match ← frame? with
  | some frame => if frame.loopDepth = 0 then raise (.loopControl keyword) span
  | none => raise (.loopControl keyword) span

def enterLoop : Check Unit := modifyFrame fun frame => { frame with loopDepth := frame.loopDepth + 1 }

def leaveLoop : Check Unit := do
  match ← frame? with
  | some frame =>
    if frame.loopDepth = 0 then fault .loopDepth
    modifyFrame fun frame => { frame with loopDepth := frame.loopDepth - 1 }
  | none => return

/-- What is known about a returned value, before it is checked against the body. -/
def checkReturned (frame : Frame) (value : Expr) (returned : ExprType) (span : Span) :
    Check Unit := do
  let expected := frame.ret.expected
  match ← pendingOf returned.type with
  | some func =>
    match expected with
    | some type => noteAssumption func type span
    | none =>
      modifyFrame fun frame =>
        { frame with pendingReturns := frame.pendingReturns ++ [⟨func, span⟩] }
  | none =>
    match expected with
    | some type =>
      if (← isVoid type) && !(← isVoid returned.type) then
        raise (.badReturn (.valueInVoid (← nameOf frame.symbol))) value.span
      if !(← same type returned.type) then mismatch type returned.type value.span
      if !(← isVoid type) then recordTransfer type .ret value returned
    | none =>
      deduceReturn returned.type
      if !(← isVoid returned.type) then recordTransfer returned.type .ret value returned

/-- A `return` without a value. -/
def checkBareReturn (frame : Frame) (span : Span) : Check Unit := do
  match frame.ret.expected with
  | some type =>
    if !(← isVoid type) then
      raise (.badReturn (.missingValue (← nameOf frame.symbol))) span
  | none => deduceReturn Builtin.void.typeId

end Check

end Stela
