import Stela.Check.Result

/-!
# Closures

A closure is a symbol with a scope of its own, in which its parameters are
declared before its body is analyzed. Its type is the function type of its
parameters and its result.
-/

namespace Stela.Check

/-- Declares parameters in the current scope. -/
def declareParams : List (Param × ExprType) → Check Unit
  | [] => return
  | (param, type) :: rest => do
    let symbol ← declareObject param.name (.named type.type param.mutability) .param
    setParamSymbol param.type.node.id symbol
    declareParams rest

/-- Declares a closure and opens its body. -/
def openClosure (node : Node) (sig : Signature) : Check Unit := do
  let params ← lowerSignature sig.params
  let declared ← lowerOptional sig.ret
  let parent := match ← frame? with
    | some frame => if frame.kind = .closure then some frame.symbol else none
    | none => none
  let info : ClosureInfo := {
    params, ret := declared, captures := [], parent, scope := ← cursor }
  let closure ← newSymbol "<closure>" node.span (.closure info) (← cursor)
  useSymbol node.id closure
  update fun s => { s with closures := s.closures ++ [closure] }
  let scope ← enterScope .closure (some closure)
  modifyClosure closure fun info => { info with scope := scope }
  declareParams (sig.params.zip params)
  let ret := match declared with
    | some type => ReturnSlot.declared type
    | none => .deduced none
  pushFrame { symbol := closure, kind := .closure, scope := scope, ret := ret }

/-- Ends the body of the innermost closure and gives its type. -/
def closeClosure (node : Node) (body : List Stmt) : Check ExprType := do
  let frame ← popFrame
  let ret ← finishBody frame body node.span
  leaveScope
  modifyClosure frame.symbol fun info => { info with ret := some ret }
  let info ← require ((← tables).symbols.closure? frame.symbol) (.notAClosure frame.symbol)
  return .value (← intern (.func (info.params.map fun p => (p.refKind, p.type)) ret))

end Stela.Check
