import Stela.Check.Closure
import Stela.Check.Operation

/-!
# Expressions, statements and bodies

Every expression is visited once and its type recorded. The visit goes down the
tree; the body of a named function is analyzed on demand, which `analyze` does
for the tree visit and `checkBody` ties together with it.
-/

namespace Stela

namespace Check

/-- Where the symbol of a variable is noted. -/
inductive BindingPlace where
  /-- A variable of a body, declared by a statement. -/
  | stmt (id : Nat)
  /-- A variable of a module, declared by a declaration. -/
  | decl (id : Nat)
deriving Repr, DecidableEq

/-- The type of a variable whose annotation and initializer are typed. -/
def bindingType (name : Ident) (declared : Option TypeId) (init : Option (Expr × ExprType)) :
    Check TypeId := do
  match declared, init with
  | some declared, some (expr, value) =>
    if !(← same declared value.type) then mismatch declared value.type expr.span
    return declared
  | some declared, none => return declared
  | none, some (_, value) => return value.type
  | none, none => raise (.cannotInfer s!"`{name.name}`") name.span

/-- Declares a variable and notes its symbol. -/
def declareVariable (place : BindingPlace) (name : Ident) (type : ExprType) : Check SymbolId := do
  match place with
  | .stmt id =>
    let symbol ← declareObject name type .body
    setLocalSymbol id symbol
    return symbol
  | .decl id =>
    let symbol ← declareObject name type .global
    setDeclSymbol id symbol
    return symbol

/-- Declares a variable once the types of its annotation and initializer are known, and records
how it gets its first value. -/
def finishBinding (place : BindingPlace) (binding : Binding) (declared : Option TypeId)
    (init : Option (Expr × ExprType)) : Check Unit := do
  let name := binding.name
  let type ← bindingType name declared init
  if ← isVoid type then raise (.mismatch "a value type" "void") name.span
  let symbol ← declareVariable place name (.named type binding.mutability)
  match init with
  | some (expr, value) => recordTransfer type .init expr value
  | none => update fun s => { s with defaults := s.defaults ++ [(symbol, type)] }

/-- The result type of a function, as far as its declaration tells. A function without a body
and without an annotation returns nothing. -/
def declaredResult (decl : FuncDecl) : Check (Option TypeId) := do
  match decl.sig.ret, decl.body with
  | some ret, _ => return some (← lowerType ret)
  | none, none => return some Builtin.void.typeId
  | none, some _ => return none

/-- The binding of a function, which may be a member. -/
def funcRow (decl : FuncDecl) (owner : Option SymbolId) (symbol : SymbolId) : Row :=
  match owner with
  | some _ => ⟨decl.name.name, symbol, decl.access, decl.kind == .static⟩
  | none => { name := decl.name.name, symbol := symbol }

/-- Lowers a function signature and binds the function in the current scope. -/
def declareFunc (decl : FuncDecl) (owner : Option SymbolId) : Check SymbolId := do
  let params ← lowerSignature decl.sig.params
  let ret ← declaredResult decl
  let info : FuncInfo := {
    decl, params, ret, owner
    state := if decl.body.isSome then .unchecked else .done
    bodyScope := none }
  let symbol ← newSymbol decl.name.name decl.name.span (.func info) (← cursor)
  setDeclSymbol decl.node.id symbol
  declareRow decl.name.span (funcRow decl owner symbol)
  return symbol

/-- Notes how far the body of a function was analyzed. -/
def setBodyState (func : SymbolId) (state : BodyState) : Check Unit :=
  modifyFunc func fun info => { info with state := state }

/-- Opens the body of a function: a member function sees its receiver as `self`. -/
def openBody (func : SymbolId) (info : FuncInfo) : Check Unit := do
  let decl := info.decl
  let scope ← enterScope .function (some func)
  modifyFunc func fun info => { info with bodyScope := some scope }
  match decl.kind, info.owner with
  | .method receiver, some owner =>
    let type ← typeOfSymbol owner
    let _ ← declareObject ⟨"self", decl.name.span⟩ (.named type receiver) .receiver
  | _, _ => pure ()
  declareParams (decl.sig.params.zip info.params)
  let ret := match info.ret with
    | some type => ReturnSlot.declared type
    | none => .deduced none
  pushFrame { symbol := func, kind := .function, scope := scope, ret := ret }

/-- Ends the body of a function and gives its result type. -/
def closeBody (decl : FuncDecl) (body : List Stmt) : Check TypeId := do
  let frame ← popFrame
  let ret ← finishBody frame body decl.name.span
  leaveScope
  return ret

section

variable (analyze : SymbolId → Check Unit)

mutual

/-- Types an expression and records the type. An expected type is what lets an
empty array be typed. -/
def visit (context : ExprContext) (expected : Option TypeId) : Expr → Check ExprType
  | .literal node value => do
    record node context (.value (← literalType value))
  | .ident node name => do
    record node context (← visitIdent analyze node name context)
  | .member node object name => do
    match ← staticPath object with
    | some target => record node context (← staticMember analyze node.id target name context)
    | none =>
      let object ← known object.span (visit .value none object)
      record node context (← instanceMember analyze node.id object name context)
  | .call node callee args => do
    let argTypes ← visitArgs args
    let calleeType ← visit (.callee (argTypes.map (·.2))) none callee
    record node context (← finishCall node callee calleeType argTypes)
  | .index node base index => do
    let array ← known base.span (visit .value none base)
    let element ← arrayElement array base.span
    let subscript ← known index.span (visit .value none index)
    checkSubscript array subscript index.span
    record node context ⟨element, array.mutability, array.refKind⟩
  | .unary node op operand => do
    let value ← known operand.span (visit .value none operand)
    record node context (← checkUnary op value node.span)
  | .binary node op lhs rhs => do
    let left ← visit .value none lhs
    let right ← visit .value none rhs
    record node context (← finishBinary op left right node.span)
  | .ternary node cond onTrue onFalse => do
    let _ ← visit .condition none cond
    let left ← visit .value none onTrue
    let right ← visit .value none onFalse
    let (left, right) ← settlePending left right onFalse.span
    if !(← same left.type right.type) then mismatch left.type right.type onFalse.span
    record node context (left.restrict right.mutability right.refKind)
  | .array node elements => do
    match elements with
    | [] => record node context (← emptyArray expected node.span)
    | first :: rest =>
      let element ← known first.span (visit .value (← expectedElement expected) first)
      recordTransfer element.type .init first element
      visitElements element.type rest
      record node context (.value (← intern (.array element.type)))
  | .closure node sig body => do
    openClosure node sig
    checkStmts body
    record node context (← closeClosure node body)

/-- Types the arguments of a call, each as a value. -/
def visitArgs : List Expr → Check (List (Expr × ExprType))
  | [] => return []
  | expr :: rest => do
    let type ← known expr.span (visit .value none expr)
    let rest ← visitArgs rest
    return (expr, type) :: rest

/-- Types the elements of an array after the first one. -/
def visitElements (element : TypeId) : List Expr → Check Unit
  | [] => return
  | expr :: rest => do
    let type ← known expr.span (visit .value (some element) expr)
    if !(← same element type.type) then mismatch element type.type expr.span
    recordTransfer element .init expr type
    visitElements element rest

def checkStmt : Stmt → Check Unit
  | .bind node binding => checkBinding (.stmt node.id) binding
  | .assign node target op value => do
    let place ← known target.span (visit .value none target)
    if !place.isAssignable then
      raise (.immutabilityViolation (← describePlace target place)) target.span
    let assigned ← known value.span (visit .value (some place.type) value)
    finishAssign op place value assigned node.span
  | .expr _ value => do
    let _ ← visit .value none value
  | .ifElse _ cond onTrue onFalse => do
    let _ ← visit .condition none cond
    let _ ← enterScope .block none
    checkStmts onTrue
    leaveScope
    match onFalse with
    | some onFalse =>
      let _ ← enterScope .block none
      checkStmts onFalse
      leaveScope
    | none => return
  | .whileLoop _ cond body => do
    let _ ← visit .condition none cond
    enterLoop
    let _ ← enterScope .block none
    checkStmts body
    leaveScope
    leaveLoop
  | .ret node value => do
    match ← frame? with
    | none => raise (.badReturn .outsideFunction) node.span
    | some frame =>
      match value with
      | some value =>
        let returned ← visit .value frame.ret.expected value
        checkReturned frame value returned node.span
      | none => checkBareReturn frame node.span
  | .breakLoop node => checkLoopControl "break" node.span
  | .continueLoop node => checkLoopControl "continue" node.span
  | .block _ body => do
    let _ ← enterScope .block none
    checkStmts body
    leaveScope
  | .func _ decl => do
    let func ← declareFunc decl none
    analyze func

def checkStmts : List Stmt → Check Unit
  | [] => return
  | stmt :: rest => do
    checkStmt stmt
    checkStmts rest

/-- A variable of a body or of a module. -/
def checkBinding (place : BindingPlace) : Binding → Check Unit
  | ⟨mutability, name, type, init⟩ => do
    let declared ← lowerOptional type
    let typed ← match init with
      | some expr => do
        let value ← known expr.span (visit .value declared expr)
        pure (some (expr, value))
      | none => pure none
    finishBinding place ⟨mutability, name, type, init⟩ declared typed

end

end

/-- Analyzes the body of a function that was not analyzed yet, through at most
`bound` functions that need each other. -/
def checkBody : Nat → SymbolId → Check Unit
  | 0, _ => fault .spent
  | bound + 1, func => do
    match ← funcOf func with
    | none => return
    | some info =>
      if info.state != .unchecked then return
      match info.decl.body with
      | none => setBodyState func .done
      | some body =>
        setBodyState func .inProgress
        let ret ← withCursor (← symbol func).scope do
          openBody func info
          checkStmts (checkBody bound) body
          closeBody info.decl body
        modifyFunc func fun info => { info with ret := some ret, state := .done }

end Check

end Stela
