import Stela.Check.Overload
import Stela.Check.Transfer
import Stela.Check.TypeRef

/-!
# Rules for single expressions

The parts of expression and statement analysis that visit no subexpression:
members, operators, conditions, and the settlement of pending types. A pending
operand or branch takes the type of its other side, which is noted as an
assumption about the function it came from.
-/

namespace Stela

/-- What the surrounding expression or statement does with an expression. -/
inductive ExprContext where
  | value
  /-- Calls it with arguments of these types. -/
  | callee (args : List ExprType)
  /-- Tests it; a function may be tested for being set. -/
  | condition
deriving Repr

/-- The classes of binary operators. -/
inductive OpClass where
  | logic | bitwise | equality | ordering | arithmetic
deriving Repr, DecidableEq

def BinOp.opClass : BinOp → OpClass
  | .and | .or => .logic
  | .bitAnd | .bitOr | .bitXor | .shl | .shr => .bitwise
  | .eq | .ne => .equality
  | .lt | .le | .gt | .ge => .ordering
  | .add | .sub | .mul | .div | .rem => .arithmetic

namespace Tables

/-- Whether values of a type compare with `==`. -/
def isComparable (t : Tables) (type : TypeId) : Bool :=
  match t.types.get? (t.representation type) with
  | some (.builtin kind) => kind != .void
  | some (.enumType _) => true
  | _ => false

/-- Whether an operator takes a left operand of a type. -/
def operandFits (t : Tables) (op : BinOp) (type : TypeId) : Bool :=
  match op.opClass with
  | .logic => t.builtin? type == some .bool
  | .bitwise => (t.builtin? type).any Builtin.isBitwise
  | .equality => t.isComparable type
  | .ordering => (t.builtin? type).any Builtin.isArithmetic
  | .arithmetic => (t.builtin? type).any Builtin.isArithmetic

end Tables

/-- The type of an operation on operands of a type. -/
def BinOp.resultType (op : BinOp) (operand : TypeId) : TypeId :=
  match op.opClass with
  | .bitwise | .arithmetic => operand
  | .logic | .equality | .ordering => Builtin.bool.typeId

namespace Check

def literalType : Literal → Check TypeId
  | .int _ .plain => return Builtin.sint.typeId
  | .int _ .uint => return Builtin.uint.typeId
  | .int _ .byte => return Builtin.byte.typeId
  | .real _ => return Builtin.real.typeId
  | .char _ => return Builtin.char.typeId
  | .bool _ => return Builtin.bool.typeId
  | .str _ => intern (.array Builtin.char.typeId)

/-- Conditions take `bool`, or a function tested for being set. -/
def checkCondition (type : ExprType) (span : Span) : Check Unit := do
  let type ← requireKnown type span
  match ← concreteTy type.type with
  | .builtin .bool => return
  | .func .. => return
  | _ => mismatch Builtin.bool.typeId type.type span

def noteAssumption (func : SymbolId) (type : TypeId) (span : Span) : Check Unit :=
  update fun s => { s with assumptions := s.assumptions ++ [⟨func, type, span⟩] }

/-- Lets a pending side of a pair take the type of the other side. -/
def settlePending (a b : ExprType) (span : Span) : Check (ExprType × ExprType) := do
  match ← pendingOf a.type, ← pendingOf b.type with
  | some func, none =>
    noteAssumption func b.type span
    return ({ a with type := b.type }, b)
  | none, some func =>
    noteAssumption func a.type span
    return (a, { b with type := a.type })
  | _, _ => return (a, b)

/-- Whether an operator takes a left operand of a type. -/
def operandFits (op : BinOp) (type : TypeId) : Check Bool := do
  let _ ← concreteTy type
  if op.opClass = .equality then
    let _ ← representationTy type
  return (← tables).operandFits op type

/-- The type of a binary operation; both operands have the same type. -/
def checkBinary (op : BinOp) (lhs rhs : TypeId) (span : Span) : Check TypeId := do
  let valid ← if ← operandFits op lhs then same lhs rhs else pure false
  if valid then return op.resultType lhs
  else raise (.invalidOperand op.spelling [← typeText lhs, ← typeText rhs]) span

/-- The type of a unary operation. -/
def checkUnary (op : UnaryOp) (operand : ExprType) (span : Span) : Check ExprType := do
  let kind ← builtinOf operand.type
  let valid : Bool := match op with
    | .neg => kind.any Builtin.isSigned
    | .not => kind == some .bool
    | .bitNot => kind.any Builtin.isBitwise
  if valid then return .value operand.type
  else raise (.invalidOperand op.spelling [← typeText operand.type]) span

/-! ## Members -/

def noMember {α : Type} (owner : String) (member : Ident) : Check α :=
  raise (.noField owner member.name) member.span

def memberAccess {α : Type} (owner : SymbolId) (member : Ident) (reason : String) : Check α := do
  raise (.memberAccess (← nameOf owner) member.name reason) member.span

/-- The struct whose member function is the innermost function under analysis. -/
def currentStruct : Check (Option SymbolId) := do
  match (← state).frames.find? fun frame => frame.kind == .function with
  | some frame => return (← funcOf frame.symbol).bind FuncInfo.owner
  | none => return none

/-- Fails if a private member is used from outside its struct. -/
def checkAccess (owner : SymbolId) (row : Row) (member : Ident) : Check Unit := do
  if row.access == .ownerOnly && (← currentStruct) != some owner then
    memberAccess owner member "it is private"

/-- The members of a struct with a name. -/
def memberRows (owner : SymbolId) (member : Ident) : Check (List Row) := do
  match ← kindOf owner with
  | .structType info => return (← membersOf info.scope).filter fun row => row.name == member.name
  | _ => return []

/-- The function that a node means, if it means one. -/
def funcMeant (node : Nat) : Check (Option FuncInfo) := do
  match (← state).meanings.exprs.get? node with
  | some symbol => funcOf symbol
  | none => return none

/-- The object that a node means, if it means one. -/
def objectMeant (node : Nat) : Check (Option ObjectInfo) := do
  match (← state).meanings.exprs.get? node with
  | some symbol => objectOf symbol
  | none => return none

section

variable (analyze : SymbolId → Check Unit)

/-- A value or a callee out of symbols that a name means. -/
def useEntries (node : Nat) (name : Ident) (entries : List SymbolId) (context : ExprContext) :
    Check ExprType :=
  match context with
  | .callee args => resolveOverload analyze node name entries args
  | .value | .condition => valueOf analyze node name entries

/-- A name that stands for itself. -/
def visitIdent (node : Node) (name : String) (context : ExprContext) : Check ExprType := do
  let ident : Ident := ⟨name, node.span⟩
  match context with
  | .callee args =>
    match (← searching).gather name with
    | [] =>
      let _ ← lookupRequired ident
      resolveOverload analyze node.id ident [] args
    | candidates => resolveOverload analyze node.id ident candidates args
  | .value | .condition => valueOf analyze node.id ident (← lookupRequired ident)

/-- A member of a module or of a type. -/
def staticMember (node : Nat) (target : SymbolId) (member : Ident) (context : ExprContext) :
    Check ExprType := do
  match ← kindOf target with
  | .moduleSpace scope =>
    match ← entriesOf scope member.name with
    | [] => noMember (← nameOf target) member
    | entries => useEntries analyze node member entries context
  | _ =>
    let type ← typeOfSymbol target
    match ← concreteTy type with
    | .enumType enumeration =>
      match ← kindOf enumeration with
      | .enumType info =>
        match (← casesOf info.scope).find? fun row => row.name == member.name with
        | none => noMember (← typeText type) member
        | some row =>
          useSymbol node row.symbol
          match context with
          | .callee _ => raise (.notAFunction (← typeText type)) member.span
          | _ => return .value type
      | _ => noMember (← typeText type) member
    | .structType owner =>
      let rows ← memberRows owner member
      if rows.isEmpty then noMember (← typeText type) member
      match rows.filter Row.isStatic with
      | [] => memberAccess owner member "it is not static and needs a value"
      | first :: rest =>
        checkAccess owner first member
        useEntries analyze node member (first.symbol :: rest.map Row.symbol) context
    | _ => noMember (← typeText type) member

/-- A field or member function reached through a value. -/
def instanceMember (node : Nat) (object : ExprType) (member : Ident) (context : ExprContext) :
    Check ExprType := do
  match ← concreteTy object.type with
  | .structType owner =>
    let rows ← memberRows owner member
    match rows with
    | [] => noMember (← typeText object.type) member
    | first :: _ =>
      checkAccess owner first member
      match ← kindOf first.symbol with
      | .field info =>
        useSymbol node first.symbol
        return ⟨info.type, object.mutability, object.refKind⟩
      | _ =>
        match (rows.filter fun row => !row.isStatic).map Row.symbol with
        | [] => memberAccess owner member "it is static and is reached through the type name"
        | methods =>
          match context with
          | .callee args =>
            let callee ← resolveOverload analyze node member methods args
            let writes := (← funcMeant node).any fun info => info.decl.kind == .method .mutable
            if writes && !object.isAssignable then
              raise (.immutabilityViolation
                s!"the receiver of `{member.name}`, a `var func`, through an immutable value")
                member.span
            return callee
          | _ => memberAccess owner member "a member function can only be called"
  | .hostType owner =>
    let field : Option HostSlot := match ← kindOf owner with
      | .hostType info => info.fields.find? fun f => f.name == member.name
      | _ => none
    match field with
    | some field => return ⟨field.type, object.mutability, object.refKind⟩
    | none => noMember (← typeText object.type) member
  | _ => noMember (← typeText object.type) member

end

/-- The type or module that an expression names, if it names one. -/
def staticPath : Expr → Check (Option SymbolId)
  | .ident node name => do
    match ← lookup ⟨name, node.span⟩ with
    | [] => return none
    | symbol :: _ => finish node.id symbol
  | .member node object member => do
    match ← staticPath object with
    | none => return none
    | some parent =>
      match ← kindOf parent with
      | .moduleSpace scope =>
        match ← entriesOf scope member.name with
        | [] => return none
        | symbol :: _ => finish node.id symbol
      | _ => return none
  | _ => return none
where
  /-- Keeps a symbol that is a type or a module. -/
  finish (node : Nat) (symbol : SymbolId) : Check (Option SymbolId) := do
    let usable := match ← kindOf symbol with
      | .moduleSpace _ => true
      | kind => kind.isType
    if usable then
      useSymbol node symbol
      return some symbol
    else return none

/-- How an error names the place that an assignment cannot write to. -/
def describePlace (target : Expr) (place : ExprType) : Check String := do
  if place.refKind == .value then return "a temporary value"
  match target with
  | .ident node name =>
    let isParam := (← objectMeant node.id).any fun info => info.origin == .param
    let what := if isParam then "parameter" else "variable"
    return s!"{what} `{name}`, which is not `var`"
  | _ => return "a location reached through a `let` binding"

end Check

end Stela
