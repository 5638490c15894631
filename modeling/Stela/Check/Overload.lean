import Stela.Check.Capture
import Stela.Check.Names

/-!
# Calls and overloads

A call picks the one candidate that accepts its arguments. The builtin functions
are generic in the element type of their array; a call fixes it. The result type
of a function without an annotation is found by analyzing its body, which
`analyze` does on demand; while that body is under analysis the type is pending.
-/

namespace Stela

namespace Check

/-- Fails if the type of an expression is the pending result of a function. -/
def requireKnown (type : ExprType) (span : Span) : Check ExprType := do
  match ← pendingOf type.type with
  | some func =>
    raise (.badReturn (.recursiveCallOutsideReturn (← nameOf func))) span
      (some "annotate the function's return type")
  | none => return type

/-- Whether values of a type can be printed. -/
def isPrintable (type : TypeId) : Check Bool := do
  match ← concreteTy type with
  | .builtin kind => return kind != .void
  | .array element => return (← builtinOf element) == some .char
  | _ => return false

/-- The parameters and the result of a builtin function for these arguments, if they fit. -/
def signature (kind : BuiltinFunc) (args : List ExprType) :
    Check (Option (List (RefKind × TypeId) × TypeId)) := do
  match kind, args with
  | .len, [array] =>
    return (← elementOf array.type).map fun _ =>
      ([(.value, array.type)], Builtin.uint.typeId)
  | .push, [array, _] =>
    return (← elementOf array.type).map fun element =>
      ([(.reference, array.type), (.value, element)], Builtin.void.typeId)
  | .pop, [array] =>
    return (← elementOf array.type).map fun element => ([(.reference, array.type)], element)
  | .print, [value] =>
    if ← isPrintable value.type then return some ([(.value, value.type)], Builtin.void.typeId)
    else return none
  | _, _ => return none

/-- The type of a builtin function for these arguments, if they fit. -/
def instantiate (kind : BuiltinFunc) (args : List ExprType) : Check (Option TypeId) := do
  match ← signature kind args with
  | some (params, ret) => return some (← intern (.func params ret))
  | none => return none

end Check

namespace Tables

/-- Whether arguments may be passed to parameters. A reference parameter takes
writable storage only. -/
def accepts (t : Tables) (params : List (RefKind × TypeId)) (args : List ExprType) : Bool :=
  params.length == args.length &&
    (params.zip args).all fun p =>
      (p.1.1 == .value || p.2.isAssignable) && t.same p.1.2 p.2.type

/-- As `accepts`, if all types that are read are there. -/
def accepts? (t : Tables) (params : List (RefKind × TypeId)) (args : List ExprType) :
    Option Bool :=
  pairwise? (fun param arg =>
    if param.1 == .value || arg.isAssignable then t.same? param.2 arg.type else some false)
    params args

end Tables

namespace Check

/-- Whether arguments may be passed to parameters. -/
def accepts (params : List (RefKind × TypeId)) (args : List ExprType) : Check Bool := do
  require ((← tables).accepts? params args) (.unreadable (args.map ExprType.type))

/-- The parameters that a candidate takes if it can be called at all. -/
def candidateParams (candidate : SymbolId) (args : List ExprType) :
    Check (Option (List (RefKind × TypeId))) := do
  match ← kindOf candidate with
  | .func info => return some (info.params.map fun p => (p.refKind, p.type))
  | .builtinFunc kind =>
    match ← instantiate kind args with
    | some type =>
      match ← tyOf type with
      | .func params _ => return some params
      | _ => return none
    | none => return none
  | .object info =>
    match ← concreteTy info.type.type with
    | .func params _ => return some params
    | _ => return none
  | _ => return none

/-- How many candidates can be called, and which of them accept the arguments. -/
def survivors (args : List ExprType) : List SymbolId → Check (Nat × List SymbolId)
  | [] => return (0, [])
  | candidate :: rest => do
    match ← candidateParams candidate args with
    | some params =>
      let accepted ← accepts params args
      let (callable, chosen) ← survivors args rest
      return (callable + 1, if accepted then candidate :: chosen else chosen)
    | none =>
      let builtin := match ← kindOf candidate with
        | .builtinFunc _ => 1
        | _ => 0
      let (callable, chosen) ← survivors args rest
      return (callable + builtin, chosen)

section

variable (analyze : SymbolId → Check Unit)

/-- The result type of a function, found on demand and pending meanwhile. -/
def funcReturn (func : SymbolId) : Check TypeId := do
  match ← funcOf func with
  | none => return Builtin.void.typeId
  | some info =>
    match info.ret, info.state with
    | some ret, _ => return ret
    | none, .unchecked =>
      analyze func
      return ((← funcOf func).bind FuncInfo.ret).getD Builtin.void.typeId
    | none, .inProgress => intern (.pending func)
    | none, .done => return Builtin.void.typeId

/-- The function type of a named function. -/
def funcType (func : SymbolId) : Check TypeId := do
  let params := ((← funcOf func).map FuncInfo.params).getD []
  let ret ← funcReturn analyze func
  intern (.func (params.map fun p => (p.refKind, p.type)) ret)

/-- The type of the one candidate that accepts the arguments. -/
def resolveOverload (node : Nat) (name : Ident) (candidates : List SymbolId)
    (args : List ExprType) : Check ExprType := do
  let (callable, accepting) ← survivors args candidates
  if callable = 0 then
    let text ← match candidates with
      | [] => pure name.name
      | first :: _ =>
        match ← kindOf first with
        | .object info => typeText info.type.type
        | kind => pure kind.describe
    raise (.notAFunction text) name.span
  match accepting with
  | [chosen] =>
    useSymbol node chosen
    let type ← match ← kindOf chosen with
      | .builtinFunc kind => do pure ((← instantiate kind args).getD Builtin.void.typeId)
      | .object info => do
        noteCapture node chosen
        pure info.type.type
      | _ => funcType analyze chosen
    return .value type
  | _ =>
    raise (.noMatchingOverload name.name (← typeTexts args) accepting.length) name.span

/-- The value that a name denotes, given the symbols it means. -/
def valueOf (node : Nat) (name : Ident) (entries : List SymbolId) : Check ExprType := do
  match entries with
  | [] => raise (.undefinedSymbol name.name) name.span
  | first :: rest =>
    match ← kindOf first with
    | .object info =>
      useSymbol node first
      noteCapture node first
      return info.type
    | .func _ =>
      if !rest.isEmpty then
        raise (.ambiguousReference name.name) name.span
          (some "an overloaded function can only be called")
      useSymbol node first
      let type ← funcType analyze first
      let ret := match ← tyOf type with
        | .func _ ret => ret
        | _ => type
      let _ ← requireKnown (.value ret) name.span
      return .value type
    | _ => raise (.notAValue name.name) name.span

end

end Check

end Stela
