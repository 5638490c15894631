import Stela.Check.Names

/-!
# Types that programs write

`lowerType` finds the type that a type expression denotes. A named alias is
resolved when it is first met; an alias that is met again while its own target
is being resolved refers to itself, which is an error.
-/

namespace Stela.Check

/-- The type symbol that a name or a qualified name means. -/
def resolveTypeName (node : Node) (qualifier : Option Ident) (name : Ident) : Check SymbolId := do
  match (← state).meanings.typeNames.get? node.id with
  | some symbol => return symbol
  | none =>
    let entries ← match qualifier with
      | none => lookup name
      | some space => do
        match ← lookup space with
        | [] => raise (.undefinedType space.name) space.span
        | first :: _ =>
          match ← kindOf first with
          | .moduleSpace scope =>
            markUsed first
            entriesOf scope name.name
          | _ => raise (.notAType space.name) space.span
    match entries with
    | [] => raise (.undefinedType name.name) name.span
    | symbol :: _ =>
      if !(← kindOf symbol).isType then raise (.notAType name.name) name.span
      markUsed symbol
      setTypeName node.id symbol
      return symbol

section

variable (ensureAlias : SymbolId → Check Unit)

/-- The type that a type symbol names. -/
def typeOfSymbolWith (symbol : SymbolId) : Check TypeId := do
  match ← kindOf symbol with
  | .builtinType kind => return kind.typeId
  | .structType info => return info.type
  | .enumType info => return info.type
  | .hostType info => return info.type
  | .aliasType info =>
    ensureAlias symbol
    return info.type
  | _ => fault (.notAType symbol)

/-- The type known for a node, or the one found by `p`, which is then noted. -/
def rememberType (node : Node) (p : Check TypeId) : Check TypeId := do
  match (← state).meanings.types.get? node.id with
  | some type => return type
  | none =>
    let type ← p
    setType node.id type
    return type

mutual

def lowerWith : TypeExpr → Check TypeId
  | .named node qualifier name => rememberType node do
    typeOfSymbolWith ensureAlias (← resolveTypeName node qualifier name)
  | .array node element => rememberType node do
    intern (.array (← lowerWith element))
  | .func node params ret => rememberType node do
    let params ← lowerParams params
    let ret ← match ret with
      | some ret => lowerWith ret
      | none => pure Builtin.void.typeId
    intern (.func params ret)

def lowerParams : List TypeParam → Check (List (RefKind × TypeId))
  | [] => return []
  | ⟨passing, type⟩ :: rest => do
    let type ← lowerWith type
    let rest ← lowerParams rest
    return (passing, type) :: rest

end

end

def setAliasTarget (symbol : SymbolId) (target : AliasTarget) : Check Unit :=
  modifyKind symbol fun
    | .aliasType info => .aliasType { info with target := target }
    | kind => kind

/-- Resolves the target of an alias in the scope of its declaration, through at
most `bound` further aliases. -/
def ensureAliasWithin : Nat → SymbolId → Check Unit
  | 0, _ => fault .spent
  | bound + 1, id => do
    let entry ← symbol id
    match entry.kind with
    | .aliasType info =>
      match info.target with
      | .resolved _ => return
      | .resolving => raise (.recursiveAlias entry.name) entry.span
      | .unresolved written =>
        setAliasTarget id .resolving
        let target ← withCursor entry.scope (lowerWith (ensureAliasWithin bound) written)
        setAliasTarget id (.resolved target)
    | _ => return

/-- Resolves the target of an alias. Each alias on the way is another symbol. -/
def ensureAlias (id : SymbolId) : Check Unit := do
  ensureAliasWithin ((← tables).symbols.size + 1) id

def typeOfSymbol (id : SymbolId) : Check TypeId := typeOfSymbolWith ensureAlias id

/-- The type that a type expression denotes. -/
def lowerType (type : TypeExpr) : Check TypeId := lowerWith ensureAlias type

def lowerOptional : Option TypeExpr → Check (Option TypeId)
  | some type => do return some (← lowerType type)
  | none => return none

/-- The types of parameters. -/
def lowerSignature : List Param → Check (List ExprType)
  | [] => return []
  | param :: rest => do
    let type ← lowerType param.type
    let rest ← lowerSignature rest
    return ⟨type, param.mutability, param.passing⟩ :: rest

end Stela.Check
