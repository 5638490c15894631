import Stela.Check.TypeRef

/-!
# Type declarations

Structs, enums, aliases and host types are first declared and then completed.
Declaring gives each a symbol and a type, so that the types of a module may
refer to each other in any order; completing finds the types of the parts.
-/

namespace Stela.Check

/-- A symbol for a declared type together with the type itself. The details of
the symbol speak of the type and are set once it is known. -/
def newTypeSymbol (name : Ident) (ty : SymbolId → Ty) (kind : TypeId → SymbolKind) :
    Check SymbolId := do
  let symbol ← newSymbol name.name name.span (kind Builtin.void.typeId) (← cursor)
  let type ← intern (ty symbol)
  modifyKind symbol fun _ => kind type
  return symbol

/-- Opens the scope of the members or cases of a type and returns from it. -/
def newMemberScope (kind : ScopeKind) : Check ScopeId := do
  let scope ← enterScope kind none
  leaveScope
  return scope

/-- Declares the cases of an enum. A case without a value follows the one before
it; values wrap around. -/
def declareCases (owner : SymbolId) (scope : ScopeId) : Int64 → List EnumCase → Check Unit
  | _, [] => return
  | next, enumCase :: rest => do
    let value := enumCase.value.getD next
    let symbol ← newSymbol enumCase.name.name enumCase.name.span (.enumCase ⟨owner, value⟩) scope
    withCursor scope (declare enumCase.name symbol)
    declareCases owner scope (value + 1) rest

/-- Binds the symbol of a declaration in the current scope. -/
def bindDecl (node : Node) (name : Ident) (symbol : SymbolId) : Check Unit := do
  setDeclSymbol node.id symbol
  declare name symbol

/-- Declares a type; other declarations are left alone. -/
def declareType : Decl → Check Unit
  | .structType node name _ => do
    let scope ← newMemberScope .structScope
    let symbol ← newTypeSymbol name .structType fun type => .structType ⟨scope, [], type⟩
    setOwner scope symbol
    bindDecl node name symbol
  | .enumType node name cases => do
    let scope ← newMemberScope .enumScope
    let symbol ← newTypeSymbol name .enumType fun type => .enumType ⟨scope, type⟩
    setOwner scope symbol
    declareCases symbol scope 0 cases
    bindDecl node name symbol
  | .aliasType node name target strong => do
    let symbol ← newTypeSymbol name .aliasType fun type =>
      .aliasType ⟨strong, .unresolved target, type⟩
    bindDecl node name symbol
  | .hostType node name size align _ => do
    let symbol ← newTypeSymbol name .hostType fun type => .hostType ⟨size, align, [], type⟩
    bindDecl node name symbol
  | .func _ | .global .. => return

/-- The symbol of a declaration that was declared before. -/
def declSymbol (node : Node) : Check SymbolId := do
  require ((← state).meanings.decls.get? node.id) (.undeclared node.id)

/-- The scope of the members of a struct. -/
def memberScope (owner : SymbolId) : Check ScopeId := do
  match ← kindOf owner with
  | .structType info => return info.scope
  | _ => cursor

/-- Declares the fields among the members of a struct, the first of them at
position `index`. -/
def declareFields (owner : SymbolId) (scope : ScopeId) : Nat → List Member → Check (List SymbolId)
  | _, [] => return []
  | index, .func _ :: rest => declareFields owner scope index rest
  | index, .field field :: rest => do
    let type ← lowerType field.type
    let name := field.name
    let symbol ← newSymbol name.name name.span (.field ⟨owner, type, field.access, index⟩) scope
    withCursor scope (declareRow name.span ⟨name.name, symbol, field.access, false⟩)
    let rest ← declareFields owner scope (index + 1) rest
    return symbol :: rest

/-- Finds the types of the fields of a host type, whose names have to differ
from each other and from those in `seen`. -/
def lowerHostFields (owner : String) : List String → List HostField → Check (List HostSlot)
  | _, [] => return []
  | seen, field :: rest => do
    let name := field.name
    if seen.contains name.name then raise (.duplicateField owner name.name) name.span
    let type ← lowerType field.type
    let rest ← lowerHostFields owner (name.name :: seen) rest
    return ⟨name.name, type, field.offset⟩ :: rest

/-- Finds the types of the parts of a declared type. -/
def completeType : Decl → Check Unit
  | .aliasType node .. => do
    ensureAlias (← declSymbol node)
  | .structType node _ members => do
    let owner ← declSymbol node
    let fields ← declareFields owner (← memberScope owner) 0 members
    modifyKind owner fun
      | .structType info => .structType { info with fields := fields }
      | kind => kind
  | .hostType node name _ _ fields => do
    let symbol ← declSymbol node
    let fields ← lowerHostFields name.name [] fields
    modifyKind symbol fun
      | .hostType info => .hostType { info with fields := fields }
      | kind => kind
  | .func _ | .enumType .. | .global .. => return

end Stela.Check
