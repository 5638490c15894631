import Stela.Check.State

/-!
# Declaring and finding names

A name is bound in the current scope unless it clashes with a binding there.
Functions of one name clash when their parameters agree. A name is found along
the search path of the current scope, and only if nothing on it binds the name,
in the direct imports of the current module.
-/

namespace Stela

/-- Whether two symbols may not share a name in one scope. -/
def Tables.conflicts (t : Tables) (new existing : SymbolId) : Bool :=
  match t.symbols.kind? new, t.symbols.kind? existing with
  | some (.func a), some (.func b) =>
    a.params.length == b.params.length &&
      (a.params.zip b.params).all fun p =>
        p.1.refKind == p.2.refKind && t.same p.1.type p.2.type
  | _, _ => true

/-- As `conflicts`, if all that is read is there. -/
def Tables.conflicts? (t : Tables) (new existing : SymbolId) : Option Bool := do
  match ← t.symbols.kind? new, ← t.symbols.kind? existing with
  | .func a, .func b =>
    pairwise? (fun p q => if p.refKind == q.refKind then t.same? p.type q.type else some false)
      a.params b.params
  | _, _ => return true

namespace Check

/-- Whether warnings leave a name alone. -/
def isSilenced (name : String) : Bool := name.toList.head? == some '_'

/-- Warns that a new symbol hides one of an enclosing scope. Overloads extend
an enclosing set of functions rather than hide it. -/
def warnShadow (name : Ident) (symbol hidden : SymbolId) : Check Unit := do
  let old ← Check.symbol hidden
  let bothOverloadable := (← kindOf symbol).isOverloadable && old.kind.isOverloadable
  if !(← settings).warnShadow || isSilenced name.name || bothOverloadable then return
  report {
    severity := .warning
    code := some "W0002"
    message := s!"`{name.name}` shadows an outer declaration"
    span := name.span
    labels := if old.span.isDummy then [] else [{ span := old.span, message := "shadowed declaration" }] }

/-- The error of a name that is bound already. -/
def clash {α : Type} (name : Ident) (existing : SymbolId) : Check α := do
  let scope ← scopeAt (← cursor)
  let previous := (← symbol existing).span
  let related := if previous.isDummy then none else some (previous, "previously defined here")
  let kind ← match scope.kind with
    | .structScope | .enumScope => do
      let owner ← match scope.owner with
        | some owner => nameOf owner
        | none => pure "<anonymous>"
      pure (TypeErrorKind.duplicateField owner name.name)
    | _ => pure (TypeErrorKind.redefinition name.name)
  raise kind name.span none related

/-- Goes on if all scopes and symbols are there that a new row is compared with. -/
def requireComparable (row : Row) : Check Unit := do
  let s ← state
  let _ ← require (s.scopes.path? s.scopes.cursor) (.missingScope s.scopes.cursor)
  let _ ← require ((s.scopes.entries s.scopes.cursor row.name).findM?
    (s.tables.conflicts? row.symbol)) (.missingSymbol row.symbol)

/-- Binds a row in the current scope. -/
def declareRow (span : Span) (row : Row) : Check Unit := do
  requireComparable row
  let s ← state
  let name : Ident := ⟨row.name, span⟩
  match s.scopes.insert row (s.tables.conflicts row.symbol) with
  | .ok (hidden, scopes) =>
    update fun s => { s with scopes := scopes }
    match hidden with
    | some hidden => warnShadow name row.symbol hidden
    | none => pure ()
  | .error existing => clash name existing

def declare (name : Ident) (symbol : SymbolId) : Check Unit :=
  declareRow name.span { name := name.name, symbol := symbol }

/-- Declares an object in the current scope. -/
def declareObject (name : Ident) (type : ExprType) (origin : Origin) : Check SymbolId := do
  let symbol ← newSymbol name.name name.span (.object ⟨type, origin⟩) (← cursor)
  declare name symbol
  return symbol

end Check

namespace CheckState

/-- The module that a scope lies in. -/
def moduleOf? (s : CheckState) (scope : ScopeId) : Option ModuleEntry :=
  (s.scopes.path scope).findSome? fun id => s.modules.find? fun m => m.scope == id

/-- The direct imports that are searched from a scope. -/
def importsOf (s : CheckState) (scope : ScopeId) : List ScopeId :=
  match s.moduleOf? scope with
  | some m => m.imports
  | none => []

/-- What a name means at the cursor: nothing, some symbols, or too much. -/
inductive Found where
  | nothing
  | symbols (entries : List SymbolId)
  | ambiguous
deriving Repr, DecidableEq

/-- Finds a name. Two imports that bind it make it ambiguous. -/
def find (s : CheckState) (name : String) : Found :=
  match s.scopes.lookup s.scopes.cursor name with
  | some (_, entries) => .symbols entries
  | none =>
    match ((s.importsOf s.scopes.cursor).map fun i => s.scopes.entries i name).filter
        (fun entries => !entries.isEmpty) with
    | [] => .nothing
    | [entries] => .symbols entries
    | _ => .ambiguous

/-- Every symbol bound to a name along the search path and in the imports. -/
def gather (s : CheckState) (name : String) : List SymbolId :=
  s.scopes.gather s.scopes.cursor name ++
    (s.importsOf s.scopes.cursor).flatMap fun i => s.scopes.entries i name

/-- Whether all scopes are there that a search from the cursor goes through. -/
def isSearchable (s : CheckState) : Bool :=
  (s.scopes.path? s.scopes.cursor).isSome &&
    (s.importsOf s.scopes.cursor).all fun i => (s.scopes.get? i).isSome

end CheckState

namespace Check

/-- The state, to be searched for a name from the cursor. -/
def searching : Check CheckState := do
  let s ← state
  if s.isSearchable then return s else fault (.missingScope s.scopes.cursor)

/-- The symbols that a name means, none if it means nothing. -/
def lookup (name : Ident) : Check (List SymbolId) := do
  match (← searching).find name.name with
  | .nothing => return []
  | .symbols entries => return entries
  | .ambiguous =>
    raise (.ambiguousReference name.name) name.span (some "qualify the name with its module")

def lookupRequired (name : Ident) : Check (List SymbolId) := do
  match ← lookup name with
  | [] => raise (.undefinedSymbol name.name) name.span
  | entries => return entries

end Check

end Stela
