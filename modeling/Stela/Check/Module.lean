import Stela.Check.Body
import Stela.Check.TypeDecl

/-!
# Modules

A module is analyzed in phases: its types are declared and completed, then its
functions are declared, then its variables are analyzed in order, and last the
bodies of its functions. Everything a module imports has to be analyzed before.
-/

namespace Stela

namespace CheckState

/-- Binds a builtin in the root scope. -/
def addBuiltin (s : CheckState) (name : String) (kind : SymbolKind) : CheckState :=
  let (symbol, symbols) := s.tables.symbols.add
    { name := name, span := .dummy, kind := kind, scope := ScopeGraph.root }
  let scopes := match s.scopes.insert { name := name, symbol := symbol } (fun _ => true) with
    | .ok (_, scopes) => scopes
    | .error _ => s.scopes
  { s with tables.symbols := symbols, scopes := scopes }

/-- The state that an analysis starts in: the builtins are bound, and `meanings`
holds what is known about the nodes from earlier analyses. -/
def initial (meanings : Meanings) : CheckState :=
  let types := Builtin.all.foldl (fun s kind => s.addBuiltin kind.name (.builtinType kind))
    { meanings := meanings }
  BuiltinFunc.all.foldl (fun s kind => s.addBuiltin kind.name (.builtinFunc kind)) types

def module? (s : CheckState) (name : String) : Option ModuleEntry :=
  s.modules.find? fun m => m.name == name

end CheckState

namespace Check

/-- Binds the imports of a module in its scope, each once, and gives their scopes. -/
def declareImports (importer : String) (scope : ScopeId) :
    List ScopeId → List Ident → Check (List ScopeId)
  | seen, [] => return seen
  | seen, name :: rest => do
    match (← state).module? name.name with
    | none => raise (.graph (.unknownModule name.name importer)) name.span
    | some target =>
      if seen.contains target.scope then declareImports importer scope seen rest
      else
        withCursor scope (declare name target.symbol)
        declareImports importer scope (seen ++ [target.scope]) rest

/-- Makes the scope of a module, with its imports. -/
def declareModule (m : Module) : Check ScopeId := do
  let name := m.name
  if ((← state).module? name.name).isSome then
    raise (.graph (.duplicateModule name.name)) name.span
  let scope ← withCursor ScopeGraph.root (enterScope .namespaceScope none)
  let symbol ← newSymbol name.name name.span (.moduleSpace scope) ScopeGraph.root
  setOwner scope symbol
  let imports ← declareImports name.name scope [] m.imports
  update fun s => { s with modules := s.modules ++ [⟨name.name, symbol, scope, imports⟩] }
  return scope

/-- Declares the member functions of a struct. -/
def declareMethods (owner : SymbolId) (scope : ScopeId) : List Member → Check (List SymbolId)
  | [] => return []
  | .field _ :: rest => declareMethods owner scope rest
  | .func decl :: rest => do
    let func ← withCursor scope (declareFunc decl (some owner))
    let rest ← declareMethods owner scope rest
    return func :: rest

/-- Declares the functions of a module, free ones and members alike. -/
def declareFuncs : List Decl → Check (List SymbolId)
  | [] => return []
  | decl :: rest => do
    let funcs ← match decl with
      | .func decl => do pure [← declareFunc decl none]
      | .structType node _ members => do
        let owner ← declSymbol node
        declareMethods owner (← memberScope owner) members
      | _ => pure []
    let rest ← declareFuncs rest
    return funcs ++ rest

/-- Analyzes a variable of a module. -/
def checkGlobal (bound : Nat) : Decl → Check Unit
  | .global node binding => checkBinding (checkBody bound) (.decl node.id) binding
  | _ => return

/-- Analyzes the declarations of a module, in whose scope the cursor is. -/
def checkDecls (bound : Nat) (decls : List Decl) : Check Unit := do
  decls.forM declareType
  decls.forM completeType
  let funcs ← declareFuncs decls
  decls.forM (checkGlobal bound)
  funcs.forM (checkBody bound)

/-- Marks the symbols from a number on as declared by the host. -/
def markExternal (first : SymbolId) : Check Unit :=
  modifySymbols fun t => (List.range' first (t.size - first)).foldl
    (fun t id => t.modify id fun symbol => { symbol with external := true }) t

/-- Analyzes a module, of whose functions at most `bound` need each other. -/
def checkModule (bound : Nat) (external : Bool) (m : Module) : Check Unit := do
  let first := (← tables).symbols.size
  let scope ← declareModule m
  withCursor scope (checkDecls bound m.decls)
  if external then markExternal first

end Check

namespace Symbol

/-- What an unused symbol is called in a warning, if it is worth one. -/
def unusedNoun? (symbol : Symbol) : Option String :=
  match symbol.kind with
  | .object _ => some "variable"
  | .func info => if info.owner.isNone then some "function" else none
  | .structType _ => some "struct"
  | .enumType _ => some "enum"
  | .aliasType _ => some "type alias"
  | _ => none

/-- The warning that a symbol is never used, if it deserves one. -/
def unusedWarning? (symbol : Symbol) : Option Diagnostic :=
  if symbol.used || symbol.external || symbol.span.isDummy
      || symbol.name == "main" || symbol.name == "self" || Check.isSilenced symbol.name then none
  else
    symbol.unusedNoun?.map fun noun => {
      severity := .warning
      code := some "W0001"
      message := s!"unused {noun} `{symbol.name}`"
      span := symbol.span }

end Symbol

namespace Check

/-- Warns about unused symbols, in the order of their numbers. -/
def warnUnused : Check Unit := do
  if (← settings).warnUnused then
    let warnings := (← tables).symbols.entries.toList.filterMap Symbol.unusedWarning?
    update fun s => { s with diagnostics := s.diagnostics ++ warnings }

end Check

end Stela
