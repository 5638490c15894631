import Stela.Check.Error
import Stela.Scope
import Stela.Settings
import Stela.Syntax.NodeMap
import Stela.Types.Lifetime

/-!
# State of the analysis

An analysis step reads the settings and changes the state. It ends in a value,
in a semantic error of the program, or in a fault. A fault is a broken
assumption of the analysis about its own state, such as a number outside its
table; it is kept apart from the errors so that its absence can be stated.
-/

namespace Stela

/-- A module that has been declared. -/
structure ModuleEntry where
  name : String
  symbol : SymbolId
  scope : ScopeId
  /-- The scopes of the direct imports, in order. -/
  imports : List ScopeId
deriving Repr

inductive FrameKind where
  | function | closure
deriving Repr, DecidableEq

/-- The result type of a body under analysis. -/
inductive ReturnSlot where
  | declared (type : TypeId)
  /-- Given by the first `return` whose type is known. -/
  | deduced (type : Option TypeId)
deriving Repr, DecidableEq

def ReturnSlot.expected : ReturnSlot → Option TypeId
  | .declared type => some type
  | .deduced type => type

/-- A call, and where it stands. -/
structure CallSite where
  callee : SymbolId
  span : Span
deriving Repr, DecidableEq

/-- A function or closure body under analysis. -/
structure Frame where
  symbol : SymbolId
  kind : FrameKind
  scope : ScopeId
  ret : ReturnSlot
  /-- Returned calls whose type is not known yet. -/
  pendingReturns : List CallSite := []
  loopDepth : Nat := 0
deriving Repr, DecidableEq

/-- A type that a call was taken to have before its function was finished. -/
structure Assumption where
  func : SymbolId
  type : TypeId
  span : Span
deriving Repr, DecidableEq

/-- Where a value is transferred to. -/
inductive TransferSite where
  | init | assign | argument | ret
deriving Repr, DecidableEq

/-- The transfer planned for the value of an expression. -/
structure TransferRecord where
  expr : Node
  type : TypeId
  site : TransferSite
  transfer : Transfer
deriving Repr, DecidableEq

/-- The type found for an expression. -/
structure Typing where
  span : Span
  type : ExprType
deriving Repr, DecidableEq

/-- What the nodes of the program were found to mean. Each entry is filled once
and may be kept for a later analysis of the same program. -/
structure Meanings where
  /-- The symbol that a name, member, call or closure means. -/
  exprs : NodeMap SymbolId := .empty
  /-- The symbol that a type name means. -/
  typeNames : NodeMap SymbolId := .empty
  /-- The type that a type expression denotes. -/
  types : NodeMap TypeId := .empty
  /-- The symbol of a declaration. -/
  decls : NodeMap SymbolId := .empty
  /-- The symbol of a variable declared by a statement. -/
  locals : NodeMap SymbolId := .empty
  /-- The symbol of a parameter, by the number of its type. -/
  params : NodeMap SymbolId := .empty
deriving Repr

structure CheckState where
  tables : Tables := ⟨.initial, .empty⟩
  scopes : ScopeGraph := .initial
  modules : List ModuleEntry := []
  /-- Bodies under analysis, innermost first. -/
  frames : List Frame := []
  exprTypes : NodeMap Typing := .empty
  /-- The closure and slot through which a name is read. -/
  captured : NodeMap (SymbolId × Nat) := .empty
  transfers : List TransferRecord := []
  /-- Objects declared without an initializer. -/
  defaults : List (SymbolId × TypeId) := []
  closures : List SymbolId := []
  assumptions : List Assumption := []
  meanings : Meanings := {}
  /-- What has been reported, in order. -/
  diagnostics : List Diagnostic := []
deriving Repr

/-- An assumption of the analysis that does not hold. -/
inductive Fault where
  /-- The bound on nested analyses was too small. -/
  | spent
  | missingType (id : TypeId)
  | missingSymbol (id : SymbolId)
  | missingScope (id : ScopeId)
  | missingModules (positions : List Nat)
  /-- Types that could not be read to their ends. -/
  | unreadable (types : List TypeId)
  /-- A symbol of another sort was used as a type. -/
  | notAType (id : SymbolId)
  /-- There is no body under analysis. -/
  | noFrame
  | loopDepth
  | notAClosure (id : SymbolId)
  | notAnObject (id : SymbolId)
  /-- A declaration was met before its symbol was made. -/
  | undeclared (decl : Nat)
  /-- A node got a second meaning that differs from the first. -/
  | meaningChanged
deriving Repr, DecidableEq

inductive CheckFailure where
  | error (error : TypeError)
  | fault (fault : Fault)
deriving Repr, DecidableEq

inductive CheckResult (α : Type) where
  | ok (value : α) (state : CheckState)
  | failed (failure : CheckFailure) (state : CheckState)

/-- A step of the analysis. -/
def Check (α : Type) : Type := Settings → CheckState → CheckResult α

namespace Check

variable {α β : Type}

protected def pure (a : α) : Check α := fun _ s => .ok a s

protected def bind (p : Check α) (f : α → Check β) : Check β := fun settings s =>
  match p settings s with
  | .ok a s => f a settings s
  | .failed failure s => .failed failure s

instance : Monad Check where
  pure := Check.pure
  bind := Check.bind

def settings : Check Settings := fun settings s => .ok settings s

def state : Check CheckState := fun _ s => .ok s s

def update (f : CheckState → CheckState) : Check Unit := fun _ s => .ok () (f s)

/-- Ends the analysis with an error of the program. -/
def raise (kind : TypeErrorKind) (span : Span) (help : Option String := none)
    (related : Option (Span × String) := none) : Check α := fun _ s =>
  .failed (.error ⟨kind, span, help, related⟩) s

def fault (fault : Fault) : Check α := fun _ s => .failed (.fault fault) s

def report (d : Diagnostic) : Check Unit :=
  update fun s => { s with diagnostics := s.diagnostics ++ [d] }

/-- The value of an optional part that the analysis takes to be there. -/
def require (value : Option α) (otherwise : Fault) : Check α :=
  match value with
  | some a => pure a
  | none => fault otherwise

/-! ## Tables -/

def tables : Check Tables := fun _ s => .ok s.tables s

def setTables (t : Tables) : Check Unit := update fun s => { s with tables := t }

def modifySymbols (f : SymbolTable → SymbolTable) : Check Unit :=
  update fun s => { s with tables.symbols := f s.tables.symbols }

def tyOf (type : TypeId) : Check Ty := do
  require ((← tables).types.get? type) (.missingType type)

/-- The number of the type behind weak aliases. -/
def concreteOf (type : TypeId) : Check TypeId := do
  require ((← tables).concrete? type) (.unreadable [type])

/-- The type behind weak aliases. -/
def concreteTy (type : TypeId) : Check Ty := do
  tyOf (← concreteOf type)

/-- The type behind all aliases. -/
def representationTy (type : TypeId) : Check Ty := do
  tyOf (← require ((← tables).representation? type) (.unreadable [type]))

def symbol (id : SymbolId) : Check Symbol := do
  require ((← tables).symbols.get? id) (.missingSymbol id)

def kindOf (id : SymbolId) : Check SymbolKind := do
  return (← symbol id).kind

def nameOf (id : SymbolId) : Check String := do
  return (← symbol id).name

def funcOf (id : SymbolId) : Check (Option FuncInfo) := do
  match ← kindOf id with
  | .func info => return some info
  | _ => return none

def closureOf (id : SymbolId) : Check (Option ClosureInfo) := do
  match ← kindOf id with
  | .closure info => return some info
  | _ => return none

def objectOf (id : SymbolId) : Check (Option ObjectInfo) := do
  match ← kindOf id with
  | .object info => return some info
  | _ => return none

def typeText (type : TypeId) : Check String := do
  require ((← tables).text? type) (.unreadable [type])

def typeTexts : List ExprType → Check (List String)
  | [] => return []
  | e :: rest => do
    let text ← typeText e.type
    return text :: (← typeTexts rest)

def same (a b : TypeId) : Check Bool := do
  require ((← tables).same? a b) (.unreadable [a, b])

def isVoid (type : TypeId) : Check Bool := do
  return (← concreteOf type) == Builtin.void.typeId

/-- The function whose result type is not known yet, if the type stands for one. -/
def pendingOf (type : TypeId) : Check (Option SymbolId) := do
  match ← tyOf type with
  | .pending func => return some func
  | _ => return none

/-- The builtin type behind weak aliases. -/
def builtinOf (type : TypeId) : Check (Option Builtin) := do
  match ← concreteTy type with
  | .builtin kind => return some kind
  | _ => return none

/-- The element type of an array type behind weak aliases. -/
def elementOf (type : TypeId) : Check (Option TypeId) := do
  match ← concreteTy type with
  | .array element => return some element
  | _ => return none

def categoryOf (type : TypeId) : Check Category := do
  let _ ← representationTy type
  return (← tables).classify type

def intern (ty : Ty) : Check TypeId := fun _ s =>
  let (id, types) := s.tables.types.intern ty
  .ok id { s with tables.types := types }

def newSymbol (name : String) (span : Span) (kind : SymbolKind) (scope : ScopeId) :
    Check SymbolId := fun _ s =>
  let (id, symbols) := s.tables.symbols.add { name, span, kind, scope }
  .ok id { s with tables.symbols := symbols }

/-- Changes the table at a symbol that has to be there. -/
def modifyAt (id : SymbolId) (f : SymbolTable → SymbolTable) : Check Unit := do
  let _ ← symbol id
  modifySymbols f

def markUsed (id : SymbolId) : Check Unit :=
  modifyAt id fun t => t.modify id fun symbol => { symbol with used := true }

def modifyKind (id : SymbolId) (f : SymbolKind → SymbolKind) : Check Unit :=
  modifyAt id fun t => t.modifyKind id f

def modifyFunc (id : SymbolId) (f : FuncInfo → FuncInfo) : Check Unit :=
  modifyAt id fun t => t.modifyFunc id f

def modifyClosure (id : SymbolId) (f : ClosureInfo → ClosureInfo) : Check Unit :=
  modifyAt id fun t => t.modifyClosure id f

/-- The mismatch of two types. -/
def mismatch (expected found : TypeId) (span : Span) : Check α := do
  raise (.mismatch (← typeText expected) (← typeText found)) span

/-! ## Scopes -/

def cursor : Check ScopeId := fun _ s => .ok s.scopes.cursor s

def modifyScopes (f : ScopeGraph → ScopeGraph) : Check Unit :=
  update fun s => { s with scopes := f s.scopes }

def scopeAt (scope : ScopeId) : Check Scope := do
  require ((← state).scopes.get? scope) (.missingScope scope)

/-- The symbols bound to a name in a scope. -/
def entriesOf (scope : ScopeId) (name : String) : Check (List SymbolId) := do
  return (← scopeAt scope).entries name

def membersOf (scope : ScopeId) : Check (List Row) := do
  return (← scopeAt scope).members

def casesOf (scope : ScopeId) : Check (List Row) := do
  return (← scopeAt scope).cases

/-- Whether `scope` is `ancestor` or lies inside it. -/
def isWithin (scope ancestor : ScopeId) : Check Bool := do
  let path ← require ((← state).scopes.path? scope) (.missingScope scope)
  return path.contains ancestor

def setOwner (scope : ScopeId) (owner : SymbolId) : Check Unit := do
  let _ ← scopeAt scope
  modifyScopes fun g => g.setOwner scope owner

def enterScope (kind : ScopeKind) (owner : Option SymbolId) : Check ScopeId := do
  modifyScopes fun g => g.enter kind owner
  cursor

def leaveScope : Check Unit := do
  let _ ← scopeAt (← cursor)
  modifyScopes ScopeGraph.leave

/-- Runs a step with the cursor elsewhere. -/
def withCursor (scope : ScopeId) (p : Check α) : Check α := do
  let _ ← scopeAt scope
  let previous ← cursor
  modifyScopes fun g => g.setCursor scope
  let result ← p
  modifyScopes fun g => g.setCursor previous
  return result

/-! ## Frames -/

def frame? : Check (Option Frame) := fun _ s => .ok s.frames.head? s

def pushFrame (frame : Frame) : Check Unit :=
  update fun s => { s with frames := frame :: s.frames }

def popFrame : Check Frame := do
  match (← state).frames with
  | frame :: rest =>
    update fun s => { s with frames := rest }
    return frame
  | [] => fault .noFrame

/-- Changes the innermost frame, if there is one. -/
def modifyFrame (f : Frame → Frame) : Check Unit :=
  update fun s => match s.frames with
    | frame :: rest => { s with frames := f frame :: rest }
    | [] => s

/-! ## Meanings -/

/-- Fills an entry of one of the maps from nodes to meanings. -/
def fill [DecidableEq α] (get : Meanings → NodeMap α) (set : Meanings → NodeMap α → Meanings)
    (node : Nat) (value : α) : Check Unit := do
  let meanings := (← state).meanings
  let filled ← require ((get meanings).fill? node value) .meaningChanged
  update fun s => { s with meanings := set meanings filled }

def setExprSymbol (node : Nat) (symbol : SymbolId) : Check Unit :=
  fill Meanings.exprs (fun m map => { m with exprs := map }) node symbol

def setTypeName (node : Nat) (symbol : SymbolId) : Check Unit :=
  fill Meanings.typeNames (fun m map => { m with typeNames := map }) node symbol

def setType (node : Nat) (type : TypeId) : Check Unit :=
  fill Meanings.types (fun m map => { m with types := map }) node type

def setDeclSymbol (node : Nat) (symbol : SymbolId) : Check Unit :=
  fill Meanings.decls (fun m map => { m with decls := map }) node symbol

def setLocalSymbol (node : Nat) (symbol : SymbolId) : Check Unit :=
  fill Meanings.locals (fun m map => { m with locals := map }) node symbol

def setParamSymbol (node : Nat) (symbol : SymbolId) : Check Unit :=
  fill Meanings.params (fun m map => { m with params := map }) node symbol

/-- Notes that an expression means a symbol. -/
def useSymbol (node : Nat) (symbol : SymbolId) : Check Unit := do
  markUsed symbol
  setExprSymbol node symbol

end Check

end Stela
