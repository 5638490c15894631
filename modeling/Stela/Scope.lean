import Stela.Types.Table

/-!
# Scopes

Scopes form a tree under a root namespace. A cursor marks the current scope;
scopes are never removed, so leaving one only moves the cursor. Names are looked
up along the lexical path, except that the search leaves a function scope for
the nearest enclosing namespace: a named function does not see the locals of the
body it stands in, while a closure does.
-/

namespace Stela

inductive ScopeKind where
  | namespaceScope | block | function | closure | structScope | enumScope
deriving Repr, DecidableEq

/-- A binding of a name. Access and the static mark matter for struct members. -/
structure Row where
  name : String
  symbol : SymbolId
  access : Access := .everyone
  isStatic : Bool := false
deriving Repr, DecidableEq

structure Scope where
  kind : ScopeKind
  /-- The scope around this one; the root has none. -/
  parent : Option ScopeId
  /-- The symbol that the scope belongs to. -/
  owner : Option SymbolId
  /-- The bindings in the order of their insertion. -/
  rows : List Row
deriving Repr

namespace Scope

/-- The symbols bound to a name in this scope. -/
def entries (s : Scope) (name : String) : List SymbolId :=
  (s.rows.filter fun row => row.name == name).map Row.symbol

/-- The members of a struct scope. -/
def members (s : Scope) : List Row := if s.kind = .structScope then s.rows else []

/-- The cases of an enum scope. -/
def cases (s : Scope) : List Row := if s.kind = .enumScope then s.rows else []

end Scope

structure ScopeGraph where
  scopes : Array Scope
  cursor : ScopeId
deriving Repr

namespace ScopeGraph

def root : ScopeId := 0

/-- The graph of the root alone. -/
def initial : ScopeGraph := ⟨#[⟨.namespaceScope, none, none, []⟩], root⟩

def size (g : ScopeGraph) : Nat := g.scopes.size

def get? (g : ScopeGraph) (scope : ScopeId) : Option Scope := g.scopes[scope]?

def kind? (g : ScopeGraph) (scope : ScopeId) : Option ScopeKind := (g.get? scope).map Scope.kind

def parent? (g : ScopeGraph) (scope : ScopeId) : Option ScopeId := (g.get? scope).bind Scope.parent

def owner? (g : ScopeGraph) (scope : ScopeId) : Option SymbolId := (g.get? scope).bind Scope.owner

def entries (g : ScopeGraph) (scope : ScopeId) (name : String) : List SymbolId :=
  match g.get? scope with
  | some s => s.entries name
  | none => []

def members (g : ScopeGraph) (scope : ScopeId) : List Row :=
  ((g.get? scope).map Scope.members).getD []

def cases (g : ScopeGraph) (scope : ScopeId) : List Row :=
  ((g.get? scope).map Scope.cases).getD []

def setCursor (g : ScopeGraph) (scope : ScopeId) : ScopeGraph := { g with cursor := scope }

/-- Opens a scope under the current one and makes it current. -/
def enter (g : ScopeGraph) (kind : ScopeKind) (owner : Option SymbolId) : ScopeGraph :=
  ⟨g.scopes.push ⟨kind, some g.cursor, owner, []⟩, g.size⟩

/-- Returns to the parent of the current scope; the root stays current. -/
def leave (g : ScopeGraph) : ScopeGraph := { g with cursor := (g.parent? g.cursor).getD g.cursor }

def setOwner (g : ScopeGraph) (scope : ScopeId) (owner : SymbolId) : ScopeGraph :=
  { g with scopes := g.scopes.modify scope fun s => { s with owner := some owner } }

/-- The scopes that `next` leads to from `scope`, `scope` first. -/
def walk (next : ScopeId → Option ScopeId) : Nat → ScopeId → List ScopeId
  | 0, _ => []
  | bound + 1, scope =>
    scope :: match next scope with
      | some following => walk next bound following
      | none => []

/-- The lexical path from a scope to the root. Scopes have greater numbers than
their parents, so no path is longer than the number of scopes. -/
def path (g : ScopeGraph) (scope : ScopeId) : List ScopeId := walk g.parent? g.size scope

/-- As `path`, if it leads to a scope without a parent in at most `bound` steps and all scopes on
it are there. -/
def pathWithin? (g : ScopeGraph) : Nat → ScopeId → Option (List ScopeId)
  | 0, _ => none
  | bound + 1, scope => do
    match (← g.get? scope).parent with
    | some parent => return scope :: (← pathWithin? g bound parent)
    | none => return [scope]

def path? (g : ScopeGraph) (scope : ScopeId) : Option (List ScopeId) := g.pathWithin? g.size scope

def isNamespace (g : ScopeGraph) (scope : ScopeId) : Bool :=
  g.kind? scope == some .namespaceScope

/-- The scope in which a search continues after `scope`. -/
def lookupParent? (g : ScopeGraph) (scope : ScopeId) : Option ScopeId :=
  match g.parent? scope with
  | none => none
  | some parent =>
    if g.kind? scope == some .function then (g.path parent).find? g.isNamespace else some parent

/-- The scopes that a search from `scope` goes through. -/
def searchPath (g : ScopeGraph) (scope : ScopeId) : List ScopeId :=
  walk g.lookupParent? g.size scope

/-- Whether `scope` is `ancestor` or lies inside it. -/
def isWithin (g : ScopeGraph) (scope ancestor : ScopeId) : Bool := (g.path scope).contains ancestor

/-- The innermost scope of a search that binds a name, with the symbols. -/
def lookup (g : ScopeGraph) (scope : ScopeId) (name : String) : Option (ScopeId × List SymbolId) :=
  (g.searchPath scope).findSome? fun s =>
    match g.entries s name with
    | [] => none
    | found => some (s, found)

/-- Every symbol that a search finds for a name, innermost first. -/
def gather (g : ScopeGraph) (scope : ScopeId) (name : String) : List SymbolId :=
  (g.searchPath scope).flatMap fun s => g.entries s name

/-- Binds a name in the current scope. The first symbol of the same name that
`conflicts` flags is the error. On success the result names the symbol of an
enclosing scope that is now hidden; members and cases hide nothing. -/
def insert (g : ScopeGraph) (row : Row) (conflicts : SymbolId → Bool) :
    Except SymbolId (Option SymbolId × ScopeGraph) :=
  match (g.entries g.cursor row.name).find? conflicts with
  | some clash => .error clash
  | none =>
    let g' := { g with
      scopes := g.scopes.modify g.cursor fun s => { s with rows := s.rows ++ [row] } }
    let hidden :=
      match g.kind? g.cursor with
      | some .structScope | some .enumScope => none
      | _ => do
        let parent ← g'.lookupParent? g'.cursor
        let found ← g'.lookup parent row.name
        found.2.head?
    .ok (hidden, g')

end ScopeGraph

end Stela
