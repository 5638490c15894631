import Stela.Types.Table

/-!
# Symbols

A symbol is anything a name can mean. Symbols are numbered in the order of
their declaration and are never removed; their details are filled in while the
program is analyzed.
-/

namespace Stela

structure StructInfo where
  /-- The scope of the members. -/
  scope : ScopeId
  /-- Field symbols in the order of declaration. -/
  fields : List SymbolId
  type : TypeId
deriving Repr

structure EnumInfo where
  scope : ScopeId
  type : TypeId
deriving Repr

/-- How far the target of an alias is known. -/
inductive AliasTarget where
  | unresolved (written : TypeExpr)
  | resolving
  | resolved (type : TypeId)
deriving Repr

structure AliasInfo where
  strong : Bool
  target : AliasTarget
  type : TypeId
deriving Repr

/-- The type that an alias stands for, once it is known. -/
def AliasInfo.target? (info : AliasInfo) : Option TypeId :=
  match info.target with
  | .resolved type => some type
  | _ => none

/-- A field of a host type with its byte offset. -/
structure HostSlot where
  name : String
  type : TypeId
  offset : UInt64
deriving Repr, DecidableEq

structure HostInfo where
  size : UInt64
  align : UInt64
  fields : List HostSlot
  type : TypeId
deriving Repr

inductive Origin where
  | global | body | param
  /-- The value a member function was called on. -/
  | receiver
deriving Repr, DecidableEq

structure ObjectInfo where
  type : ExprType
  origin : Origin
deriving Repr

structure FieldInfo where
  owner : SymbolId
  type : TypeId
  access : Access
  /-- Position among the fields of the owner. -/
  index : Nat
deriving Repr

structure EnumCaseInfo where
  owner : SymbolId
  value : Int64
deriving Repr

/-- How far the body of a function has been analyzed. -/
inductive BodyState where
  | unchecked | inProgress | done
deriving Repr, DecidableEq

structure FuncInfo where
  decl : FuncDecl
  params : List ExprType
  /-- The result type, once annotated or deduced. -/
  ret : Option TypeId
  /-- The struct that the function is a member of. -/
  owner : Option SymbolId
  state : BodyState
  /-- The scope of the parameters and the body, once entered. -/
  bodyScope : Option ScopeId
deriving Repr

/-- Where a closure takes a captured value from. -/
inductive CaptureSource where
  | enclosing
  /-- From a capture slot of the closure around it. -/
  | parent (slot : Nat)
deriving Repr, DecidableEq

structure Capture where
  source : SymbolId
  via : CaptureSource
  type : TypeId
deriving Repr, DecidableEq

structure ClosureInfo where
  params : List ExprType
  ret : Option TypeId
  /-- Captured values in the order of their first use. -/
  captures : List Capture
  /-- The closure directly around this one. -/
  parent : Option SymbolId
  scope : ScopeId
deriving Repr

inductive BuiltinFunc where
  | len | push | pop | print
deriving Repr, DecidableEq

namespace BuiltinFunc

def all : List BuiltinFunc := [.len, .push, .pop, .print]

def name : BuiltinFunc → String
  | .len => "len"
  | .push => "push"
  | .pop => "pop"
  | .print => "print"

end BuiltinFunc

inductive SymbolKind where
  | builtinType (kind : Builtin)
  | structType (info : StructInfo)
  | enumType (info : EnumInfo)
  | aliasType (info : AliasInfo)
  | hostType (info : HostInfo)
  | object (info : ObjectInfo)
  | field (info : FieldInfo)
  | enumCase (info : EnumCaseInfo)
  | func (info : FuncInfo)
  | closure (info : ClosureInfo)
  | builtinFunc (kind : BuiltinFunc)
  /-- A module, with the scope of its names. -/
  | moduleSpace (scope : ScopeId)
deriving Repr

namespace SymbolKind

/-- A noun for diagnostics. -/
def describe : SymbolKind → String
  | .builtinType _ => "builtin type"
  | .structType _ => "struct"
  | .enumType _ => "enum"
  | .aliasType _ => "type alias"
  | .hostType _ => "host type"
  | .object _ => "variable"
  | .field _ => "field"
  | .enumCase _ => "enum case"
  | .func _ => "function"
  | .closure _ => "closure"
  | .builtinFunc _ => "builtin function"
  | .moduleSpace _ => "module"

def isType : SymbolKind → Bool
  | .builtinType _ | .structType _ | .enumType _ | .aliasType _ | .hostType _ => true
  | _ => false

/-- Whether several symbols of this kind may share a name. -/
def isOverloadable : SymbolKind → Bool
  | .func _ | .builtinFunc _ => true
  | _ => false

end SymbolKind

structure Symbol where
  name : String
  span : Span
  kind : SymbolKind
  /-- The scope of the declaration. -/
  scope : ScopeId
  used : Bool := false
  /-- Declared by a module of the host. -/
  external : Bool := false
deriving Repr

structure SymbolTable where
  entries : Array Symbol
deriving Repr

namespace SymbolTable

def empty : SymbolTable := ⟨#[]⟩

def size (t : SymbolTable) : Nat := t.entries.size

def get? (t : SymbolTable) (id : SymbolId) : Option Symbol := t.entries[id]?

def kind? (t : SymbolTable) (id : SymbolId) : Option SymbolKind := (t.get? id).map Symbol.kind

def name (t : SymbolTable) (id : SymbolId) : String := ((t.get? id).map Symbol.name).getD ""

/-- Adds a symbol at the end. -/
def add (t : SymbolTable) (symbol : Symbol) : SymbolId × SymbolTable :=
  (t.size, ⟨t.entries.push symbol⟩)

def modify (t : SymbolTable) (id : SymbolId) (f : Symbol → Symbol) : SymbolTable :=
  ⟨t.entries.modify id f⟩

def modifyKind (t : SymbolTable) (id : SymbolId) (f : SymbolKind → SymbolKind) : SymbolTable :=
  t.modify id fun symbol => { symbol with kind := f symbol.kind }

def func? (t : SymbolTable) (id : SymbolId) : Option FuncInfo :=
  match t.kind? id with
  | some (.func info) => some info
  | _ => none

def closure? (t : SymbolTable) (id : SymbolId) : Option ClosureInfo :=
  match t.kind? id with
  | some (.closure info) => some info
  | _ => none

def object? (t : SymbolTable) (id : SymbolId) : Option ObjectInfo :=
  match t.kind? id with
  | some (.object info) => some info
  | _ => none

def field? (t : SymbolTable) (id : SymbolId) : Option FieldInfo :=
  match t.kind? id with
  | some (.field info) => some info
  | _ => none

def modifyFunc (t : SymbolTable) (id : SymbolId) (f : FuncInfo → FuncInfo) : SymbolTable :=
  t.modifyKind id fun
    | .func info => .func (f info)
    | kind => kind

def modifyClosure (t : SymbolTable) (id : SymbolId) (f : ClosureInfo → ClosureInfo) :
    SymbolTable :=
  t.modifyKind id fun
    | .closure info => .closure (f info)
    | kind => kind

end SymbolTable

/-- The types and symbols of a program, which refer to each other. -/
structure Tables where
  types : TypeTable
  symbols : SymbolTable
deriving Repr

end Stela
