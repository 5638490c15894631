import Stela.Syntax.Tree

/-!
# Semantic types

Types are kept in a table and named by their position in it. A type is entered
once: asking for an identical one again gives the same number. Equality up to
aliases and field layouts is a different relation, defined in `Types.Equality`.
-/

namespace Stela

abbrev TypeId := Nat

abbrev SymbolId := Nat

abbrev ScopeId := Nat

inductive Builtin where
  | void | bool | char | byte | real | sint | uint
deriving Repr, DecidableEq, Inhabited

namespace Builtin

/-- All builtin types in the order of their numbers. -/
def all : List Builtin := [.void, .bool, .char, .byte, .real, .sint, .uint]

def name : Builtin → String
  | .void => "void"
  | .bool => "bool"
  | .char => "char"
  | .byte => "byte"
  | .real => "real"
  | .sint => "sint"
  | .uint => "uint"

/-- Operand of `+ - * / %` and of the ordering comparisons. -/
def isArithmetic : Builtin → Bool
  | .char | .byte | .real | .sint | .uint => true
  | .void | .bool => false

/-- Operand of `& | ^ << >> ~`. -/
def isBitwise : Builtin → Bool
  | .byte | .uint => true
  | _ => false

/-- Operand of unary `-`. -/
def isSigned : Builtin → Bool
  | .real | .sint => true
  | _ => false

/-- Subscript of an array. -/
def isIndex : Builtin → Bool
  | .sint | .uint => true
  | _ => false

/-- Size in bytes of a value. -/
def size : Builtin → UInt64
  | .void => 0
  | .bool | .byte => 1
  | .char => 4
  | .real | .sint | .uint => 8

/-- The number of a builtin type in every table. -/
def typeId : Builtin → TypeId
  | .void => 0
  | .bool => 1
  | .char => 2
  | .byte => 3
  | .real => 4
  | .sint => 5
  | .uint => 6

end Builtin

inductive Ty where
  | builtin (kind : Builtin)
  | array (element : TypeId)
  /-- The type of functions and closures. -/
  | func (params : List (RefKind × TypeId)) (ret : TypeId)
  | structType (symbol : SymbolId)
  | enumType (symbol : SymbolId)
  | hostType (symbol : SymbolId)
  | aliasType (symbol : SymbolId)
  /-- The result type of a function whose body is still being analyzed. -/
  | pending (func : SymbolId)
deriving Repr, DecidableEq, Inhabited

structure TypeTable where
  entries : Array Ty
deriving Repr

namespace TypeTable

/-- The table of the builtin types. -/
def initial : TypeTable := ⟨(Builtin.all.map Ty.builtin).toArray⟩

def size (t : TypeTable) : Nat := t.entries.size

def get? (t : TypeTable) (id : TypeId) : Option Ty := t.entries[id]?

/-- The number of a type that has been entered. -/
def find? (t : TypeTable) (ty : Ty) : Option TypeId :=
  t.entries.findIdx? (· == ty)

/-- The number of a type, which is entered at the end if it is new. -/
def intern (t : TypeTable) (ty : Ty) : TypeId × TypeTable :=
  match t.find? ty with
  | some id => (id, t)
  | none => (t.size, ⟨t.entries.push ty⟩)

def builtin? (t : TypeTable) (id : TypeId) : Option Builtin :=
  match t.get? id with
  | some (.builtin kind) => some kind
  | _ => none

/-- The function whose result type is not known yet, if `id` stands for one. -/
def pending? (t : TypeTable) (id : TypeId) : Option SymbolId :=
  match t.get? id with
  | some (.pending func) => some func
  | _ => none

end TypeTable

/-- The type of an expression together with how it may be used. -/
structure ExprType where
  type : TypeId
  mutability : Mutability
  refKind : RefKind
deriving Repr, DecidableEq

/-- The more restrictive of two. -/
def Mutability.meet : Mutability → Mutability → Mutability
  | .mutable, .mutable => .mutable
  | _, _ => .fixed

/-- The more restrictive of two. -/
def RefKind.meet : RefKind → RefKind → RefKind
  | .reference, .reference => .reference
  | _, _ => .value

namespace ExprType

/-- A fresh value. -/
def value (type : TypeId) : ExprType := ⟨type, .fixed, .value⟩

/-- Storage that a declaration names. -/
def named (type : TypeId) (mutability : Mutability) : ExprType := ⟨type, mutability, .reference⟩

/-- Restricts the use to what another expression allows too. -/
def restrict (e : ExprType) (mutability : Mutability) (refKind : RefKind) : ExprType :=
  ⟨e.type, e.mutability.meet mutability, e.refKind.meet refKind⟩

/-- Whether the expression denotes writable storage. -/
def isAssignable (e : ExprType) : Bool := e.mutability == .mutable && e.refKind == .reference

end ExprType

end Stela
