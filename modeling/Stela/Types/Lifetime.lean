import Stela.Types.Equality

/-!
# Lifetimes of values

The category of a type decides how its values are constructed, copied, moved
and destroyed. `Tables.plan` says what the helper for one operation on one type
does; `planTransfer` says how a value gets from its source to its destination.
When a temporary is the source, its move and its destruction collapse into one
relocation if relocations are allowed.
-/

namespace Stela

inductive Category where
  /-- Copied bit by bit; destruction does nothing. -/
  | triviallyCopyable
  /-- One owning pointer to a counted block. -/
  | triviallyRelocatable
  /-- Every operation goes through the fields. -/
  | nontrivial
deriving Repr, DecidableEq

inductive LifetimeOp where
  | defConstruct | copyConstruct | moveConstruct | copyAssign | moveAssign | destroy
deriving Repr, DecidableEq

namespace LifetimeOp

def all : List LifetimeOp :=
  [.defConstruct, .copyConstruct, .moveConstruct, .copyAssign, .moveAssign, .destroy]

def name : LifetimeOp → String
  | .defConstruct => "def_construct"
  | .copyConstruct => "copy_construct"
  | .moveConstruct => "move_construct"
  | .copyAssign => "copy_assign"
  | .moveAssign => "move_assign"
  | .destroy => "destroy"

/-- Position in the order of the operations. -/
def rank : LifetimeOp → Nat
  | .defConstruct => 0
  | .copyConstruct => 1
  | .moveConstruct => 2
  | .copyAssign => 3
  | .moveAssign => 4
  | .destroy => 5

end LifetimeOp

/-- The counted block behind a handle. -/
inductive HandleKind where
  | array (element : TypeId)
  | closure
deriving Repr, DecidableEq

/-- A field that an operation goes through. Only host types give offsets. -/
structure FieldStep where
  name : String
  type : TypeId
  offset : Option UInt64
deriving Repr, DecidableEq

/-- What a helper does. -/
inductive LifetimePlan where
  | noop
  | zero (size : UInt64)
  | bitCopy (size : UInt64)
  /-- Store an empty handle. -/
  | emptyHandle
  /-- Share the block of the source. -/
  | retain
  /-- Take the block of the source and leave the source empty. -/
  | transfer
  /-- Share the block of the source and release the old one. -/
  | retainAssign
  /-- Release the old block and take that of the source. -/
  | transferAssign
  | release (handle : HandleKind)
  /-- The same operation on every field in order. -/
  | fields (steps : List FieldStep)
deriving Repr, DecidableEq

/-- The operation on a value without an owner. -/
def scalarPlan (op : LifetimeOp) (size : UInt64) : LifetimePlan :=
  match op with
  | .defConstruct => .zero size
  | .destroy => .noop
  | _ => .bitCopy size

/-- The operation on a handle. -/
def handlePlan (op : LifetimeOp) (handle : HandleKind) : LifetimePlan :=
  match op with
  | .defConstruct => .emptyHandle
  | .copyConstruct => .retain
  | .moveConstruct => .transfer
  | .copyAssign => .retainAssign
  | .moveAssign => .transferAssign
  | .destroy => .release handle

/-- Size of an enum value in bytes. -/
def enumSize : UInt64 := 8

namespace Tables

/-- The category of a type, the same behind aliases of both sorts. -/
def classify (t : Tables) (type : TypeId) : Category :=
  match t.types.get? (t.representation type) with
  | some (.builtin _) | some (.enumType _) => .triviallyCopyable
  | some (.array _) | some (.func ..) => .triviallyRelocatable
  | _ => .nontrivial

/-- What the helper for `op` on `type` does. -/
def plan (t : Tables) (op : LifetimeOp) (type : TypeId) : LifetimePlan :=
  match t.types.get? (t.representation type) with
  | some (.builtin kind) => scalarPlan op kind.size
  | some (.enumType _) => scalarPlan op enumSize
  | some (.array element) => handlePlan op (.array element)
  | some (.func ..) => handlePlan op .closure
  | some (.structType symbol) =>
    .fields ((t.structFields symbol).map fun f => ⟨f.1, f.2, none⟩)
  | some (.hostType symbol) =>
    match t.symbols.kind? symbol with
    | some (.hostType info) => .fields (info.fields.map fun f => ⟨f.name, f.type, some f.offset⟩)
    | _ => .fields []
  | _ => .noop

end Tables

/-- Whether a value comes from storage with a name or from a temporary. -/
inductive ValueSource where
  | named | temporary
deriving Repr, DecidableEq

inductive Transfer where
  | bitCopy
  | copyConstruct
  | copyAssign
  /-- The destination takes over the storage of the temporary. -/
  | relocate
  /-- As `relocate`, after the old value has been destroyed. -/
  | relocateAssign
  /-- Move, then destroy the temporary. -/
  | moveConstruct
  /-- Assign by a move, then destroy the temporary. -/
  | moveAssign
deriving Repr, DecidableEq

namespace Transfer

def destroysSource : Transfer → Bool
  | .moveConstruct | .moveAssign => true
  | _ => false

/-- The helpers that carry out a transfer. -/
def helperOps : Transfer → List LifetimeOp
  | .bitCopy | .relocate => []
  | .copyConstruct => [.copyConstruct]
  | .copyAssign => [.copyAssign]
  | .relocateAssign => [.destroy]
  | .moveConstruct => [.moveConstruct, .destroy]
  | .moveAssign => [.moveAssign, .destroy]

end Transfer

/-- How a value of a category gets from its source into fresh storage, or with
`assign` into storage that holds a value. -/
def planTransfer (category : Category) (source : ValueSource) (assign elide : Bool) : Transfer :=
  match category, source with
  | .triviallyCopyable, _ => .bitCopy
  | _, .named => if assign then .copyAssign else .copyConstruct
  | _, .temporary =>
    match assign, elide with
    | false, true => .relocate
    | true, true => .relocateAssign
    | false, false => .moveConstruct
    | true, false => .moveAssign

end Stela
