import Stela.Types.Symbol

/-!
# Aliases and equality of types

A weak alias is the type it stands for, a strong one a type of its own with the
same representation. Two types are the same if their shapes agree at every
depth. The comparison is coinductive: a pair that is already being compared
counts as equal, so recursive types are compared in finitely many steps.
-/

namespace Stela

/-- The text of a parameter from that of its type. -/
def RefKind.label : RefKind → String → String
  | .reference, text => "ref " ++ text
  | .value, text => text

namespace Tables

/-- The type that an alias stands for; strong aliases count on request only. -/
def aliasTarget? (t : Tables) (throughStrong : Bool) (type : TypeId) : Option TypeId :=
  match t.types.get? type with
  | some (.aliasType symbol) =>
    match t.symbols.kind? symbol with
    | some (.aliasType info) => if info.strong && !throughStrong then none else info.target?
    | _ => none
  | _ => none

/-- Follows aliases for at most `bound` steps. -/
def unwrap (t : Tables) (throughStrong : Bool) : Nat → TypeId → TypeId
  | 0, type => type
  | bound + 1, type =>
    match t.aliasTarget? throughStrong type with
    | some target => unwrap t throughStrong bound target
    | none => type

/-- The type behind weak aliases. -/
def concrete (t : Tables) (type : TypeId) : TypeId := t.unwrap false t.types.size type

/-- The type behind all aliases. -/
def representation (t : Tables) (type : TypeId) : TypeId := t.unwrap true t.types.size type

/-- The type that `type` is behind its weak aliases. -/
def concreteTy? (t : Tables) (type : TypeId) : Option Ty := t.types.get? (t.concrete type)

/-- Fields of a struct with their types, in the order of declaration. -/
def structFields (t : Tables) (symbol : SymbolId) : List (String × TypeId) :=
  match t.symbols.kind? symbol with
  | some (.structType info) =>
    info.fields.filterMap fun field =>
      (t.symbols.field? field).map fun f => (t.symbols.name field, f.type)
  | _ => []

/-- As `structFields`, if the symbol is there and all symbols that the struct lists are fields. -/
def structFields? (t : Tables) (symbol : SymbolId) : Option (List (String × TypeId)) :=
  match t.symbols.kind? symbol with
  | some (.structType info) =>
    info.fields.mapM fun field =>
      (t.symbols.field? field).map fun f => (t.symbols.name field, f.type)
  | some _ => some []
  | none => none

end Tables

/-- What two equal types have in common apart from their parts. -/
inductive TypeHead where
  /-- A type that is equal to itself only. -/
  | nominal (type : TypeId)
  | array
  | func (passing : List RefKind)
  | structType (names : List String)
  | hostType (size align : UInt64) (fields : List (String × UInt64))
deriving Repr, DecidableEq

structure TypeShape where
  head : TypeHead
  parts : List TypeId
deriving Repr, DecidableEq

namespace Tables

/-- The shape of a type that is no weak alias. -/
def shape (t : Tables) (type : TypeId) : TypeShape :=
  match t.types.get? type with
  | some (.array element) => ⟨.array, [element]⟩
  | some (.func params ret) => ⟨.func (params.map (·.1)), params.map (·.2) ++ [ret]⟩
  | some (.structType symbol) =>
    match t.structFields? symbol with
    | some fields => ⟨.structType (fields.map (·.1)), fields.map (·.2)⟩
    | none => ⟨.nominal type, []⟩
  | some (.hostType symbol) =>
    match t.symbols.kind? symbol with
    | some (.hostType info) =>
      ⟨.hostType info.size info.align (info.fields.map fun f => (f.name, f.offset)),
        info.fields.map HostSlot.type⟩
    | _ => ⟨.nominal type, []⟩
  | _ => ⟨.nominal type, []⟩

/-- Compares two types, given pairs that are assumed to be equal. -/
def sameUnder (t : Tables) : Nat → List (TypeId × TypeId) → TypeId → TypeId → Bool
  | 0, _, _, _ => false
  | bound + 1, assumed, a, b =>
    let a := t.concrete a
    let b := t.concrete b
    a == b || assumed.contains (a, b) ||
      (t.shape a).head == (t.shape b).head &&
        ((t.shape a).parts.zip (t.shape b).parts).all fun parts =>
          sameUnder t bound ((a, b) :: assumed) parts.1 parts.2

/-- Whether two types are the same. At most every pair of types is ever under
comparison at once. -/
def same (t : Tables) (a b : TypeId) : Bool :=
  t.sameUnder (t.types.size * t.types.size + 1) [] a b

def isVoid (t : Tables) (type : TypeId) : Bool := t.concrete type == Builtin.void.typeId

/-- The builtin type behind weak aliases. -/
def builtin? (t : Tables) (type : TypeId) : Option Builtin := t.types.builtin? (t.concrete type)

/-- The element type of an array type behind weak aliases. -/
def element? (t : Tables) (type : TypeId) : Option TypeId :=
  match t.concreteTy? type with
  | some (.array element) => some element
  | _ => none

/-!
## Reading the tables

The functions above take any number for a type. The following ones read the tables
as far as a walk or comparison goes and give nothing where a number is not in its
table, or where the walk does not end.
-/

/-- As `unwrap`, if at most `bound` types are read and all of them are there. -/
def unwrap? (t : Tables) (throughStrong : Bool) : Nat → TypeId → Option TypeId
  | 0, _ => none
  | bound + 1, type => do
    match ← t.types.get? type with
    | .aliasType symbol =>
      let _ ← t.symbols.get? symbol
      match t.aliasTarget? throughStrong type with
      | some target => unwrap? t throughStrong bound target
      | none => return type
    | _ => return type

def concrete? (t : Tables) (type : TypeId) : Option TypeId := t.unwrap? false t.types.size type

def representation? (t : Tables) (type : TypeId) : Option TypeId :=
  t.unwrap? true t.types.size type

/-- Compares two lists pair by pair, unless one is longer. -/
def pairwise? {α β : Type} (compare : α → β → Option Bool) (xs : List α) (ys : List β) :
    Option Bool :=
  if xs.length == ys.length then (xs.zip ys).allM fun pair => compare pair.1 pair.2
  else some false

/-- The symbols that a struct lists as its fields. -/
def fields? (t : Tables) (symbol : SymbolId) : Option (List SymbolId) :=
  (t.symbols.kind? symbol).map fun
    | .structType info => info.fields
    | _ => []

/-- Compares two types that are no weak aliases by what they are made of. -/
def shapesAlike? (t : Tables) (compare : TypeId → TypeId → Option Bool) (a b : TypeId) :
    Option Bool := do
  match ← t.types.get? a, ← t.types.get? b with
  | .array element, .array element' => compare element element'
  | .func params ret, .func params' ret' =>
    let alike ← pairwise? (fun p q => if p.1 == q.1 then compare p.2 q.2 else some false)
      params params'
    if alike then compare ret ret' else return false
  | .structType symbol, .structType symbol' =>
    let fields ← t.fields? symbol
    let fields' ← t.fields? symbol'
    let field (f g : SymbolId) : Option Bool := do
      let f ← t.symbols.get? f
      let g ← t.symbols.get? g
      match f.kind, g.kind with
      | .field info, .field info' =>
        if f.name == g.name then compare info.type info'.type else return false
      | _, _ => return false
    pairwise? field fields fields'
  | .hostType symbol, .hostType symbol' =>
    match ← t.symbols.kind? symbol, ← t.symbols.kind? symbol' with
    | .hostType info, .hostType info' =>
      if info.size == info'.size && info.align == info'.align then
        pairwise? (fun f g =>
          if f.name == g.name && f.offset == g.offset then compare f.type g.type else some false)
          info.fields info'.fields
      else return false
    | _, _ => return false
  | _, _ => return false

/-- As `sameUnder`, if all that is read is there. -/
def sameUnder? (t : Tables) : Nat → List (TypeId × TypeId) → TypeId → TypeId → Option Bool
  | 0, _, _, _ => none
  | bound + 1, assumed, a, b => do
    let a ← t.concrete? a
    let b ← t.concrete? b
    if a == b || assumed.contains (a, b) then return true
    else t.shapesAlike? (fun x y => sameUnder? t bound ((a, b) :: assumed) x y) a b

def same? (t : Tables) (a b : TypeId) : Option Bool :=
  t.sameUnder? (t.types.size * t.types.size + 1) [] a b

/-- The text of a type in diagnostics, if it has at most `bound` levels. -/
def textWithin? (t : Tables) : Nat → TypeId → Option String
  | 0, _ => none
  | bound + 1, type => do
    match ← t.types.get? type with
    | .builtin kind => return kind.name
    | .array element => return "[" ++ (← textWithin? t bound element) ++ "]"
    | .func params ret =>
      let texts ← params.mapM fun param => (textWithin? t bound param.2).map param.1.label
      return "func(" ++ ", ".intercalate texts ++ ") -> " ++ (← textWithin? t bound ret)
    | .structType symbol | .enumType symbol | .hostType symbol | .aliasType symbol =>
      return (← t.symbols.get? symbol).name
    | .pending func => return "<return type of " ++ (← t.symbols.get? func).name ++ ">"

/-- The text of a type in diagnostics. Array and function types have greater
numbers than their parts, so the depth is at most the size of the table. -/
def text? (t : Tables) (type : TypeId) : Option String := t.textWithin? t.types.size type

end Tables

end Stela
