import Stela.Types.Lifetime

/-!
# Layout of values in memory

Builtin types have their natural size. Enums are a 64-bit tag, arrays and
functions one pointer. Fields of a struct follow each other in the order of
declaration, each at the next multiple of its alignment. Host types bring their
own layout. A struct that contains itself by value has no layout.
-/

namespace Stela

/-- Size and alignment in bytes. -/
structure Layout where
  size : UInt64
  align : UInt64
deriving Repr, DecidableEq

namespace Layout

/-- A value that is aligned to its own size. -/
def scalar (size : UInt64) : Layout := ⟨size, size⟩

end Layout

/-- Size of a handle to a counted block. -/
def pointerSize : UInt64 := 8

/-- The least multiple of `align` that is not below `offset`, for offsets whose
multiple fits into 64 bits. -/
def alignTo (offset align : UInt64) : UInt64 :=
  let align := max align 1
  (offset / align + if offset % align = 0 then 0 else 1) * align

/-- Places fields one behind the other from `offset` on. -/
def placeFields (offset : UInt64) : List Layout → List (UInt64 × Layout)
  | [] => []
  | field :: rest =>
    let start := alignTo offset field.align
    (start, field) :: placeFields (start + field.size) rest

/-- The layout of a struct with these fields. -/
def structLayout (fields : List (UInt64 × Layout)) : Layout :=
  let align := match fields with
    | [] => 1
    | first :: rest => rest.foldl (fun a f => max a f.2.align) first.2.align
  let stop := match fields.getLast? with
    | none => 0
    | some last => last.1 + last.2.size
  ⟨alignTo stop align, align⟩

namespace Tables

/-- The layout of a type in which structs nest fewer than `bound` deep. -/
def layoutWithin (t : Tables) : Nat → TypeId → Option Layout
  | 0, _ => none
  | bound + 1, type =>
    match t.types.get? (t.representation type) with
    | some (.builtin kind) => some ⟨kind.size, max kind.size 1⟩
    | some (.enumType _) => some (.scalar enumSize)
    | some (.array _) | some (.func ..) => some (.scalar pointerSize)
    | some (.structType symbol) => do
      let fields ← (t.structFields symbol).mapM fun f => layoutWithin t bound f.2
      return structLayout (placeFields 0 fields)
    | some (.hostType symbol) =>
      match t.symbols.kind? symbol with
      | some (.hostType info) => some ⟨info.size, max info.align 1⟩
      | _ => some (.scalar 1)
    | _ => some (.scalar 1)

/-- The layout of a type, if it is finite. -/
def layout? (t : Tables) (type : TypeId) : Option Layout :=
  t.layoutWithin (t.types.size + 1) type

/-- Offset and layout of every field of a struct or host type, in order. -/
def fieldOffsets? (t : Tables) (type : TypeId) : Option (List (UInt64 × Layout)) :=
  match t.types.get? (t.representation type) with
  | some (.structType symbol) => do
    let fields ← (t.structFields symbol).mapM fun f => t.layout? f.2
    return placeFields 0 fields
  | some (.hostType symbol) =>
    match t.symbols.kind? symbol with
    | some (.hostType info) => info.fields.mapM fun f => do
      let layout ← t.layout? f.type
      return (f.offset, layout)
    | _ => some []
  | _ => some []

end Tables

end Stela
