/-!
# Counted blocks

Arrays and closures are handles to blocks that count their references. An array
block has storage for `cap` elements of which the first `len` are in use; it
grows when it is full. A closure block ends in an environment of fixed size.
-/

namespace Stela

abbrev Bytes := List UInt8

structure ArrayBlock where
  refcount : Nat
  cap : Nat
  len : Nat
  /-- How many bytes of storage there are; with none there is no storage. -/
  size : Nat
  /-- The storage up to the last byte that was written; zeros follow. -/
  written : Bytes
deriving Repr, DecidableEq

structure ClosureBlock where
  refcount : Nat
  /-- Whether the environment has a destructor. -/
  hasDestructor : Bool
  env : Bytes
deriving Repr, DecidableEq

def zeros (n : Nat) : Bytes := List.replicate n 0

/-- Overwrites bytes from `offset` on; up to there zeros stand for missing bytes. -/
def writeBytes (storage : Bytes) (offset : Nat) (bytes : Bytes) : Bytes :=
  storage.take offset ++ zeros (offset - storage.length) ++ bytes ++
    storage.drop (offset + bytes.length)

namespace ArrayBlock

/-- An empty block with room for `cap` elements. -/
def new (elemSize cap : Nat) : ArrayBlock := ⟨1, cap, 0, elemSize * cap, []⟩

/-- All bytes of the storage. -/
def storage (b : ArrayBlock) : Bytes := b.written ++ zeros (b.size - b.written.length)

/-- Capacity after growth. -/
def grownCap (cap : Nat) : Nat := 2 * max cap 2

/-- Moves the elements to larger storage. -/
def grow (b : ArrayBlock) (elemSize : Nat) : ArrayBlock :=
  let cap := grownCap b.cap
  { b with cap := cap, size := elemSize * cap, written := b.written.take (elemSize * b.cap) }

/-- Appends an element, after growth if the block is full. -/
def push (b : ArrayBlock) (elem : Bytes) : ArrayBlock :=
  let b := if b.len = b.cap then b.grow elem.length else b
  { b with written := writeBytes b.written (b.len * elem.length) elem, len := b.len + 1 }

/-- The bytes of an element in use. -/
def element (b : ArrayBlock) (elemSize index : Nat) : Bytes :=
  (b.written.drop (index * elemSize)).take elemSize

/-- The elements in use, in order. -/
def elements (b : ArrayBlock) (elemSize : Nat) : List Bytes :=
  (List.range b.len).map (b.element elemSize)

end ArrayBlock

namespace ClosureBlock

/-- Bytes before the environment. -/
def headerSize : Nat := 32

/-- A closure with a zeroed environment. -/
def new (hasDestructor : Bool) (envSize : Nat) : ClosureBlock := ⟨1, hasDestructor, zeros envSize⟩

end ClosureBlock

end Stela
