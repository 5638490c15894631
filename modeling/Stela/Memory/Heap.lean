import Stela.Memory.Block

/-!
# The heap of counted blocks

A handle is empty or names a block. Copies of a handle are counted by `retain`;
`releaseArray` and `releaseClosure` give up one reference, and the last one
destroys the contents and frees the block. What the heap did, destructor calls
and freed memory, is kept in order.
-/

namespace Stela

abbrev BlockId := Nat

/-- The value of an array or closure variable. -/
abbrev Handle := Option BlockId

inductive Block where
  | array (block : ArrayBlock)
  | closure (block : ClosureBlock)
  | freed
deriving Repr, DecidableEq

inductive HeapEvent where
  /-- A destructor was called on these bytes of a block. -/
  | destroyed (block : BlockId) (bytes : Bytes)
  /-- Memory of a block was given back: how much it was and how much was said. -/
  | released (block : BlockId) (allocated claimed : Nat)
deriving Repr, DecidableEq

structure Heap where
  blocks : Array Block
  events : List HeapEvent
deriving Repr

namespace Heap

def empty : Heap := ⟨#[], []⟩

def get? (h : Heap) (handle : Handle) : Option Block := handle.bind fun id => h.blocks[id]?

def set (h : Heap) (id : BlockId) (block : Block) : Heap :=
  { h with blocks := h.blocks.modify id fun _ => block }

def log (h : Heap) (events : List HeapEvent) : Heap := { h with events := h.events ++ events }

def allocate (h : Heap) (block : Block) : BlockId × Heap :=
  (h.blocks.size, { h with blocks := h.blocks.push block })

def newArray (h : Heap) (elemSize cap : Nat) : BlockId × Heap :=
  h.allocate (.array (.new elemSize cap))

def newClosure (h : Heap) (hasDestructor : Bool) (envSize : Nat) : BlockId × Heap :=
  h.allocate (.closure (.new hasDestructor envSize))

/-- Capacity of the block that a push onto an empty handle allocates. -/
def firstCap : Nat := 4

/-- Appends an element to the array of a handle; an empty handle gets a block. -/
def push (h : Heap) (handle : Handle) (elem : Bytes) : Handle × Heap :=
  let (id, h) := match handle with
    | some id => (id, h)
    | none => h.newArray elem.length firstCap
  match h.get? (some id) with
  | some (.array block) =>
    let h := h.set id (.array (block.push elem))
    if block.len = block.cap then
      (some id, h.log [.released id block.size (elem.length * block.cap)])
    else (some id, h)
  | _ => (some id, h)

/-- Adds a reference. -/
def retain (h : Heap) (handle : Handle) : Heap :=
  match handle, h.get? handle with
  | some id, some (.array block) => h.set id (.array { block with refcount := block.refcount + 1 })
  | some id, some (.closure block) =>
    h.set id (.closure { block with refcount := block.refcount + 1 })
  | _, _ => h

/-- Gives up a reference to an array. The last one calls the element destructor,
if there is one, on every element in order. -/
def releaseArray (h : Heap) (handle : Handle) (elemSize : Nat) (destructor : Bool) : Heap :=
  match handle, h.get? handle with
  | some id, some (.array block) =>
    if block.refcount = 1 then
      let destroyed := if destructor then (block.elements elemSize).map (.destroyed id) else []
      (h.set id .freed).log
        (destroyed ++ [.released id block.size (elemSize * block.cap)])
    else h.set id (.array { block with refcount := block.refcount - 1 })
  | _, _ => h

/-- Gives up a reference to a closure. The last one calls the destructor of the
environment, if there is one. -/
def releaseClosure (h : Heap) (handle : Handle) : Heap :=
  match handle, h.get? handle with
  | some id, some (.closure block) =>
    if block.refcount = 1 then
      let destroyed := if block.hasDestructor then [.destroyed id block.env] else []
      let size := ClosureBlock.headerSize + block.env.length
      (h.set id .freed).log (destroyed ++ [.released id size size])
    else h.set id (.closure { block with refcount := block.refcount - 1 })
  | _, _ => h

/-- Copies bytes to the start of the environment of a closure. -/
def writeEnv (h : Heap) (id : BlockId) (bytes : Bytes) : Heap :=
  match h.get? (some id) with
  | some (.closure block) => h.set id (.closure { block with env := writeBytes block.env 0 bytes })
  | _ => h

end Heap

end Stela
