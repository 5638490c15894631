import Mathlib.Data.List.Induction
import Stela.Proofs.Memory.References

/-!
# Arrays that grow

An array starts as an empty handle or as a new block of some capacity. Pushes of
elements of one size are then appends to a list, whatever the size and the
capacity are: the elements stand in the storage in the order of their pushes,
however often the storage was replaced by a larger one in between.
-/

namespace Stela

namespace ArrayBlock

@[simp] theorem refcount_push (b : ArrayBlock) (elem : Bytes) : (b.push elem).refcount = b.refcount := by
  unfold push
  split <;> rfl

theorem cap_push (b : ArrayBlock) (elem : Bytes) :
    (b.push elem).cap = if b.len = b.cap then 2 * max b.cap 2 else b.cap := by
  unfold push
  split <;> rfl

/-- What a push may do to a block apart from adding the element. -/
structure Widens (b b' : ArrayBlock) : Prop where
  refcount : b'.refcount = b.refcount
  cap : b'.cap = if b.len = b.cap then 2 * max b.cap 2 else b.cap

theorem widens_push (b : ArrayBlock) (elem : Bytes) : b.Widens (b.push elem) :=
  ⟨b.refcount_push elem, b.cap_push elem⟩

end ArrayBlock

/-- What an array is before the first push. -/
inductive ArrayStart where
  /-- An empty handle. -/
  | nothing
  /-- A new block with room for `cap` elements. -/
  | room (cap : Nat)
deriving Repr, DecidableEq

namespace Heap

/-- Makes an array for elements of one size. -/
def begin (h : Heap) (elemSize : Nat) : ArrayStart → Handle × Heap
  | .nothing => (none, h)
  | .room cap => (some (h.newArray elemSize cap).1, (h.newArray elemSize cap).2)

/-- Pushes elements one after the other. -/
def pushAll (handle : Handle) (h : Heap) (elems : List Bytes) : Handle × Heap :=
  elems.foldl (fun state elem => state.2.push state.1 elem) (handle, h)

/-- The heap and the handle after these elements were pushed onto a new array. -/
def filled (h : Heap) (elemSize : Nat) (start : ArrayStart) (elems : List Bytes) : Handle × Heap :=
  pushAll (h.begin elemSize start).1 (h.begin elemSize start).2 elems

/-- What one more push does to the block of a handle. The first push onto an empty handle makes one. -/
def Widens (before after : Handle × Heap) (elemSize : Nat) : Prop :=
  match before.1 with
  | none => ∃ id b, after.1 = some id ∧ after.2.get? (some id) = some (.array b) ∧
      (ArrayBlock.new elemSize firstCap).Widens b
  | some id => after.1 = some id ∧ ∃ b b', before.2.get? (some id) = some (.array b) ∧
      after.2.get? (some id) = some (.array b') ∧ b.Widens b'

variable {h : Heap} {elemSize : Nat} {start : ArrayStart} {elems : List Bytes} {elem : Bytes}

/-- What is known of an array along its pushes. -/
def Filled (state : Handle × Heap) (elemSize : Nat) (elems : List Bytes) : Prop :=
  match state.1 with
  | none => elems = []
  | some id => ∃ b, state.2.get? (some id) = some (.array b) ∧ b.Holds elemSize elems

/-- A new block is found under its number. -/
theorem get?_newArray (h : Heap) (elemSize cap : Nat) :
    (h.newArray elemSize cap).2.get? (some (h.newArray elemSize cap).1) =
      some (.array (.new elemSize cap)) :=
  Array.getElem?_push_size

/-- A push onto a live block changes it in its place. -/
theorem get?_push {id : BlockId} {b : ArrayBlock} (hget : h.get? (some id) = some (.array b))
    (elem : Bytes) : (h.push (some id) elem).1 = some id ∧
      (h.push (some id) elem).2.get? (some id) = some (.array (b.push elem)) := by
  constructor
  · simp only [push, hget]
    split <;> rfl
  · rw [Ledger.push_of_get? hget]
    have hset := h.getElem?_set id id (.array (b.push elem))
    rw [if_pos rfl, show h.blocks[id]? = some (.array b) from hget] at hset
    exact hset

/-- One push keeps what is known and changes no more of the block than it may. -/
theorem Filled.push {state : Handle × Heap} (hfilled : Filled state elemSize elems)
    (helem : elem.length = elemSize) : Filled (state.2.push state.1 elem) elemSize (elems ++ [elem]) ∧
      Widens state (state.2.push state.1 elem) elemSize := by
  obtain ⟨handle, h⟩ := state
  subst helem
  cases handle with
  | none =>
      obtain rfl : elems = [] := hfilled
      -- The push goes to a new block, which has room.
      have hopen : h.push none elem = (h.newArray elem.length firstCap).2.push
          (some (h.newArray elem.length firstCap).1) elem := rfl
      obtain ⟨hhandle, hget⟩ := get?_push (h.get?_newArray elem.length firstCap) elem
      rw [← hopen] at hhandle hget
      refine ⟨?_, _, _, hhandle, hget, ArrayBlock.widens_push _ elem⟩
      unfold Filled
      rw [hhandle]
      exact ⟨_, hget, (ArrayBlock.holds_new elem.length firstCap).push rfl⟩
  | some id =>
      obtain ⟨b, hb, hholds⟩ := hfilled
      obtain ⟨hhandle, hget⟩ := get?_push hb elem
      refine ⟨?_, hhandle, b, _, hb, hget, b.widens_push elem⟩
      unfold Filled
      rw [hhandle]
      exact ⟨_, hget, hholds.push rfl⟩

end Heap

end Stela
