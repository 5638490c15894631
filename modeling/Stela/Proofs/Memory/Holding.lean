import Stela.Memory.Block

/-!
# The elements that an array block holds

A block that was filled by pushes holds the pushed elements one behind the other
from the start of its storage, has room for them and knows how much storage it
has. Growth keeps this, and a push adds its element at the end.
-/

namespace Stela

/-- In a row of parts of one size the parts stand at the multiples of the size. -/
theorem take_drop_flatten {size : Nat} {parts : List Bytes} (hsize : ∀ part ∈ parts, part.length = size)
    {i : Nat} {part : Bytes} (hi : parts[i]? = some part) (tail : Bytes) :
    ((parts.flatten ++ tail).drop (i * size)).take size = part := by
  induction parts generalizing i with
  | nil => cases hi
  | cons first rest ih =>
      have hfirst : first.length = size := hsize first List.mem_cons_self
      cases i with
      | zero =>
          obtain rfl : first = part := by simpa using hi
          simp [← hfirst]
      | succ i =>
          have hrest : rest[i]? = some part := by simpa using hi
          have hskip : (i + 1) * size = first.length + i * size := by
            rw [hfirst, Nat.add_mul, Nat.one_mul, Nat.add_comm]
          rw [List.flatten_cons, List.append_assoc, hskip, List.drop_length_add_append]
          exact ih (fun part hpart => hsize part (List.mem_cons_of_mem _ hpart)) hrest

/-- Writing at the end of the storage adds to it. -/
theorem writeBytes_length (storage bytes : Bytes) :
    writeBytes storage storage.length bytes = storage ++ bytes := by
  simp [writeBytes, zeros]

namespace ArrayBlock

/-- The block holds these parts of one size, in this order. -/
structure Holds (b : ArrayBlock) (elemSize : Nat) (parts : List Bytes) : Prop where
  len : b.len = parts.length
  room : b.len ≤ b.cap
  size : b.size = elemSize * b.cap
  written : b.written = parts.flatten
  parts : ∀ part ∈ parts, part.length = elemSize

theorem holds_new (elemSize cap : Nat) : (new elemSize cap).Holds elemSize [] where
  len := rfl
  room := Nat.zero_le cap
  size := rfl
  written := rfl
  parts := by simp

theorem lt_grownCap (cap : Nat) : cap < grownCap cap := by
  unfold grownCap
  omega

namespace Holds

variable {b : ArrayBlock} {elemSize : Nat} {parts : List Bytes} (h : b.Holds elemSize parts)

include h

theorem length_written : b.written.length = b.len * elemSize := by
  have hlengths : parts.map List.length = List.replicate parts.length elemSize :=
    List.eq_replicate_iff.mpr ⟨by simp, by simpa using h.parts⟩
  rw [h.written, List.length_flatten, hlengths, List.sum_replicate_nat, h.len]

/-- Growth gives room for another element and moves the elements as they are. -/
theorem grow : (b.grow elemSize).Holds elemSize parts where
  len := h.len
  room := Nat.le_trans h.room (Nat.le_of_lt (lt_grownCap b.cap))
  size := rfl
  written := by
    have hfits : b.written.length ≤ elemSize * b.cap := by
      rw [h.length_written, Nat.mul_comm]
      exact Nat.mul_le_mul_left elemSize h.room
    exact (List.take_of_length_le hfits).trans h.written
  parts := h.parts

/-- What is written behind the last element becomes the new last element. -/
theorem append {elem : Bytes} (helem : elem.length = elemSize) (hroom : b.len < b.cap) :
    ArrayBlock.Holds { b with
      written := writeBytes b.written (b.len * elem.length) elem, len := b.len + 1 } elemSize
      (parts ++ [elem]) where
  len := by simp [h.len]
  room := hroom
  size := h.size
  written := by
    show writeBytes b.written (b.len * elem.length) elem = (parts ++ [elem]).flatten
    rw [helem, ← h.length_written, writeBytes_length, h.written]
    simp
  parts := by
    intro part hpart
    rcases List.mem_append.mp hpart with hold | hnew
    · exact h.parts part hold
    · rw [List.mem_singleton.mp hnew, helem]

theorem push {elem : Bytes} (helem : elem.length = elemSize) :
    (b.push elem).Holds elemSize (parts ++ [elem]) := by
  subst helem
  unfold ArrayBlock.push
  by_cases hfull : b.len = b.cap
  · rw [if_pos hfull]
    apply h.grow.append rfl
    calc b.len ≤ b.cap := h.room
      _ < grownCap b.cap := lt_grownCap b.cap
  · rw [if_neg hfull]
    exact h.append rfl (Nat.lt_of_le_of_ne h.room hfull)

/-- Each part is found at its place in the storage. -/
theorem storage {i : Nat} {part : Bytes} (hi : parts[i]? = some part) :
    (b.storage.drop (i * elemSize)).take elemSize = part := by
  unfold ArrayBlock.storage
  rw [h.written]
  exact take_drop_flatten h.parts hi _

theorem elements : b.elements elemSize = parts := by
  apply List.ext_getElem?
  intro i
  unfold ArrayBlock.elements
  rw [List.getElem?_map, h.len]
  by_cases hi : i < parts.length
  · have hpart : parts[i]? = some parts[i] := List.getElem?_eq_getElem hi
    rw [List.getElem?_range hi, hpart, Option.map_some, ArrayBlock.element, h.written]
    have hplace := take_drop_flatten h.parts hpart []
    rw [List.append_nil] at hplace
    rw [hplace]
  · have hout : parts.length ≤ i := Nat.le_of_not_lt hi
    rw [List.getElem?_eq_none hout, List.getElem?_eq_none (by simpa using hout)]
    rfl

end Holds

end ArrayBlock

end Stela
