import Stela.Types.Table
import Mathlib.Logic.Basic

/-!
# Entering types

Asking a table for the number of a type gives a number under which the table
holds that type. Nothing that the table held before changes, and a table in
which no type occurs twice keeps that property.
-/

namespace Stela.TypeTable

variable {t : TypeTable} {ty ty' : Ty} {id id' : TypeId}

/-- Every entry of the first table is in the second under the same number. -/
def Within (t t' : TypeTable) : Prop := ∀ id ty, t.get? id = some ty → t'.get? id = some ty

theorem Within.refl (t : TypeTable) : t.Within t := fun _ _ h => h

theorem Within.trans {t t' t'' : TypeTable} (h : t.Within t') (h' : t'.Within t'') :
    t.Within t'' := fun id ty hid => h' id ty (h id ty hid)

theorem lt_size_of_get? (h : t.get? id = some ty) : id < t.size :=
  (Array.getElem?_eq_some_iff.mp h).1

theorem Within.size_le {t' : TypeTable} (h : t.Within t') : t.size ≤ t'.size := by
  refine Nat.le_of_not_lt fun hlt => Nat.lt_irrefl t'.size ?_
  exact lt_size_of_get? (h t'.size _ (Array.getElem?_eq_getElem hlt))

theorem get?_of_find? (h : t.find? ty = some id) : t.get? id = some ty := by
  obtain ⟨hlt, heq, -⟩ := Array.findIdx?_eq_some_iff_getElem.mp h
  exact Array.getElem?_eq_some_iff.mpr ⟨hlt, by simpa using heq⟩

theorem get?_ne_of_find?_eq_none (h : t.find? ty = none) (id : TypeId) :
    t.get? id ≠ some ty := by
  intro hid
  obtain ⟨hlt, heq⟩ := Array.getElem?_eq_some_iff.mp hid
  have hall := Array.findIdx?_eq_none_iff.mp h
  have hne := hall ty (heq ▸ Array.getElem_mem hlt)
  simp at hne

/-- The number of a type leads to that type. -/
theorem get?_intern (t : TypeTable) (ty : Ty) : (t.intern ty).2.get? (t.intern ty).1 = some ty := by
  unfold intern
  split
  · exact get?_of_find? ‹_›
  · simp [get?, size]

theorem within_intern (t : TypeTable) (ty : Ty) : t.Within (t.intern ty).2 := by
  intro id ty' hid
  unfold intern
  split
  · exact hid
  · have hlt := lt_size_of_get? hid
    simp only [get?, size] at hid hlt ⊢
    rw [Array.getElem?_push, if_neg (Nat.ne_of_lt hlt)]
    exact hid

/-- An entry after entering a type was there before or is that type. -/
theorem get?_intern_inv (h : (t.intern ty).2.get? id = some ty') :
    t.get? id = some ty' ∨ id = (t.intern ty).1 ∧ ty' = ty := by
  unfold intern at h ⊢
  split at h
  · exact .inl h
  · simp only [get?, size, Array.getElem?_push] at h ⊢
    split at h
    · next heq => exact .inr ⟨heq, (Option.some.inj h).symm⟩
    · exact .inl h

/-- No type has two numbers. -/
def Injective (t : TypeTable) : Prop :=
  ∀ id id' ty, t.get? id = some ty → t.get? id' = some ty → id = id'

theorem Injective.intern (h : t.Injective) (ty : Ty) : (t.intern ty).2.Injective := by
  intro id id' ty' hid hid'
  unfold TypeTable.intern at hid hid'
  split at hid
  · exact h id id' ty' hid (by simpa [*] using hid')
  · next hnone =>
    simp only [hnone] at hid'
    have hnew := get?_ne_of_find?_eq_none hnone
    simp only [get?, Array.getElem?_push] at hid hid' hnew
    split at hid <;> split at hid'
    · next heq heq' => exact heq.trans heq'.symm
    · exact absurd (hid'.trans hid.symm) (by simpa [hid] using hnew id')
    · exact absurd (hid.trans hid'.symm) (by simpa [hid'] using hnew id)
    · exact h id id' ty' hid hid'

theorem Injective.find? (h : t.Injective) (hid : t.get? id = some ty) : t.find? ty = some id := by
  cases hfind : t.find? ty with
  | none => exact absurd hid (get?_ne_of_find?_eq_none hfind id)
  | some id' => rw [h id' id ty (get?_of_find? hfind) hid]

/-- A type that is there is not entered again. -/
theorem Injective.intern_eq (h : t.Injective) (hid : t.get? id = some ty) : t.intern ty = (id, t) := by
  rw [TypeTable.intern, h.find? hid]

theorem size_intern_le (t : TypeTable) (ty : Ty) : (t.intern ty).2.size ≤ t.size + 1 := by
  unfold intern
  split
  · exact Nat.le_succ _
  · simp [size]

theorem get?_initial (kind : Builtin) : initial.get? kind.typeId = some (.builtin kind) := by
  cases kind <;> rfl

theorem injective_initial : initial.Injective := by
  intro id id' ty hid hid'
  have hlt := lt_size_of_get? hid
  have hlt' := lt_size_of_get? hid'
  have hall : ∀ i < 7, ∀ j < 7, initial.get? i = initial.get? j → i = j := by decide
  exact hall id hlt id' hlt' (hid.trans hid'.symm)

end Stela.TypeTable
