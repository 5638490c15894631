import Stela.Syntax.NodeMap
import Mathlib.Data.List.Basic

/-!
# Entries of a map

Setting the value of one node leaves all others as they are, and the listing of
a map has each node with a value once.
-/

namespace Stela.NodeMap

variable {α : Type} {m m' : NodeMap α} {id node : Nat} {value : α}

theorem get?_insert : (m.insert id value).get? node = if node = id then some value else m.get? node := by
  unfold insert get?
  split
  · next hlt =>
    rw [Array.getElem?_modify]
    by_cases heq : node = id
    · subst heq
      simp [Array.getElem?_eq_getElem hlt]
    · simp [heq, Ne.symm heq]
  · next hge =>
    have hsize : (m.entries ++ Array.replicate (id - m.entries.size) none).size = id := by
      simp only [Array.size_append, Array.size_replicate]
      omega
    rw [Array.getElem?_push, hsize]
    split
    · simp
    · rw [Array.getElem?_append]
      split
      · rfl
      · next hnode =>
        have hnone : m.entries[node]? = none := Array.getElem?_eq_none (Nat.le_of_not_lt hnode)
        rw [hnone, Array.getElem?_replicate]
        split <;> rfl

@[simp] theorem get?_insert_self : (m.insert id value).get? id = some value := by
  rw [get?_insert, if_pos rfl]

theorem get?_insert_ne (h : node ≠ id) : (m.insert id value).get? node = m.get? node := by
  rw [get?_insert, if_neg h]

@[simp] theorem get?_empty : (empty : NodeMap α).get? node = none := by
  simp [empty, get?]

/-- Filling a node keeps what is there and adds one value at most. -/
theorem get?_of_fill? [DecidableEq α] (h : m.fill? id value = some m') :
    m'.get? id = some value ∧ ∀ node ≠ id, m'.get? node = m.get? node := by
  unfold fill? at h
  split at h
  · obtain rfl := Option.some.inj h
    exact ⟨get?_insert_self, fun node hne => get?_insert_ne hne⟩
  · next hold =>
    split at h
    · next heq =>
      obtain rfl := Option.some.inj h
      exact ⟨heq ▸ hold, fun _ _ => rfl⟩
    · simp at h

theorem get?_mono_of_fill? [DecidableEq α] (h : m.fill? id value = some m') {old : α}
    (hold : m.get? node = some old) : m'.get? node = some old := by
  by_cases heq : node = id
  · subst heq
    unfold fill? at h
    rw [hold] at h
    simp only at h
    split at h
    · exact Option.some.inj h ▸ hold
    · simp at h
  · exact ((get?_of_fill? h).2 node heq).trans hold

theorem mem_toList {entry : Nat × α} : entry ∈ m.toList ↔ m.get? entry.1 = some entry.2 := by
  obtain ⟨id, value⟩ := entry
  simp only [toList, List.mem_filterMap, List.mem_range, Option.map_eq_some_iff, Prod.mk.injEq]
  constructor
  · rintro ⟨id', -, value', hget, rfl, rfl⟩
    exact hget
  · intro hget
    refine ⟨id, ?_, value, hget, rfl, rfl⟩
    unfold get? at hget
    by_contra hge
    rw [Array.getElem?_eq_none (Nat.le_of_not_lt hge)] at hget
    simp at hget

/-- No node is listed twice. -/
theorem nodup_toList : (m.toList.map (·.1)).Nodup := by
  have hsub : (m.toList.map (·.1)).Sublist (List.range m.entries.size) := by
    unfold toList
    generalize List.range m.entries.size = ids
    induction ids with
    | nil => simp
    | cons id rest ih =>
        simp only [List.filterMap_cons]
        cases m.get? id with
        | none => exact ih.cons id
        | some value => exact ih.cons_cons id
  exact hsub.nodup List.nodup_range

/-- Setting the value of a node that has one makes the map no larger. -/
theorem size_insert {old : α} (h : m.get? id = some old) :
    (m.insert id value).entries.size = m.entries.size := by
  have hlt : id < m.entries.size := by
    by_contra hge
    rw [get?, Array.getElem?_eq_none (Nat.le_of_not_lt hge)] at h
    cases h
  rw [insert, if_pos hlt, Array.size_modify]

/-- Maps of one size that give every node the same value are the same. -/
theorem eq_of_get? (hsize : m.entries.size = m'.entries.size)
    (h : ∀ node, m.get? node = m'.get? node) : m = m' := by
  obtain ⟨entries⟩ := m
  obtain ⟨entries'⟩ := m'
  refine congrArg NodeMap.mk (Array.ext hsize fun node hlt hlt' => ?_)
  have hnode := h node
  rw [get?, get?, Array.getElem?_eq_getElem hlt, Array.getElem?_eq_getElem hlt'] at hnode
  exact hnode

end Stela.NodeMap
