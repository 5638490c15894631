import Stela.Proofs.Types.Layout

/-!
# Which types have a layout

The layout of a struct asks for the layouts of its fields, and nothing stops
these questions where a struct contains itself by value. They come to an end for
exactly the types in which no struct does: a layout that is found is itself the
proof that every walk down the fields ends.
-/

namespace Stela.Tables

variable {t : Tables} {type : TypeId}

/-- Every walk from a laid out type down to structs that it holds by value ends. -/
theorem acc_of_layoutWithin {bound : Nat} {layout : Layout}
    (h : t.layoutWithin bound type = some layout) :
    Acc (fun inner outer => t.HoldsByValue outer inner) (t.representation type) := by
  -- The bound decreases with every struct that the walk enters.
  induction bound generalizing type layout with
  | zero => cases h
  | succ bound ih =>
      apply Acc.intro
      rintro _ ⟨u, v, hu, -, f, hf, rfl⟩
      rw [layoutWithin] at h
      simp only [hu] at h
      obtain ⟨layouts, hlayouts, -⟩ := Option.bind_eq_some_iff.mp h
      obtain ⟨inner, hinner⟩ : ∃ inner, t.layoutWithin bound f.2 = some inner := by
        have hmem : t.layoutWithin bound f.2 ∈ layouts.map some :=
          mapM_eq_some_iff_map.mp hlayouts ▸ List.mem_map_of_mem hf
        obtain ⟨inner, -, hinner⟩ := List.mem_map.mp hmem
        exact ⟨inner, hinner.symm⟩
      exact ih hinner

/-- What is accessible does not lead back to itself. -/
theorem not_transGen_self_of_acc {α : Type} {step : α → α → Prop} {x : α}
    (h : Acc (fun y x => step x y) x) : ¬ Relation.TransGen step x x := by
  intro cycle
  -- A cycle is a single step of the transitive closure.
  induction acc_transGen_iff.mpr h with
  | intro x _ ih => exact ih x (Relation.transGen_swap.mpr cycle) h cycle

/-- A type from which every walk ends holds no struct that contains itself. -/
theorem endsByValue_of_acc
    (h : Acc (fun inner outer => t.HoldsByValue outer inner) (t.representation type)) :
    t.EndsByValue type := by
  intro outer path
  apply not_transGen_self_of_acc
  induction path with
  | refl => exact h
  | tail _ step ih => exact ih.inv step

/-- A type is laid out within some bound exactly if no struct inside it contains itself by
value, and then the number of types is bound enough. -/
theorem exists_layoutWithin_iff (t : Tables) (type : TypeId) :
    (∃ bound layout, t.layoutWithin bound type = some layout) ↔ t.EndsByValue type := by
  constructor
  · rintro ⟨bound, layout, h⟩
    exact endsByValue_of_acc (acc_of_layoutWithin h)
  · intro h
    obtain ⟨layout, hlayout⟩ := h.exists_layout
    exact ⟨t.types.size + 1, layout, hlayout⟩

theorem isSome_layout?_iff (t : Tables) (type : TypeId) :
    (t.layout? type).isSome ↔ t.EndsByValue type := by
  rw [Option.isSome_iff_exists]
  constructor
  · rintro ⟨layout, h⟩
    exact (exists_layoutWithin_iff t type).mp ⟨_, layout, h⟩
  · exact EndsByValue.exists_layout

/-- Every type of a table has a layout exactly if no struct contains itself by value. -/
theorem fieldsEnd_iff_layout (t : Tables) :
    t.FieldsEnd ↔ ∀ type, (t.layout? type).isSome := by
  constructor
  · intro h type
    exact (isSome_layout?_iff t type).mpr (h.endsByValue type)
  · intro h type cycle
    obtain ⟨_, ⟨u, _, hu, -⟩, -⟩ := Relation.TransGen.head'_iff.mp cycle
    have hself : t.representation type = type := representation_eq_self (by simp [aliasTarget?, hu])
    refine (isSome_layout?_iff t type).mp (h type) type ?_ cycle
    rw [hself]

/-- A struct that contains itself behind an alias. -/
def selfContaining : Tables where
  types := ⟨TypeTable.initial.entries ++ #[.structType 0, .aliasType 1]⟩
  symbols := ⟨#[
    { name := "S", span := .dummy, kind := .structType ⟨1, [2], 7⟩, scope := 0 },
    { name := "Same", span := .dummy, kind := .aliasType ⟨true, .resolved 7, 8⟩, scope := 0 },
    { name := "s", span := .dummy, kind := .field ⟨0, 8, .everyone, 0⟩, scope := 1 }]⟩

example : selfContaining.layout? 7 = none ∧ selfContaining.layout? 8 = none ∧
    (selfContaining.layout? 6).isSome := by decide +kernel

end Stela.Tables
