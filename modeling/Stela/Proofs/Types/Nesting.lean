import Mathlib.Data.Finset.Card
import Mathlib.Logic.Relation

/-!
# How deep entries of a finite table nest

Walks down the types of a table stop after as many steps as the table has
entries. That is enough where no entry leads back to itself: each step then
leaves fewer entries to be reached.
-/

namespace Stela

variable {step : Nat → Nat → Prop} {size : Nat} {x y : Nat}

open Classical in
/-- The entries of a table of `size` entries that are reached from one of them. -/
noncomputable def reached (step : Nat → Nat → Prop) (size x : Nat) : Finset Nat :=
  (Finset.range size).filter (Relation.ReflTransGen step x)

theorem mem_reached : y ∈ reached step size x ↔ y < size ∧ Relation.ReflTransGen step x y := by
  simp [reached]

theorem card_reached_le (step : Nat → Nat → Prop) (size x : Nat) :
    (reached step size x).card ≤ size := by
  have hsub : reached step size x ⊆ Finset.range size := fun y hy =>
    Finset.mem_range.mpr (mem_reached.mp hy).1
  simpa using Finset.card_le_card hsub

/-- A walk from an entry that does not lead back to itself leaves fewer entries to be reached. -/
theorem card_reached_lt (hsize : x < size) (hcycle : ¬ Relation.TransGen step x x)
    (path : Relation.TransGen step x y) :
    (reached step size y).card < (reached step size x).card := by
  refine Finset.card_lt_card (Finset.ssubset_iff_subset_ne.mpr ⟨?_, ?_⟩)
  · intro z hz
    obtain ⟨hlt, rest⟩ := mem_reached.mp hz
    exact mem_reached.mpr ⟨hlt, path.to_reflTransGen.trans rest⟩
  · intro heq
    have hx : x ∈ reached step size x := mem_reached.mpr ⟨hsize, .refl⟩
    rw [← heq] at hx
    exact hcycle (path.trans_left (mem_reached.mp hx).2)

/-- No entry leads back to itself if some measure decreases with each step. -/
theorem not_transGen_self_of_rank (rank : Nat → Nat) (h : ∀ x y, step x y → rank y < rank x)
    (x : Nat) : ¬ Relation.TransGen step x x := by
  have descent {x y : Nat} (path : Relation.TransGen step x y) : rank y < rank x := by
    induction path with
    | single hstep => exact h _ _ hstep
    | tail _ hstep ih => exact (h _ _ hstep).trans ih
  exact fun cycle => lt_irrefl _ (descent cycle)

end Stela
