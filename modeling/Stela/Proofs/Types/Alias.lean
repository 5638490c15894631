import Stela.Types.Equality
import Mathlib.Data.Finset.Card
import Mathlib.Logic.Relation
import Mathlib.Order.WellFounded

/-!
# Chains of aliases

Following the targets of aliases ends in every table without an alias cycle.
The bounded walk of `Tables.unwrap` then reaches the end of the chain: the
aliases on the way are different entries of the table, so there are at most as
many of them as there are types.
-/

namespace Stela.Tables

variable {t : Tables} {strong : Bool}

/-- One step from an alias to its target. -/
def AliasStep (t : Tables) (strong : Bool) (type target : TypeId) : Prop :=
  t.aliasTarget? strong type = some target

/-- Following alias targets ends from every type: there is no alias cycle. -/
def AliasesEnd (t : Tables) (strong : Bool) : Prop :=
  WellFounded fun target type => t.AliasStep strong type target

/-- `last` is where the chain of aliases from `type` ends. -/
def Unwraps (t : Tables) (strong : Bool) (type last : TypeId) : Prop :=
  Relation.ReflTransGen (t.AliasStep strong) type last ∧ t.aliasTarget? strong last = none

/-- Only an entry of the table can be an alias. -/
theorem AliasStep.lt_size {type target : TypeId} (h : t.AliasStep strong type target) :
    type < t.types.size := by
  by_contra hge
  have hnone : t.types.get? type = none := Array.getElem?_eq_none (Nat.le_of_not_lt hge)
  simp [AliasStep, aliasTarget?, hnone] at h

/-- A table has no alias cycle if some measure of its entries decreases along aliases. -/
theorem aliasesEnd_of_rank (rank : TypeId → Nat)
    (h : ∀ type < t.types.size, ∀ target ∈ t.aliasTarget? strong type, rank target < rank type) :
    t.AliasesEnd strong := by
  refine Subrelation.wf ?_ (measure rank).wf
  intro target type step
  exact h type step.lt_size target step

/-- No type lies on its own chain of aliases. -/
theorem AliasesEnd.not_transGen_self (h : t.AliasesEnd strong) (type : TypeId) :
    ¬ Relation.TransGen (t.AliasStep strong) type type := by
  intro cycle
  have wf : WellFounded (Relation.TransGen fun target type => t.AliasStep strong type target) :=
    h.transGen
  exact wf.irrefl.irrefl type (Relation.transGen_swap.mpr cycle)

/-- The walk ends if its bound is at least the number of types that do not lead to its start. -/
theorem unwraps_unwrap (h : t.AliasesEnd strong) (bound : Nat) (type : TypeId)
    (before : Finset TypeId) (hsub : before ⊆ Finset.range t.types.size)
    (hbefore : ∀ x ∈ before, Relation.TransGen (t.AliasStep strong) x type)
    (hbound : t.types.size ≤ bound + before.card) :
    t.Unwraps strong type (t.unwrap strong bound type) := by
  induction bound generalizing type before with
  | zero =>
      refine ⟨.refl, ?_⟩
      -- All types lead to this one, which therefore leads nowhere.
      have hall : before = Finset.range t.types.size :=
        Finset.eq_of_subset_of_card_le hsub (by simpa using hbound)
      rw [unwrap]
      by_contra hne
      obtain ⟨target, htarget⟩ := Option.ne_none_iff_exists'.mp hne
      have step : t.AliasStep strong type target := htarget
      exact h.not_transGen_self type (hbefore type (by simpa [hall] using step.lt_size))
  | succ bound ih =>
      rw [unwrap]
      cases hstep : t.aliasTarget? strong type with
      | none => exact ⟨.refl, hstep⟩
      | some target =>
          have step : t.AliasStep strong type target := hstep
          have hnew : type ∉ before := fun hmem =>
            h.not_transGen_self type (hbefore type hmem)
          have hends := ih target (insert type before)
            (Finset.insert_subset (Finset.mem_range.mpr step.lt_size) hsub)
            (by
              intro x hx
              rcases Finset.mem_insert.mp hx with rfl | hx
              · exact .single step
              · exact (hbefore x hx).tail step)
            (by rw [Finset.card_insert_of_notMem hnew]; omega)
          exact ⟨.head step hends.1, hends.2⟩

/-- The end of a chain of aliases is unique. -/
theorem Unwraps.unique {type last last' : TypeId} (h : t.Unwraps strong type last)
    (h' : t.Unwraps strong type last') : last = last' := by
  obtain ⟨chain, hlast⟩ := h
  induction chain using Relation.ReflTransGen.head_induction_on with
  | refl =>
      rcases h'.1.cases_head with rfl | ⟨next, step, -⟩
      · rfl
      · simp [AliasStep, hlast] at step
  | @head type next step _ ih =>
      rcases h'.1.cases_head with rfl | ⟨next', step', chain'⟩
      · simp [AliasStep, h'.2] at step
      · obtain rfl : next = next' := Option.some.inj (step.symm.trans step')
        exact ih ⟨chain', h'.2⟩

/-- Without a cycle of weak aliases `concrete` is the end of the chain of weak aliases. -/
theorem unwraps_concrete (h : t.AliasesEnd false) (type : TypeId) :
    t.Unwraps false type (t.concrete type) :=
  unwraps_unwrap h _ type ∅ (Finset.empty_subset _) (by simp) (by simp)

/-- Without an alias cycle `representation` is the end of the chain of all aliases. -/
theorem unwraps_representation (h : t.AliasesEnd true) (type : TypeId) :
    t.Unwraps true type (t.representation type) :=
  unwraps_unwrap h _ type ∅ (Finset.empty_subset _) (by simp) (by simp)

/-- A type that is no weak alias is concrete. -/
theorem concrete_eq_self {type : TypeId} (h : t.aliasTarget? false type = none) :
    t.concrete type = type := by
  rw [concrete]
  cases t.types.size with
  | zero => rfl
  | succ n => simp [unwrap, h]

/-- What is behind weak aliases is no weak alias itself. -/
theorem concrete_concrete (h : t.AliasesEnd false) (type : TypeId) :
    t.concrete (t.concrete type) = t.concrete type :=
  concrete_eq_self (unwraps_concrete h type).2

end Stela.Tables
