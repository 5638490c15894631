import Stela.Proofs.Types.Alias
import Stela.Proofs.Types.Growth

/-!
# Types without cycles

The number of an array or a function type is above those of its parts. The
number of an alias tells nothing about its target, which is found later; what an
alias stands for ends since its target was founded when it was found. Together
this makes the graph of parts and targets acyclic.
-/

namespace Stela

/-- The types that an array or a function type is made of. -/
def Ty.parts : Ty → List TypeId
  | .array element => [element]
  | .func params ret => params.map (·.2) ++ [ret]
  | _ => []

namespace TypeTable

variable {t : TypeTable} {ty : Ty}

/-- Types were entered after their parts. -/
def Ordered (t : TypeTable) : Prop := ∀ id ty, t.get? id = some ty → ∀ part ∈ ty.parts, part < id

theorem Ordered.intern (h : t.Ordered) (hparts : ∀ part ∈ ty.parts, part < t.size) :
    (t.intern ty).2.Ordered := by
  intro id ty' hid part hpart
  unfold TypeTable.intern at hid
  split at hid
  · exact h id ty' hid part hpart
  · simp only [get?, size, Array.getElem?_push] at hid hparts
    split at hid
    · next heq =>
      obtain rfl := Option.some.inj hid
      exact heq ▸ hparts part hpart
    · exact h id ty' hid part hpart

theorem ordered_initial : initial.Ordered := by
  intro id ty hid part hpart
  obtain ⟨kind, rfl⟩ := exists_builtin_of_get?_initial hid
  cases hpart

end TypeTable

namespace Tables

/-- An alias leads to its target, an array or a function type to its parts. -/
def Link (t : Tables) (type part : TypeId) : Prop :=
  t.aliasTarget? true type = some part ∨ ∃ ty, t.types.get? type = some ty ∧ part ∈ ty.parts

/-- Following targets and parts ends from every type. -/
def Acyclic (t : Tables) : Prop := WellFounded fun part type => t.Link type part

/-- A type that is no alias and whose parts are founded, or a resolved alias of a founded type. -/
inductive Founded (t : Tables) : TypeId → Prop
  | plain {type ty} (htype : t.types.get? type = some ty) (hplain : ∀ symbol, ty ≠ .aliasType symbol)
      (hparts : ∀ part ∈ ty.parts, Founded t part) : Founded t type
  | resolved {type symbol info target} (htype : t.types.get? type = some (.aliasType symbol))
      (hsymbol : t.symbols.kind? symbol = some (.aliasType info))
      (htarget : info.target = .resolved target) (hfounded : Founded t target) : Founded t type

/-- What aliases stand for is founded. -/
def TargetsFounded (t : Tables) : Prop :=
  ∀ id info target, t.symbols.kind? id = some (.aliasType info) → info.target = .resolved target →
    t.Founded target

variable {t t' : Tables} {type part target : TypeId} {symbol : SymbolId} {info : AliasInfo}

theorem Founded.widens (h : t.Founded type) (hw : t.Widens t') : t'.Founded type := by
  induction h with
  | plain htype hplain _ ih => exact .plain (hw.types _ _ htype) hplain ih
  | resolved htype hsymbol htarget _ ih =>
      obtain ⟨info', hsymbol', htarget'⟩ := hw.resolved _ _ _ hsymbol htarget
      exact .resolved (hw.types _ _ htype) hsymbol' htarget' ih

theorem aliasTarget?_of_alias (htype : t.types.get? type = some (.aliasType symbol))
    (hsymbol : t.symbols.kind? symbol = some (.aliasType info)) :
    t.aliasTarget? true type = info.target? := by
  simp [aliasTarget?, htype, hsymbol]

/-- Only an alias has a target, and only one that is resolved. -/
theorem exists_of_aliasTarget? {throughStrong : Bool}
    (h : t.aliasTarget? throughStrong type = some target) : ∃ symbol info,
      t.types.get? type = some (.aliasType symbol) ∧
        t.symbols.kind? symbol = some (.aliasType info) ∧ info.target = .resolved target := by
  unfold aliasTarget? at h
  split at h
  · next symbol htype =>
    split at h
    · next info hsymbol =>
      refine ⟨symbol, info, htype, hsymbol, ?_⟩
      split at h
      · cases h
      · unfold AliasInfo.target? at h
        split at h
        · next htarget => rw [htarget, Option.some.inj h]
        · cases h
    · cases h
  · cases h

/-- An entry leads on as its form tells. -/
theorem Link.elim {ty : Ty} {P : Prop} (h : t.Link type part) (htype : t.types.get? type = some ty)
    (hpart : part ∈ ty.parts → P)
    (htarget : ∀ symbol info, ty = .aliasType symbol → t.symbols.kind? symbol = some (.aliasType info) →
      info.target = .resolved part → P) : P := by
  rcases h with h | ⟨ty', htype', hmem⟩
  · obtain ⟨symbol, info, htype', hsymbol, hinfo⟩ := exists_of_aliasTarget? h
    exact htarget symbol info (Option.some.inj (htype.symm.trans htype')) hsymbol hinfo
  · obtain rfl := Option.some.inj (htype.symm.trans htype')
    exact hpart hmem

theorem Founded.acc (h : t.Founded type) : Acc (fun part type => t.Link type part) type := by
  induction h with
  | plain htype hplain _ ih =>
      refine .intro _ fun part hlink => hlink.elim htype (ih part) fun symbol _ heq => ?_
      exact absurd heq (hplain symbol)
  | resolved htype hsymbol htarget _ ih =>
      refine .intro _ fun part hlink => hlink.elim htype (fun hmem => by cases hmem) ?_
      intro symbol' info' heq hsymbol' htarget'
      obtain rfl := Ty.aliasType.inj heq
      obtain rfl := SymbolKind.aliasType.inj (Option.some.inj (hsymbol.symm.trans hsymbol'))
      obtain rfl := AliasTarget.resolved.inj (htarget.symm.trans htarget')
      exact ih

/-- There is no cycle where types are entered after their parts and aliases stand for founded
types. -/
theorem acyclic_of_founded (hordered : t.types.Ordered) (h : t.TargetsFounded) : t.Acyclic := by
  refine ⟨fun type => ?_⟩
  induction type using Nat.strong_induction_on with
  | h type ih =>
      refine .intro _ fun part hlink => ?_
      rcases hlink with htarget | ⟨ty, htype, hpart⟩
      · obtain ⟨symbol, info, -, hsymbol, htarget⟩ := exists_of_aliasTarget? htarget
        exact (h symbol info part hsymbol htarget).acc
      · exact ih part (hordered type ty htype part hpart)

theorem Acyclic.aliasesEnd (h : t.Acyclic) (strong : Bool) : t.AliasesEnd strong := by
  refine Subrelation.wf (fun {target type} hstep => ?_) h
  obtain ⟨symbol, info, htype, hsymbol, htarget⟩ := exists_of_aliasTarget? hstep
  exact .inl ((aliasTarget?_of_alias htype hsymbol).trans (by simp [AliasInfo.target?, htarget]))

/-- Growth resolves no further alias once all are resolved. -/
theorem TargetsFounded.grows (h : t.TargetsFounded) (hcomplete : t.Complete) (hgrows : t.Grows t') :
    t'.TargetsFounded := by
  intro id info' target hkind' htarget'
  obtain ⟨info, hkind⟩ := hgrows.aliases id info' hkind'
  obtain ⟨old, hold⟩ := hcomplete id info hkind
  obtain ⟨info'', hkind'', htarget''⟩ := hgrows.widens.resolved id info old hkind hold
  obtain rfl := SymbolKind.aliasType.inj (Option.some.inj (hkind'.symm.trans hkind''))
  obtain rfl := AliasTarget.resolved.inj (htarget'.symm.trans htarget'')
  exact (h id info _ hkind hold).widens hgrows.widens

end Tables

end Stela
