import Stela.Proofs.Types.Table
import Stela.Types.Equality
import Mathlib.Logic.Relation

/-!
# Settled types

While the body of a function is under analysis, a placeholder stands for its
result type. A type is settled if it is no placeholder and no function type with
a placeholder for a result. In a sound table no other type can be built on a
placeholder, so that a settled type mentions none at any depth.
-/

namespace Stela

namespace TypeTable

variable {t t' : TypeTable} {ty : Ty} {id ret : TypeId} {params : List (RefKind × TypeId)}

/-- The type is in the table and no placeholder. -/
def Known (t : TypeTable) (id : TypeId) : Prop :=
  ∃ ty, t.get? id = some ty ∧ ∀ func, ty ≠ .pending func

/-- The type is known and, if it is a function type, has a known result. -/
def Settled (t : TypeTable) (id : TypeId) : Prop :=
  t.Known id ∧ ∀ params ret, t.get? id = some (.func params ret) → t.Known ret

theorem Known.mono (h : t.Known id) (hw : t.Within t') : t'.Known id := by
  obtain ⟨ty, hid, hne⟩ := h
  exact ⟨ty, hw id ty hid, hne⟩

theorem Settled.lt_size (h : t.Settled id) : id < t.size := by
  obtain ⟨⟨ty, hid, -⟩, -⟩ := h
  exact lt_size_of_get? hid

theorem Known.get?_ne (h : t.Known id) (func : SymbolId) : t.get? id ≠ some (.pending func) := by
  obtain ⟨ty, hid, hne⟩ := h
  intro hp
  exact hne func (Option.some.inj (hid.symm.trans hp))

/-- Entries keep their types, also those that the other table has at the same numbers. -/
theorem Known.get?_eq (h : t.Known id) (hw : t.Within t') : t'.get? id = t.get? id := by
  obtain ⟨ty, hid, -⟩ := h
  rw [hid, hw id ty hid]

theorem Settled.mono (h : t.Settled id) (hw : t.Within t') : t'.Settled id := by
  refine ⟨h.1.mono hw, fun params ret hfunc => ?_⟩
  rw [h.1.get?_eq hw] at hfunc
  exact (h.2 params ret hfunc).mono hw

theorem pending?_eq_some {func : SymbolId} :
    t.pending? id = some func ↔ t.get? id = some (.pending func) := by
  unfold pending?
  cases h : t.get? id with
  | none => simp
  | some ty => cases ty <;> simp

theorem Settled.pending?_eq_none (h : t.Settled id) : t.pending? id = none :=
  Option.eq_none_iff_forall_not_mem.mpr fun func hfunc => h.1.get?_ne func (pending?_eq_some.mp hfunc)

/-- The parts of a type to be entered are settled, but for a placeholder as the result of a
function type. -/
def Fits (t : TypeTable) : Ty → Prop
  | .array element => t.Settled element
  | .func params ret =>
    (∀ p ∈ params, t.Settled p.2) ∧ (t.Settled ret ∨ ∃ func, t.get? ret = some (.pending func))
  | _ => True

/-- A table in which only results of function types are placeholders. -/
structure Sound (t : TypeTable) : Prop where
  injective : t.Injective
  builtin : ∀ kind : Builtin, t.get? kind.typeId = some (.builtin kind)
  fits : ∀ id ty, t.get? id = some ty → t.Fits ty

theorem Fits.mono (h : t.Fits ty) (hw : t.Within t') : t'.Fits ty := by
  cases ty with
  | array element => exact Settled.mono h hw
  | func params ret =>
      refine ⟨fun p hp => (h.1 p hp).mono hw, ?_⟩
      rcases h.2 with hret | ⟨func, hret⟩
      · exact .inl (hret.mono hw)
      · exact .inr ⟨func, hw _ _ hret⟩
  | _ => trivial

theorem Sound.intern (h : t.Sound) (hfits : t.Fits ty) : (t.intern ty).2.Sound := by
  have hw := within_intern t ty
  refine ⟨h.injective.intern ty, fun kind => hw _ _ (h.builtin kind), fun id ty' hid => ?_⟩
  rcases get?_intern_inv hid with hold | ⟨-, rfl⟩
  · exact (h.fits id ty' hold).mono hw
  · exact hfits.mono hw

/-- At the start there are the builtin types only. -/
theorem exists_builtin_of_get?_initial (h : initial.get? id = some ty) :
    ∃ kind, ty = .builtin kind := by
  obtain ⟨kind, -, heq⟩ : ∃ kind, kind ∈ Builtin.all ∧ Ty.builtin kind = ty := by
    simpa [initial] using Array.mem_of_getElem? h
  exact ⟨kind, heq.symm⟩

theorem sound_initial : initial.Sound := by
  refine ⟨injective_initial, get?_initial, fun id ty hid => ?_⟩
  obtain ⟨kind, rfl⟩ := exists_builtin_of_get?_initial hid
  trivial

namespace Sound

theorem settled_builtin (h : t.Sound) (kind : Builtin) : t.Settled kind.typeId := by
  have hkind := h.builtin kind
  refine ⟨⟨_, hkind, by simp⟩, fun params ret hfunc => ?_⟩
  simp [hkind] at hfunc

theorem settled_element (h : t.Sound) {element : TypeId} (hid : t.get? id = some (.array element)) :
    t.Settled element := h.fits id _ hid

theorem settled_param (h : t.Sound) (hid : t.get? id = some (.func params ret)) :
    ∀ p ∈ params, t.Settled p.2 := (h.fits id _ hid).1

/-- The result of a function type is settled if it is known. -/
theorem settled_ret (h : t.Sound) (hid : t.get? id = some (.func params ret))
    (hret : t.Known ret) : t.Settled ret := by
  rcases (h.fits id _ hid).2 with hsettled | ⟨func, hpending⟩
  · exact hsettled
  · exact absurd hpending (hret.get?_ne func)

end Sound

end TypeTable

/-- The symbol of the declaration that made the type. -/
def Ty.symbol? : Ty → Option SymbolId
  | .structType symbol | .enumType symbol | .hostType symbol | .aliasType symbol => some symbol
  | .builtin _ | .array _ | .func .. | .pending _ => none

namespace Tables

variable {t t' : Tables} {a b : TypeId}

/-- The aliases that a type stands behind are resolved down to a type that is none. -/
inductive Grounded (t : Tables) : TypeId → Prop
  | plain {type ty} (htype : t.types.get? type = some ty) (hplain : ∀ symbol, ty ≠ .aliasType symbol) :
      Grounded t type
  | resolved {type symbol info target} (htype : t.types.get? type = some (.aliasType symbol))
      (hsymbol : t.symbols.kind? symbol = some (.aliasType info))
      (htarget : info.target = .resolved target) (hgrounded : Grounded t target) : Grounded t type

theorem Grounded.lt_size {type : TypeId} (h : t.Grounded type) : type < t.types.size := by
  cases h with
  | plain htype | resolved htype => exact TypeTable.lt_size_of_get? htype

/-- What the details of a symbol say about types and other symbols. -/
def KindSound (t : Tables) (id : SymbolId) : SymbolKind → Prop
  | .structType info => t.types.get? info.type = some (.structType id) ∧
      ∀ field ∈ info.fields, field < t.symbols.size
  | .enumType info => t.types.get? info.type = some (.enumType id)
  | .aliasType info => t.types.get? info.type = some (.aliasType id) ∧
      ∀ target, info.target = .resolved target → t.types.Settled target ∧ t.Grounded target
  | .hostType info => t.types.get? info.type = some (.hostType id) ∧
      ∀ slot ∈ info.fields, t.types.Settled slot.type
  | .object info => t.types.Settled info.type.type
  | .field info => t.types.Settled info.type
  | .func info => (∀ p ∈ info.params, t.types.Settled p.type) ∧
      (∀ ret, info.ret = some ret → t.types.Settled ret) ∧
      (info.state = .done → info.ret.isSome) ∧ (info.state ≠ .done → info.decl.body.isSome)
  | .closure info => (∀ p ∈ info.params, t.types.Settled p.type) ∧
      (∀ ret, info.ret = some ret → t.types.Settled ret) ∧
      ∀ capture ∈ info.captures, t.types.Settled capture.type
  | .builtinType _ | .enumCase _ | .builtinFunc _ | .moduleSpace _ => True

/-- Tables in which no symbol holds a placeholder, and every type that a declaration made has its
symbol. -/
structure Sound (t : Tables) : Prop where
  types : t.types.Sound
  kinds : ∀ id kind, t.symbols.kind? id = some kind → t.KindSound id kind
  named : ∀ type ty symbol, t.types.get? type = some ty → ty.symbol? = some symbol →
    symbol < t.symbols.size

/-! ## What a type is made of -/

/-- `b` is a part of `a`. -/
inductive Part (t : Tables) : TypeId → TypeId → Prop
  | element {a element} (h : t.types.get? a = some (.array element)) : Part t a element
  | param {a params ret p} (h : t.types.get? a = some (.func params ret)) (hp : p ∈ params) :
      Part t a p.2
  | ret {a params ret} (h : t.types.get? a = some (.func params ret)) : Part t a ret
  | field {a symbol info field fieldInfo} (h : t.types.get? a = some (.structType symbol))
      (hsymbol : t.symbols.kind? symbol = some (.structType info)) (hmem : field ∈ info.fields)
      (hfield : t.symbols.kind? field = some (.field fieldInfo)) : Part t a fieldInfo.type
  | slot {a symbol info slot} (h : t.types.get? a = some (.hostType symbol))
      (hsymbol : t.symbols.kind? symbol = some (.hostType info)) (hslot : slot ∈ info.fields) :
      Part t a slot.type
  | target {a symbol info target} (h : t.types.get? a = some (.aliasType symbol))
      (hsymbol : t.symbols.kind? symbol = some (.aliasType info))
      (htarget : info.target = .resolved target) : Part t a target

/-- A placeholder is among the parts of a type, the parts of its parts, and so on. -/
def Mentions (t : Tables) (a : TypeId) : Prop :=
  ∃ b func, Relation.ReflTransGen t.Part a b ∧ t.types.get? b = some (.pending func)

namespace Sound

theorem settled_part (h : t.Sound) (ha : t.types.Settled a) (hpart : t.Part a b) :
    t.types.Settled b := by
  cases hpart with
  | element hid => exact h.types.settled_element hid
  | param hid hp => exact h.types.settled_param hid _ hp
  | ret hid => exact h.types.settled_ret hid (ha.2 _ _ hid)
  | field _ _ _ hfield => exact h.kinds _ _ hfield
  | slot _ hsymbol hslot => exact (h.kinds _ _ hsymbol).2 _ hslot
  | target _ hsymbol htarget => exact ((h.kinds _ _ hsymbol).2 _ htarget).1

/-- A settled type mentions no placeholder at any depth. -/
theorem not_mentions (h : t.Sound) (ha : t.types.Settled a) : ¬ t.Mentions a := by
  rintro ⟨b, func, hreach, hpending⟩
  have hb : t.types.Settled b := by
    clear hpending
    induction hreach with
    | refl => exact ha
    | tail _ hpart ih => exact h.settled_part ih hpart
  exact hb.1.get?_ne func hpending

/-- The target of a settled alias is settled. -/
theorem settled_aliasTarget (h : t.Sound) {throughStrong : Bool}
    (htarget : t.aliasTarget? throughStrong a = some b) : t.types.Settled b := by
  unfold aliasTarget? at htarget
  split at htarget
  · split at htarget
    · next hsymbol =>
      split at htarget
      · simp at htarget
      · unfold AliasInfo.target? at htarget
        split at htarget
        · next htarget' =>
          obtain rfl := Option.some.inj htarget
          exact ((h.kinds _ _ hsymbol).2 _ htarget').1
        · simp at htarget
    · simp at htarget
  · simp at htarget

theorem settled_unwrap (h : t.Sound) (throughStrong : Bool) (bound : Nat)
    (ha : t.types.Settled a) : t.types.Settled (t.unwrap throughStrong bound a) := by
  induction bound generalizing a with
  | zero => exact ha
  | succ bound ih =>
      unfold unwrap
      split
      · exact ih (h.settled_aliasTarget ‹_›)
      · exact ha

theorem settled_concrete (h : t.Sound) (ha : t.types.Settled a) : t.types.Settled (t.concrete a) :=
  h.settled_unwrap false _ ha

/-- The element of an array type is settled, also behind aliases. -/
theorem settled_element? (h : t.Sound) (hb : t.element? a = some b) : t.types.Settled b := by
  unfold element? concreteTy? at hb
  split at hb
  · next hid =>
    obtain rfl := Option.some.inj hb
    exact h.types.settled_element hid
  · simp at hb

end Sound

/-! ## Growth -/

theorem Grounded.mono (h : t.Grounded a) (hw : t.types.Within t'.types)
    (halias : ∀ id info target, t.symbols.kind? id = some (.aliasType info) →
      info.target = .resolved target →
      ∃ info', t'.symbols.kind? id = some (.aliasType info') ∧ info'.target = .resolved target) :
    t'.Grounded a := by
  induction h with
  | plain htype hplain => exact .plain (hw _ _ htype) hplain
  | resolved htype hsymbol htarget _ ih =>
      obtain ⟨info', hsymbol', htarget'⟩ := halias _ _ _ hsymbol htarget
      exact .resolved (hw _ _ htype) hsymbol' htarget' ih

end Tables

end Stela
