import Stela.Proofs.Types.Bisimilarity
import Stela.Proofs.Types.Nesting
import Stela.Proofs.Types.Reading
import Stela.Types.Layout

/-!
# Equal types are interchangeable

A value of one type may initialize storage of any type that compares equal to
it. Category, layout, field offsets and lifetime plans look behind strong
aliases too, while the comparison does not; they still agree, since two equal
types have representations that agree.
-/

namespace Stela.Tables

variable {t : Tables}

/-! ## Representations of equal types -/

/-- A step along a weak alias is a step along an alias. -/
theorem AliasStep.of_weak {type target : TypeId} (h : t.AliasStep false type target) :
    t.AliasStep true type target := by
  simp only [AliasStep, aliasTarget?] at h ⊢
  grind

/-- A table without alias cycles has no cycle of weak aliases. -/
theorem AliasesEnd.weak (h : t.AliasesEnd true) : t.AliasesEnd false :=
  Subrelation.wf AliasStep.of_weak h

/-- Weak aliases do not change the representation. -/
theorem representation_concrete (h : t.AliasesEnd true) (type : TypeId) :
    t.representation (t.concrete type) = t.representation type := by
  have chain : Relation.ReflTransGen (t.AliasStep true) type (t.concrete type) :=
    Relation.ReflTransGen.mono (fun _ _ => AliasStep.of_weak) _ _ (unwraps_concrete h.weak type).1
  have rest := unwraps_representation h (t.concrete type)
  exact Unwraps.unique ⟨chain.trans rest.1, rest.2⟩ (unwraps_representation h type)

/-- A type that is no alias represents itself. -/
theorem representation_eq_self {type : TypeId} (h : t.aliasTarget? true type = none) :
    t.representation type = type := by
  rw [representation]
  cases t.types.size with
  | zero => rfl
  | succ n => simp [unwrap, h]

/-- Different types that agree are no aliases. -/
theorem Agree.aliasTarget?_eq_none {R : TypeId → TypeId → Prop} {a b : TypeId}
    (h : t.Agree R a b) (hne : a ≠ b) :
    t.aliasTarget? true a = none ∧ t.aliasTarget? true b = none := by
  cases h with
  | refl => exact absurd rfl hne
  | _ => simp [aliasTarget?, *]

/-- The representations of equal types agree, with parts that are equal again. -/
theorem Bisimilar.agree_representation (h : t.AliasesEnd true) {a b : TypeId}
    (hab : t.Bisimilar a b) :
    t.Agree t.Bisimilar (t.representation a) (t.representation b) := by
  have agree := hab.agree (unwraps_concrete h.weak a) (unwraps_concrete h.weak b)
  rw [← representation_concrete h a, ← representation_concrete h b]
  by_cases heq : t.concrete a = t.concrete b
  · rw [heq]
    exact .refl _
  · obtain ⟨ha, hb⟩ := agree.aliasTarget?_eq_none heq
    rwa [representation_eq_self ha, representation_eq_self hb]

/-- A struct that lists fields only has the fields it lists. -/
theorem structFields_eq {symbol : SymbolId} {fields : List (String × TypeId)}
    (h : t.structFields? symbol = some fields) : t.structFields symbol = fields := by
  unfold structFields? at h
  unfold structFields
  cases hkind : t.symbols.kind? symbol with
  | none => simp [hkind] at h
  | some kind =>
      rw [hkind] at h
      cases kind with
      | structType info =>
          dsimp only at h ⊢
          generalize info.fields = symbols at h
          induction symbols generalizing fields with
          | nil => simpa using h
          | cons field rest ih =>
              rw [List.mapM_cons] at h
              obtain ⟨first, hfirst, h⟩ := Option.bind_eq_some_iff.mp h
              obtain ⟨others, hothers, h⟩ := Option.bind_eq_some_iff.mp h
              obtain rfl : first :: others = fields := by simpa using h
              rw [List.filterMap_cons, hfirst, ih hothers]
      | _ => simpa using h

/-! ## Layouts -/

theorem layoutWithin_eq (h : t.AliasesEnd true) (bound : Nat) {a b : TypeId}
    (hab : t.Bisimilar a b) : t.layoutWithin bound a = t.layoutWithin bound b := by
  induction bound generalizing a b with
  | zero => rfl
  | succ bound ih =>
      have agree := hab.agree_representation h
      rw [layoutWithin, layoutWithin]
      generalize t.representation a = a', t.representation b = b' at agree
      cases agree with
      | refl => rfl
      | array ha hb => rw [ha, hb]
      | func ha hb => rw [ha, hb]
      | structType ha hb hu hv fields =>
          simp only [ha, hb, structFields_eq hu, structFields_eq hv]
          rw [mapM_congr (fun f g hfg => ih hfg.2) fields]
      | hostType ha hb hu hv size align fields =>
          simp only [ha, hb, hu, hv, size, align]

theorem layout?_eq (h : t.AliasesEnd true) {a b : TypeId} (hab : t.Bisimilar a b) :
    t.layout? a = t.layout? b :=
  layoutWithin_eq h _ hab

/-- A struct and a struct that it holds by value as a field, behind all aliases. -/
def HoldsByValue (t : Tables) (outer inner : TypeId) : Prop :=
  ∃ u v, t.types.get? outer = some (.structType u) ∧ t.types.get? inner = some (.structType v) ∧
    ∃ f ∈ t.structFields u, t.representation f.2 = inner

/-- No struct contains itself by value, directly or through other structs. -/
def FieldsEnd (t : Tables) : Prop := ∀ type, ¬ Relation.TransGen t.HoldsByValue type type

/-- No struct contains itself by value if some measure decreases from structs to their fields. -/
theorem fieldsEnd_of_rank (rank : TypeId → Nat)
    (h : ∀ outer < t.types.size,
      ∀ f ∈ (match t.types.get? outer with
        | some (.structType u) => t.structFields u
        | _ => []), rank (t.representation f.2) < rank outer) : t.FieldsEnd := by
  refine not_transGen_self_of_rank rank fun outer inner hstep => ?_
  obtain ⟨u, v, hu, -, f, hf, rfl⟩ := hstep
  exact h outer (Array.getElem?_eq_some_iff.mp hu).1 f (by simpa [hu] using hf)

/-- No struct inside a type contains itself by value. -/
def EndsByValue (t : Tables) (type : TypeId) : Prop :=
  ∀ outer, Relation.ReflTransGen t.HoldsByValue (t.representation type) outer →
    ¬ Relation.TransGen t.HoldsByValue outer outer

theorem FieldsEnd.endsByValue (h : t.FieldsEnd) (type : TypeId) : t.EndsByValue type :=
  fun outer _ => h outer

/-- The number of structs that a type holds by value, itself included. -/
noncomputable def heldCount (t : Tables) (type : TypeId) : Nat :=
  (reached t.HoldsByValue t.types.size (t.representation type)).card

/-- A struct holds itself. -/
theorem heldCount_pos {type : TypeId} {u : SymbolId}
    (hu : t.types.get? (t.representation type) = some (.structType u)) : 0 < t.heldCount type :=
  Finset.card_pos.mpr
    ⟨_, mem_reached.mpr ⟨(Array.getElem?_eq_some_iff.mp hu).1, .refl⟩⟩

/-- A field that is a struct holds fewer structs than the struct of which it is a field, and ends
by value if that does. -/
theorem EndsByValue.field {type : TypeId} {u v : SymbolId} {f : String × TypeId}
    (h : t.EndsByValue type) (hu : t.types.get? (t.representation type) = some (.structType u))
    (hf : f ∈ t.structFields u) (hv : t.types.get? (t.representation f.2) = some (.structType v)) :
    t.EndsByValue f.2 ∧ t.heldCount f.2 < t.heldCount type := by
  have step : t.HoldsByValue (t.representation type) (t.representation f.2) :=
    ⟨u, v, hu, hv, f, hf, rfl⟩
  exact ⟨fun outer path => h outer (.head step path),
    card_reached_lt (Array.getElem?_eq_some_iff.mp hu).1 (h _ .refl) (.single step)⟩

/-- A struct is laid out if the bound exceeds the number of structs that it holds. -/
theorem exists_layoutWithin (bound : Nat) (type : TypeId)
    (h : ∀ u, t.types.get? (t.representation type) = some (.structType u) →
      t.EndsByValue type ∧ t.heldCount type ≤ bound) :
    ∃ layout, t.layoutWithin (bound + 1) type = some layout := by
  induction bound using Nat.strong_induction_on generalizing type with
  | h bound ih =>
      rw [layoutWithin]
      split
      case h_5 u hu =>
          obtain ⟨hends, hbound⟩ := h u hu
          obtain ⟨bound, rfl⟩ := Nat.exists_eq_add_one.mpr ((heldCount_pos hu).trans_le hbound)
          obtain ⟨layouts, hlayouts⟩ : ∃ ls, (t.structFields u).mapM
              (fun f => t.layoutWithin (bound + 1) f.2) = some ls := by
            refine exists_mapM_eq_some fun f hf => ih bound (Nat.lt_succ_self _) f.2 fun v hv => ?_
            obtain ⟨hfield, hlt⟩ := hends.field hu hf hv
            exact ⟨hfield, by omega⟩
          exact ⟨structLayout (placeFields 0 layouts), by simp [hlayouts]⟩
      case h_6 => split <;> exact ⟨_, rfl⟩
      all_goals exact ⟨_, rfl⟩

/-- A type in which no struct contains itself by value has a layout. -/
theorem EndsByValue.exists_layout {type : TypeId} (h : t.EndsByValue type) :
    ∃ layout, t.layout? type = some layout :=
  exists_layoutWithin _ type fun _ _ => ⟨h, card_reached_le _ _ _⟩

/-- If no struct contains itself by value, every type has a layout. -/
theorem exists_layout (h : t.FieldsEnd) (type : TypeId) :
    ∃ layout, t.layout? type = some layout :=
  (h.endsByValue type).exists_layout

/-- If no struct contains itself by value, every type has field offsets. -/
theorem exists_fieldOffsets (h : t.FieldsEnd) (type : TypeId) :
    ∃ offsets, t.fieldOffsets? type = some offsets := by
  unfold fieldOffsets?
  split
  · next u _ =>
    obtain ⟨layouts, hlayouts⟩ :=
      exists_mapM_eq_some fun f (_ : f ∈ t.structFields u) => exists_layout h f.2
    exact ⟨placeFields 0 layouts, by simp [hlayouts]⟩
  · split
    · refine exists_mapM_eq_some fun f _ => ?_
      obtain ⟨layout, hlayout⟩ := exists_layout h f.type
      exact ⟨(f.offset, layout), by simp [hlayout]⟩
    · exact ⟨[], rfl⟩
  · exact ⟨[], rfl⟩

theorem fieldOffsets?_eq (h : t.AliasesEnd true) {a b : TypeId} (hab : t.Bisimilar a b) :
    t.fieldOffsets? a = t.fieldOffsets? b := by
  have agree := hab.agree_representation h
  rw [fieldOffsets?, fieldOffsets?]
  generalize t.representation a = a', t.representation b = b' at agree
  cases agree with
  | refl => rfl
  | array ha hb => rw [ha, hb]
  | func ha hb => rw [ha, hb]
  | structType ha hb hu hv fields =>
      simp only [ha, hb, structFields_eq hu, structFields_eq hv]
      rw [mapM_congr (fun f g hfg => layout?_eq h hfg.2) fields]
  | hostType ha hb hu hv size align fields =>
      simp only [ha, hb, hu, hv]
      refine mapM_congr ?_ fields
      rintro f g ⟨-, htype, hoffset⟩
      rw [layout?_eq h htype, hoffset]

/-! ## Categories and plans -/

theorem classify_eq (h : t.AliasesEnd true) {a b : TypeId} (hab : t.Bisimilar a b) :
    t.classify a = t.classify b := by
  have agree := hab.agree_representation h
  rw [classify, classify]
  generalize t.representation a = a', t.representation b = b' at agree
  cases agree with
  | refl => rfl
  | array ha hb | func ha hb | structType ha hb | hostType ha hb => rw [ha, hb]

/-- Plans of one shape with the same sizes, whose listed fields agree in name and offset, and
whose listed types compare equal. -/
def PlansAgree (t : Tables) : LifetimePlan → LifetimePlan → Prop
  | .release (.array x), .release (.array y) => t.same x y = true
  | .fields fs, .fields gs =>
    List.Forall₂ (fun f g => f.name = g.name ∧ f.offset = g.offset ∧ t.same f.type g.type = true)
      fs gs
  | p, q => p = q

theorem PlansAgree.refl (t : Tables) (p : LifetimePlan) (hrefl : ∀ a, t.same a a = true) :
    t.PlansAgree p p := by
  cases p with
  | release handle => cases handle <;> simp [PlansAgree, hrefl]
  | fields steps => simp [PlansAgree, List.forall₂_same, hrefl]
  | _ => rfl

theorem plansAgree_plan (h : t.AliasesEnd true) {a b : TypeId} (hab : t.Bisimilar a b)
    (op : LifetimeOp) : t.PlansAgree (t.plan op a) (t.plan op b) := by
  have agree := hab.agree_representation h
  have same {x y : TypeId} (hxy : t.Bisimilar x y) : t.same x y = true :=
    (same_iff_bisimilar h.weak).mpr hxy
  rw [plan, plan]
  generalize t.representation a = a', t.representation b = b' at agree
  cases agree with
  | refl => exact PlansAgree.refl t _ fun x => same (.refl t x)
  | array ha hb element =>
      rw [ha, hb]
      cases op <;> simp [handlePlan, PlansAgree, same element]
  | func ha hb =>
      rw [ha, hb]
      exact PlansAgree.refl t _ fun x => same (.refl t x)
  | structType ha hb hu hv fields =>
      simp only [ha, hb, structFields_eq hu, structFields_eq hv, PlansAgree,
        List.forall₂_map_left_iff, List.forall₂_map_right_iff]
      exact fields.imp fun f g hfg => ⟨hfg.1, trivial, same hfg.2⟩
  | hostType ha hb hu hv size align fields =>
      simp only [ha, hb, hu, hv, PlansAgree, List.forall₂_map_left_iff,
        List.forall₂_map_right_iff]
      exact fields.imp fun f g hfg => ⟨hfg.1, by rw [hfg.2.2], same hfg.2.1⟩

/-- In a table without alias cycles in which no struct contains itself by value, types that
compare equal have the same category, layout and field offsets and the same lifetime plans up to
equal types. -/
theorem same_interchangeable (t : Tables) (haliases : t.AliasesEnd true) (hfields : t.FieldsEnd)
    (a b : TypeId) (hsame : t.same a b = true) :
    t.classify a = t.classify b ∧
    (∃ layout, t.layout? a = some layout ∧ t.layout? b = some layout) ∧
    (∃ offsets, t.fieldOffsets? a = some offsets ∧ t.fieldOffsets? b = some offsets) ∧
    ∀ op, t.PlansAgree (t.plan op a) (t.plan op b) := by
  have hab := (same_iff_bisimilar haliases.weak).mp hsame
  obtain ⟨layout, hlayout⟩ := exists_layout hfields a
  obtain ⟨offsets, hoffsets⟩ := exists_fieldOffsets hfields a
  refine ⟨classify_eq haliases hab, ⟨layout, hlayout, ?_⟩, ⟨offsets, hoffsets, ?_⟩,
    plansAgree_plan haliases hab⟩
  · rw [← hlayout, layout?_eq haliases hab]
  · rw [← hoffsets, fieldOffsets?_eq haliases hab]

/-- The two outer structs of `selfReferring` are both laid out as one handle. -/
theorem selfReferring_interchangeable : selfReferring.AliasesEnd true ∧ selfReferring.FieldsEnd ∧
    selfReferring.same 12 13 = true ∧ selfReferring.layout? 12 = some ⟨8, 8⟩ ∧
    selfReferring.layout? 13 = some ⟨8, 8⟩ := by
  have haliases : selfReferring.AliasesEnd true := aliasesEnd_of_rank id (by decide)
  have hfields : selfReferring.FieldsEnd :=
    fieldsEnd_of_rank (fun type => if 12 ≤ type then 2 else if type = 7 ∨ type = 9 then 1 else 0)
      (by decide +kernel)
  have hsame : selfReferring.same 12 13 = true := by decide +kernel
  have hlayout : selfReferring.layout? 12 = some ⟨8, 8⟩ := by decide +kernel
  obtain ⟨-, ⟨layout, ha, hb⟩, -, -⟩ :=
    same_interchangeable selfReferring haliases hfields 12 13 hsame
  exact ⟨haliases, hfields, hsame, hlayout, by rw [hb, ← ha, hlayout]⟩

end Stela.Tables
