import Stela.Check.Expr
import Stela.Proofs.Types.Stability

/-!
# Types of operands

Whether an operator takes operands of a type is decided behind its aliases. So it
takes operands of any type that compares equal, and it still does in all tables
that contain the given ones.
-/

namespace Stela.Tables

variable {t t' : Tables} {a b : TypeId} {kind : Builtin} {op : BinOp}

theorem builtin?_eq_some : t.builtin? a = some kind ↔ t.concreteTy? a = some (.builtin kind) := by
  unfold builtin? TypeTable.builtin? concreteTy?
  split <;> simp_all

/-- Whether values of a type compare is told by what represents it. -/
theorem isComparable_iff : t.isComparable a = true ↔
    ∃ ty, t.types.get? (t.representation a) = some ty ∧
      ((∃ kind, ty = .builtin kind ∧ kind ≠ .void) ∨ ∃ symbol, ty = .enumType symbol) := by
  unfold isComparable
  constructor
  · intro h
    split at h
    · next kind htype => exact ⟨_, htype, .inl ⟨kind, rfl, by simpa using h⟩⟩
    · next symbol htype => exact ⟨_, htype, .inr ⟨symbol, rfl⟩⟩
    · cases h
  · rintro ⟨_, htype, ⟨kind, rfl, hkind⟩ | ⟨symbol, rfl⟩⟩ <;> simp [*]

/-! ## Larger tables -/

theorem builtin?_of_contained (hs : t.Sound) (hs' : t'.Sound) (hc : t.Contained t')
    (h : t.builtin? a = some kind) : t'.builtin? a = some kind :=
  builtin?_eq_some.mpr
    (concreteTy?_of_contained hs hs' hc (builtin?_eq_some.mp h) fun _ heq => by cases heq)

/-- The chain of aliases goes on from where it ended before. -/
theorem representation_of_contained (hs : t.Sound) (hs' : t'.Sound) (hc : t.Contained t')
    (a : TypeId) : t'.representation a = t'.representation (t.representation a) := by
  have hchain := Relation.ReflTransGen.mono (fun _ _ (h : t.AliasStep true _ _) => h.of_contained hc) _ _
    (unwraps_representation (hs.aliasesEnd true) a).1
  have hend := unwraps_representation (hs'.aliasesEnd true) (t.representation a)
  exact (unwraps_representation (hs'.aliasesEnd true) a).unique ⟨hchain.trans hend.1, hend.2⟩

theorem isComparable_of_contained (hs : t.Sound) (hs' : t'.Sound) (hc : t.Contained t')
    (h : t.isComparable a = true) : t'.isComparable a = true := by
  obtain ⟨ty, htype, hkind⟩ := isComparable_iff.mp h
  have htype' := hc.types _ _ htype
  have hself : t'.representation (t.representation a) = t.representation a := by
    refine representation_eq_self ?_
    rcases hkind with ⟨kind, rfl, -⟩ | ⟨symbol, rfl⟩ <;> simp [aliasTarget?, htype']
  refine isComparable_iff.mpr ⟨ty, ?_, hkind⟩
  rw [representation_of_contained hs hs' hc, hself, htype']

/-- An operator goes on to take operands of a type. -/
theorem operandFits_of_contained (hs : t.Sound) (hs' : t'.Sound) (hc : t.Contained t')
    (h : t.operandFits op a = true) : t'.operandFits op a = true := by
  have hbuiltin {p : Builtin → Bool} (h : (t.builtin? a).any p = true) :
      (t'.builtin? a).any p = true := by
    obtain ⟨kind, hkind, hp⟩ := (Option.any_eq_true _ _).mp h
    exact (Option.any_eq_true _ _).mpr ⟨kind, builtin?_of_contained hs hs' hc hkind, hp⟩
  unfold operandFits at h ⊢
  generalize op.opClass = opClass at h
  cases opClass with
  | logic => exact beq_iff_eq.mpr (builtin?_of_contained hs hs' hc (beq_iff_eq.mp h))
  | equality => exact isComparable_of_contained hs hs' hc h
  | bitwise => exact hbuiltin h
  | ordering => exact hbuiltin h
  | arithmetic => exact hbuiltin h

/-! ## Equal types -/

/-- Equal types are the same builtin type, or none. -/
theorem builtin?_eq_of_same (h : t.AliasesEnd false) (hab : t.same a b = true) :
    t.builtin? a = t.builtin? b := by
  have hagree := ((same_iff_bisimilar h).mp hab).agree (unwraps_concrete h a) (unwraps_concrete h b)
  unfold builtin? TypeTable.builtin?
  generalize t.concrete a = a', t.concrete b = b' at hagree
  cases hagree with
  | refl => rfl
  | array ha hb | func ha hb | structType ha hb | hostType ha hb => rw [ha, hb]

theorem isComparable_eq_of_same (h : t.AliasesEnd true) (hab : t.same a b = true) :
    t.isComparable a = t.isComparable b := by
  have hagree := ((same_iff_bisimilar h.weak).mp hab).agree_representation h
  unfold isComparable
  generalize t.representation a = a', t.representation b = b' at hagree
  cases hagree with
  | refl => rfl
  | array ha hb | func ha hb | structType ha hb | hostType ha hb => rw [ha, hb]

/-- An operator takes operands of both of two equal types, or of neither. -/
theorem operandFits_eq_of_same (h : t.AliasesEnd true) (hab : t.same a b = true) :
    t.operandFits op a = t.operandFits op b := by
  unfold operandFits
  rw [builtin?_eq_of_same h.weak hab, isComparable_eq_of_same h hab]

end Stela.Tables
