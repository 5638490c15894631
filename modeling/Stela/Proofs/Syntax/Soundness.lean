import Stela.Proofs.Syntax.Reading

/-!
# What the parser builds

Types, expressions and statements are spelled by the tokens they were read from.
The invariant of the loop over operators is that the expression so far is placed
where at least `least` is required, and that what comes next is content with it.
-/

namespace Stela

open Phrase ParseState

namespace Parse

variable {s₀ s : ParseState} {M : Language Word}

/-! ## Types and parameters -/

theorem forms_typeParam {bound : Nat} (h : Forms (typeExpr bound) TypeExpr.language) :
    Forms (do
      let byRef ← accept .kwRef
      let type ← typeExpr bound
      return (⟨if byRef then .reference else .value, type⟩ : TypeParam)) TypeParam.language := by
  intro s hs
  refine (read_accept (.refl hs) rfl (by decide)).bind fun byRef s₁ h₁ => ?_
  refine (h.ends h₁).bind fun type s₂ h₂ => .pure (h₂.mono ?_)
  cases byRef <;> simp [TypeParam.language, RefKind.language]

theorem forms_typeExpr (bound : Nat) : Forms (typeExpr bound) TypeExpr.language := by
  induction bound with
  | zero => exact fun _ _ => trivial
  | succ bound ih =>
      intro s hs
      have hstart := Read.refl hs
      refine .next rfl (.next rfl ?_)
      have finish {make : Node → TypeExpr} {s' : ParseState} {L : Language Word} {first : Span}
          (h : Read s L s') (hle : ∀ node, L ≤ (make node).language) : Ends recorded (do
          let make ← (Pure.pure make : Parse (Node → TypeExpr))
          newType make (first.merge (← previousSpan))) s' fun type s'' =>
            Read s type.language s'' :=
        .next rfl (.next rfl (.of_eq rfl (h.finish (hle _))))
      dsimp only
      split
      · refine (read_ident hstart).bind fun name s₁ h₁ => ?_
        refine (read_accept h₁ rfl (by decide)).bind fun qualified s₂ h₂ => ?_
        split
        · next hqualified =>
          rw [if_pos hqualified] at h₂
          exact (read_ident h₂).bind fun inner s₃ h₃ => finish h₃ fun node => by
            simp [TypeExpr.language, mul_assoc]
        · next hqualified =>
          rw [if_neg hqualified] at h₂
          exact finish h₂ fun node => by simp [TypeExpr.language]
      · next hkind =>
        refine .next rfl ((ih.ends (hstart.mark hkind rfl (by decide))).bind fun element s₁ h₁ => ?_)
        refine (read_expect h₁ rfl (by decide)).bind fun _ s₂ h₂ => finish h₂ fun node => ?_
        simp [TypeExpr.language]
      · next hkind =>
        refine .next rfl ?_
        refine (read_expect (hstart.mark hkind rfl (by decide)) rfl (by decide)).bind fun _ s₁ h₁ => ?_
        refine ((forms_commaList (forms_typeParam ih) bound).ends h₁).bind fun params s₂ h₂ => ?_
        refine (read_expect h₂ rfl (by decide)).bind fun _ s₃ h₃ => ?_
        refine ((forms_optionalAfter ih rfl (by decide)).ends h₃).bind fun ret s₄ h₄ => ?_
        refine finish h₄ fun node => ?_
        simp [TypeExpr.language, TypeParam.languages_eq_map, TypeExpr.optionLanguage_eq_map]
      · exact .bind (P := fun _ _ => False) (failingHere hs _) fun _ _ h => h.elim

theorem forms_param (bound : Nat) : Forms (param bound) Param.language := by
  intro s hs
  refine .next rfl ((read_accept (.refl hs) rfl (by decide)).bind fun byRef s₁ h₁ => ?_)
  have finish (mode : Mutability × RefKind) {s' : ParseState} {first : Span}
      (h : Read s (Param.modeLanguage mode) s') : Ends recorded (do
      let mode ← (Pure.pure mode : Parse (Mutability × RefKind))
      let name ← ident
      let _ ← expect .colon
      let type ← typeExpr bound
      return (⟨name, mode.1, mode.2, type, first.merge (← previousSpan)⟩ : Param)) s' fun param s'' =>
        Read s param.language s'' := by
    refine .next rfl ((read_ident h).bind fun name s₂ h₂ => ?_)
    refine (read_expect h₂ rfl (by decide)).bind fun _ s₃ h₃ => ?_
    exact ((forms_typeExpr bound).ends h₃).bind fun type s₄ h₄ => .next rfl (.pure h₄)
  dsimp only
  split
  · next href =>
    rw [if_pos href, one_mul] at h₁
    exact finish (.mutable, .reference) h₁
  · next hvalue =>
    rw [if_neg hvalue, one_mul] at h₁
    refine (read_accept h₁ rfl (by decide)).bind fun isVar s₂ h₂ => ?_
    split
    · next hvar =>
      rw [if_pos hvar, one_mul] at h₂
      exact finish (.mutable, .value) h₂
    · next hfixed =>
      rw [if_neg hfixed, one_mul] at h₂
      exact finish (.fixed, .value) h₂

theorem forms_signature (bound : Nat) : Forms (signature bound) Signature.language := by
  intro s hs
  refine (read_expect (.refl hs) rfl (by decide)).bind fun _ s₁ h₁ => ?_
  refine ((forms_commaList (forms_param bound) bound).ends h₁).bind fun params s₂ h₂ => ?_
  refine (read_expect h₂ rfl (by decide)).bind fun _ s₃ h₃ => ?_
  refine ((forms_optionalAfter (forms_typeExpr bound) rfl (by decide)).ends h₃).bind fun ret s₄ h₄ => ?_
  exact .pure (h₄.mono (by simp [Signature.language]))

/-! ## Bodies and declarations in them -/

/-- The keyword of a variable declaration is read. -/
theorem read_keyword (hs : s.Explained) (hkind : s.kind = .kwLet ∨ s.kind = .kwVar) :
    Read s (if s.kind == .kwVar then Mutability.mutable else .fixed).language s.advance := by
  rcases hkind with hkind | hkind
  · simpa [hkind, Mutability.language] using (Read.refl hs).mark hkind rfl (by decide)
  · simpa [hkind, Mutability.language] using (Read.refl hs).mark hkind rfl (by decide)

theorem read_binding {e : Parse Expr} (he : Forms e Expr.whole) (bound : Nat)
    (hstart : Read s₀ (if s.kind == .kwVar then Mutability.mutable else .fixed).language s.advance) :
    (binding e bound).Ends recorded s fun binding s' => Read s₀ binding.language s' := by
  refine .next rfl ((read_ident hstart).bind fun name s₂ h₂ => ?_)
  refine ((forms_optionalAfter (forms_typeExpr bound) rfl (by decide)).ends h₂).bind fun type s₃ h₃ => ?_
  refine ((forms_optionalAfter he rfl (by decide)).ends h₃).bind fun init s₄ h₄ => ?_
  split
  · exact failing h₄.explained _ _
  · next hsome =>
    refine (read_expect h₄ rfl (by decide)).bind fun _ s₅ h₅ => .pure (h₅.mono ?_)
    rw [Binding.language, Expr.optionLanguage_eq_map, given_of]
    · rfl
    · simpa [Option.isNone_iff_eq_none, Option.isSome_iff_ne_none, or_iff_not_imp_left] using hsome

theorem forms_stmts {stmt : Parse Stmt} (hstmt : Forms stmt Stmt.language) (bound : Nat) :
    Forms (stmts stmt bound) Stmt.sequence := by
  induction bound with
  | zero => exact fun _ _ => trivial
  | succ bound ih =>
      intro s hs
      refine .next rfl ?_
      split
      · exact .pure ((Read.refl hs).mono (by rw [Stmt.sequence]))
      · -- A statement that fails leaves an error, so nothing is claimed of the tokens from there on.
        have skipped {s' : ParseState} (herrors : s'.errors ≠ []) :
            (stmts stmt bound).Ends recorded s' fun body s'' => Read s (Stmt.sequence body) s'' :=
          (ih.ends (.of_errors (L := 0) herrors)).mono fun _ _ h => h.mono (by simp)
        refine (ends_attempt (hstmt s hs)).bind fun first s₁ h₁ => ?_
        split
        · exact (ih.ends h₁).bind fun rest s₂ h₂ => .pure (h₂.mono (by rw [Stmt.sequence]))
        · refine .next rfl ?_
          split
          · exact .next rfl (skipped (kept_advance h₁))
          · exact skipped h₁

theorem forms_block {stmt : Parse Stmt} (hstmt : Forms stmt Stmt.language) (bound : Nat) :
    Forms (block stmt bound) Stmt.blockLanguage := by
  intro s hs
  refine (read_expect (.refl hs) rfl (by decide)).bind fun _ s₁ h₁ => ?_
  refine ((forms_stmts hstmt bound).ends h₁).bind fun body s₂ h₂ => ?_
  refine (read_expect h₂ rfl (by decide)).bind fun _ s₃ h₃ => .pure (h₃.mono ?_)
  rw [Stmt.blockLanguage, one_mul]

theorem forms_requiredBody {block : Parse (List Stmt)} (hblock : Forms block Stmt.blockLanguage) :
    Forms (requiredBody block) Stmt.blockLanguage := by
  intro s hs
  refine .next rfl ?_
  split
  · exact hblock s hs
  · exact failingHere hs _

/-- A function has no body if it stands behind `extern`. -/
theorem read_funcDecl {block : Parse (List Stmt)} (hblock : Forms block Stmt.blockLanguage)
    (bound : Nat) (funcKind : FuncKind) (access : Access) (hs : s.Explained)
    (hstart : s.kind = .kwFunc → Read s₀ (M * mark .kwFunc) s.advance) :
    (funcDecl block bound funcKind access).Ends recorded s fun decl s' =>
      Read s₀ (M * given (decl.body.isNone = (s.previous.kind == .kwExtern) ∧
        decl.kind = funcKind ∧ decl.access = access) decl.language) s' := by
  refine .next rfl ((ends_expect (P := fun _ => Read s₀ (M * mark .kwFunc)) hs hstart).bind fun _ s₁ h₁ => ?_)
  refine (read_ident h₁).bind fun name s₂ h₂ => ?_
  refine ((forms_signature bound).ends h₂).bind fun sig s₃ h₃ => ?_
  dsimp only
  have finish (body : Option (List Stmt)) {s' : ParseState} {span : Span}
      (hbody : body.isNone = (s.previous.kind == .kwExtern))
      (h : Read s₀ (M * mark .kwFunc * word (.name name.name) * sig.language *
        Stmt.optionLanguage body) s') : Ends recorded (do
      let body ← (Pure.pure body : Parse (Option (List Stmt)))
      newDecl .func (fun node => FuncDecl.mk node name sig body funcKind access)
        (span.merge (← previousSpan))) s' fun decl s'' =>
        Read s₀ (M * given (decl.body.isNone = (s.previous.kind == .kwExtern) ∧
          decl.kind = funcKind ∧ decl.access = access) decl.language) s'' := by
    refine .next rfl (.next rfl (.of_eq rfl (h.finish ?_)))
    rw [given_of ⟨hbody, rfl, rfl⟩, FuncDecl.language]
    simp only [mul_assoc, le_refl]
  split
  · next hhosted =>
    refine (read_expect h₃ rfl (by decide)).bind fun _ s₄ h₄ => finish none hhosted.symm ?_
    rwa [Stmt.optionLanguage]
  · next hplain =>
    refine ((forms_requiredBody hblock).ends h₃).bind fun body s₄ h₄ => ?_
    refine finish (some body) (by simpa using hplain) ?_
    rwa [Stmt.optionLanguage]

/-- A function in a body or in a struct has a body. -/
theorem forms_funcDecl {block : Parse (List Stmt)} (hblock : Forms block Stmt.blockLanguage)
    (bound : Nat) (funcKind : FuncKind) (access : Access) :
    Forms (funcDecl block bound funcKind access) fun decl =>
      given (decl.body.isSome ∧ decl.kind = funcKind ∧ decl.access = access) decl.language := by
  intro s hs
  have hrun := read_funcDecl hblock bound funcKind access hs
    fun hkind => (Read.refl hs).mark hkind rfl (by decide)
  refine hrun.mono fun decl s' h => ⟨h.kept, h.explained, fun herrors hstart => ?_⟩
  obtain ⟨hread, hlast⟩ := h.spelled herrors hstart
  refine ⟨hread.mono ?_, hlast⟩
  rw [one_mul]
  refine given_mono (fun hwritten => ⟨?_, hwritten.2⟩) (le_refl _)
  have hbody := hwritten.1
  rw [beq_eq_false_iff_ne.mpr hstart] at hbody
  simpa [Option.isSome_iff_ne_none] using hbody

theorem read_exprOrAssign {e : Parse Expr} (he : Forms e Expr.whole) (hs : s.Explained) :
    (exprOrAssign e).Ends recorded s fun make s' => ∀ node, Read s (make node).language s' := by
  refine (he s hs).bind fun target s₁ h₁ => ?_
  have finish {make : Node → Stmt} {s' : ParseState} {L : Language Word} (h : Read s L s')
      (hmake : ∀ node, L * mark .semi ≤ (make node).language) : Ends recorded (do
      let make ← (Pure.pure make : Parse (Node → Stmt))
      let _ ← expect .semi
      return make) s' fun make s'' => ∀ node, Read s (make node).language s'' :=
    .next rfl ((read_expect h rfl (by decide)).bind fun _ s₂ h₂ => .pure fun node =>
      h₂.mono (hmake node))
  have assign {op : Option BinOp} {s' : ParseState}
      (h : Read s (target.whole * assignmentLanguage op) s') : Ends recorded (do
      let value ← e
      let make ← (Pure.pure fun node => Stmt.assign node target op value : Parse (Node → Stmt))
      let _ ← expect .semi
      return make) s' fun make s'' => ∀ node, Read s (make node).language s'' :=
    (he.ends h).bind fun value s₂ h₂ => finish h₂ fun node => by
      rw [Stmt.language]
      rfl
  refine (read_accept h₁ rfl (by decide)).bind fun plain s₂ h₂ => ?_
  split
  · next hplain =>
    rw [if_pos hplain] at h₂
    exact assign h₂
  · next hother =>
    rw [if_neg hother, mul_one] at h₂
    refine .next rfl ?_
    split
    · next op hop =>
      have hmark := BinOp.ofAssignment_iff.mp hop
      refine .next rfl (assign ?_)
      have hkind : s₂.kind.isMark = true ∧ s₂.kind ≠ .kwExtern := by
        cases hk : s₂.kind <;> simp [hk, BinOp.ofAssignment] at hop <;> decide
      simpa [assignmentLanguage, hmark] using h₂.mark rfl hkind.1 hkind.2
    · exact finish h₂ fun node => by
        rw [Stmt.language]
        rfl

/-! ## Expressions and statements -/

end Parse

namespace ParseState

/-- No operator that binds tighter than `rank` comes next. -/
def Settled (rank : Nat) (s : ParseState) : Prop := Continuation.Loose rank s.kind

/-- What stands where `least` is required may stand in front of what comes next. -/
def Admits (least : Nat) (s : ParseState) : Prop :=
  ∀ continuation, Continuation.ofToken s.kind = some continuation → continuation.least ≤ least

theorem Settled.admits {rank : Nat} {s : ParseState} (h : s.Settled rank)
    (hrank : Precedence.conditional.rank < rank) : s.Admits rank :=
  fun continuation hnext => Nat.max_le.mpr ⟨hrank, h continuation hnext⟩

/-- In front of no continuation everything may stand. -/
theorem Settled.admits_of_lowest {least : Nat} {s : ParseState} (h : s.Settled 0) :
    s.Admits least := by
  intro continuation hnext
  simp [Continuation.loose_zero_iff.mp h] at hnext

theorem admits_call (s : ParseState) : s.Admits Precedence.call.rank :=
  fun continuation _ => continuation.least_le_call

end ParseState

namespace Parse

variable {s₀ s : ParseState}

/-- What the steps that descend into expressions and statements read, down to a bound. -/
structure FormsAt (bound : Nat) : Prop where
  expr : ∀ level s, s.Explained → (expr level bound).Ends recorded s fun e s' =>
    Read s (placed level.above e.rank e.language) s' ∧ s'.Settled level.rank
  exprRest : ∀ level left least s₀ s, Read s₀ (placed least left.rank left.language) s →
    level.above ≤ least → s.Admits least →
    (exprRest level left bound).Ends recorded s fun e s' =>
      Read s₀ (placed level.above e.rank e.language) s' ∧ s'.Settled level.rank
  operand : ∀ s, s.Explained → (operand bound).Ends recorded s fun e s' =>
    ∃ least, Precedence.unary.rank ≤ least ∧ Read s (placed least e.rank e.language) s' ∧
      s'.Admits least
  primary : Forms (primary bound) fun e => placed Precedence.call.rank e.rank e.language
  stmt : Forms (stmt bound) Stmt.language
  ifElse : ∀ s₀ s, Read s₀ (mark .kwIf) s.advance →
    (ifElse bound).Ends recorded s fun stmt s' =>
      Read s₀ (given stmt.isConditional stmt.language) s'

namespace FormsAt

variable {bound : Nat} (h : FormsAt bound)

include h

theorem whole : Forms (Parse.expr .lowest bound) Expr.whole :=
  fun s hs => (h.expr .lowest s hs).mono fun _ _ hread =>
    hread.1.mono (placed_mono (Nat.zero_le _))

theorem body : Forms (block (Parse.stmt bound) bound) Stmt.blockLanguage := forms_block h.stmt bound

theorem expr_succ (level : Precedence) (hs : s.Explained) :
    (Parse.expr level (bound + 1)).Ends recorded s fun e s' =>
      Read s (placed level.above e.rank e.language) s' ∧ s'.Settled level.rank := by
  rw [Parse.expr]
  refine (h.operand s hs).bind fun left s₁ hleft => ?_
  obtain ⟨least, hleast, hread, hadmits⟩ := hleft
  exact h.exprRest level left least s s₁ hread (Nat.le_trans (Nat.min_le_right _ _) hleast) hadmits

theorem exprRest_succ {level : Precedence} {left : Expr} {least : Nat}
    (hleft : Read s₀ (placed least left.rank left.language) s) (hleast : level.above ≤ least)
    (hadmits : s.Admits least) :
    (Parse.exprRest level left (bound + 1)).Ends recorded s fun e s' =>
      Read s₀ (placed level.above e.rank e.language) s' ∧ s'.Settled level.rank := by
  rw [Parse.exprRest]
  refine .next rfl ?_
  have finish {make : Node → Expr} {span : Span} {s' : ParseState} {L : Language Word} {least' : Nat}
      (hread : Read s₀ L s') (hle : ∀ node, L ≤ placed least' (make node).rank (make node).language)
      (hleast' : level.above ≤ least') (hadmits' : s'.Admits least') : Ends recorded (do
        let longer ← newExpr make span
        Parse.exprRest level longer bound) s' fun e s'' =>
        Read s₀ (placed level.above e.rank e.language) s'' ∧ s''.Settled level.rank :=
    .next rfl (h.exprRest level _ least' s₀ _ (hread.finish (hle _)) hleast' hadmits')
  split
  · next hnone =>
    exact .pure ⟨hleft.mono (placed_mono hleast), fun continuation hnext => by simp [hnone] at hnext⟩
  · next continuation hnext =>
    split
    · next hloose =>
      refine .pure ⟨hleft.mono (placed_mono hleast), fun other hother => ?_⟩
      rwa [← Option.some.inj (hnext.symm.trans hother)]
    · next htight =>
      have hmark := Continuation.ofToken_iff.mp hnext
      have hread := (hleft.mono (placed_mono (hadmits continuation hnext))).mark hmark.symm
        continuation.isMark_mark continuation.mark_ne_extern
      have tight {L : Language Word} (e : Expr) (hrank : e.rank = Precedence.call.rank)
          (hle : L ≤ e.language) : L ≤ placed Precedence.call.rank e.rank e.language :=
        hle.trans (le_placed (Nat.le_of_eq hrank.symm))
      have hcall : level.above ≤ Precedence.call.rank := Nat.le_trans (Nat.min_le_right _ _) (by decide)
      refine .next rfl ?_
      dsimp only
      cases continuation with
      | call =>
          refine ((forms_commaList h.whole bound).ends hread).bind fun args s₂ h₂ => ?_
          refine (read_expect h₂ rfl (by decide)).bind fun _ s₃ h₃ => .next rfl ?_
          refine finish h₃ (fun node => tight _ rfl ?_) hcall (admits_call s₃)
          rw [Expr.language, Expr.languages_eq_map]
          rfl
      | index =>
          refine (h.whole.ends hread).bind fun index s₂ h₂ => ?_
          refine (read_expect h₂ rfl (by decide)).bind fun _ s₃ h₃ => .next rfl ?_
          refine finish h₃ (fun node => tight _ rfl ?_) hcall (admits_call s₃)
          rw [Expr.language]
          rfl
      | member =>
          refine (read_ident hread).bind fun name s₂ h₂ => ?_
          refine finish h₂ (fun node => tight _ rfl ?_) hcall (admits_call s₂)
          rw [Expr.language]
          rfl
      | conditional =>
          refine (h.whole.ends hread).bind fun onTrue s₂ h₂ => ?_
          refine (read_expect h₂ rfl (by decide)).bind fun _ s₃ h₃ => ?_
          refine (h.expr .lowest s₃ h₃.explained).bind fun onFalse s₄ h₄ => ?_
          obtain ⟨h₄, hsettled⟩ := h₄
          have hlevel : level.above ≤ Precedence.conditional.rank := by
            have hzero : level.rank < Precedence.conditional.rank := Nat.lt_of_not_le htight
            exact Nat.le_trans (Nat.min_le_left _ _) hzero
          refine finish (h₃.trans h₄) (fun node => ?_) hlevel hsettled.admits_of_lowest
          refine le_trans ?_ (le_placed (le_refl _))
          rw [Expr.language]
          exact mul_le_mul_right (placed_mono (Nat.zero_le _)) _
      | binary op =>
          refine (h.expr op.precedence _ hread.explained).bind fun right s₂ h₂ => ?_
          obtain ⟨h₂, hsettled⟩ := h₂
          have hlevel : level.above ≤ op.precedence.rank := by
            have hlt : level.rank < op.precedence.rank := Nat.lt_of_not_le htight
            exact Nat.le_trans (Nat.min_le_left _ _) hlt
          refine finish (hread.trans h₂) (fun node => ?_) hlevel
            (hsettled.admits op.conditional_lt_precedence)
          refine le_trans ?_ (le_placed (le_refl _))
          rw [Expr.language, Precedence.above, Nat.min_eq_left op.precedence_lt_unary]
          exact mul_le_mul_left (mul_le_mul_left (placed_mono (Nat.le_max_right _ _)) _) _

theorem operand_succ (hs : s.Explained) :
    (Parse.operand (bound + 1)).Ends recorded s fun e s' =>
      ∃ least, Precedence.unary.rank ≤ least ∧ Read s (placed least e.rank e.language) s' ∧
        s'.Admits least := by
  rw [Parse.operand]
  refine .next rfl ?_
  split
  · next op hop =>
    have hmark := UnaryOp.ofToken_iff.mp hop
    have hread := (Read.refl hs).mark hmark.symm (by cases op <;> rfl) (by cases op <;> decide)
    refine .next rfl ((h.expr .unary _ hread.explained).bind fun inner s₁ h₁ => ?_)
    obtain ⟨h₁, hsettled⟩ := h₁
    refine .of_eq rfl ⟨Precedence.unary.rank, le_refl _, ?_, hsettled.admits (by decide)⟩
    refine (hread.trans h₁).finish (le_trans (le_of_eq ?_) (le_placed (le_refl _)))
    rw [Expr.language, one_mul]
    rfl
  · exact (h.primary s hs).mono fun e s' hread =>
      ⟨Precedence.call.rank, by decide, hread, admits_call s'⟩

theorem primary_succ : Forms (Parse.primary (bound + 1)) fun e =>
    placed Precedence.call.rank e.rank e.language := by
  rw [Parse.primary]
  intro s hs
  have hstart := Read.refl hs
  refine .next rfl ?_
  have finish {make : Node → Expr} {s' : ParseState} {L : Language Word} {first : Span}
      (hread : Read s L s') (hrank : ∀ node, (make node).rank = Precedence.call.rank)
      (hle : ∀ node, L ≤ (make node).language) : Ends recorded (do
        newExpr make (first.merge (← previousSpan))) s' fun e s'' =>
        Read s (placed Precedence.call.rank e.rank e.language) s'' :=
    .next rfl (.of_eq rfl (hread.finish ((hle _).trans (le_placed (Nat.le_of_eq (hrank _).symm)))))
  have leaf {value : Literal} {s' : ParseState} {first : Span}
      (hread : Read s (1 * value.language) s') : Ends recorded (do
        newExpr (fun node => .literal node value) (first.merge (← previousSpan))) s' fun e s'' =>
        Read s (placed Precedence.call.rank e.rank e.language) s'' :=
    finish hread (fun _ => rfl) fun node => by rw [Expr.language, one_mul]
  dsimp only
  split
  · next hkind =>
    exact read_literal hstart (by simp [Token.word?, hkind]) (by simp [hkind])
      fun value s₁ h₁ => leaf h₁
  · next hkind =>
    exact .next rfl (leaf (hstart.advance (Token.word?_of_real hkind) (by simp [hkind])))
  · next hkind =>
    exact read_literal hstart (by simp [Token.word?, hkind]) (by simp [hkind])
      fun value s₁ h₁ => leaf h₁
  · next hkind =>
    exact read_literal hstart (by simp [Token.word?, hkind]) (by simp [hkind])
      fun value s₁ h₁ => leaf h₁
  · next hkind => exact .next rfl (leaf (hstart.mark hkind rfl (by decide)))
  · next hkind => exact .next rfl (leaf (hstart.mark hkind rfl (by decide)))
  · refine (read_ident hstart).bind fun name s₁ h₁ => finish h₁ (fun _ => rfl) fun node => ?_
    rw [Expr.language, one_mul]
    exact le_add_of_nonneg_right bot_le
  · next hkind =>
    refine .next rfl (finish (hstart.mark hkind rfl (by decide)) (fun _ => rfl) fun node => ?_)
    rw [Expr.language, one_mul, given_of rfl]
    exact le_add_of_nonneg_left bot_le
  · next hkind =>
    refine .next rfl ((h.whole.ends (hstart.mark hkind rfl (by decide))).bind fun inner s₁ h₁ => ?_)
    refine (read_expect h₁ rfl (by decide)).bind fun _ s₂ h₂ => .pure (h₂.mono ?_)
    rw [one_mul]
    exact parens_le_placed
  · next hkind =>
    refine .next rfl (((forms_commaList h.whole bound).ends
      (hstart.mark hkind rfl (by decide))).bind fun elements s₁ h₁ => ?_)
    refine (read_expect h₁ rfl (by decide)).bind fun _ s₂ h₂ => finish h₂ (fun _ => rfl) fun node => ?_
    rw [Expr.language, Expr.languages_eq_map, one_mul]
  · next hkind =>
    refine .next rfl (((forms_signature bound).ends (hstart.mark hkind rfl (by decide))).bind
      fun sig s₁ h₁ => ?_)
    refine ((forms_requiredBody h.body).ends h₁).bind fun body s₂ h₂ =>
      finish h₂ (fun _ => rfl) fun node => ?_
    rw [Expr.language, one_mul]
  · exact failingHere hs _

theorem ifElse_succ (hstart : Read s₀ (mark .kwIf) s.advance) :
    (Parse.ifElse (bound + 1)).Ends recorded s fun stmt s' =>
      Read s₀ (given stmt.isConditional stmt.language) s' := by
  rw [Parse.ifElse]
  refine .next rfl ((h.whole.ends hstart).bind fun cond s₁ h₁ => ?_)
  refine (h.body.ends h₁).bind fun onTrue s₂ h₂ => ?_
  have finish (onFalse : Option (List Stmt)) {s' : ParseState} {first : Span}
      (hread : Read s₀ (mark .kwIf * cond.whole * Stmt.blockLanguage onTrue *
        Stmt.elseLanguage onFalse) s') : Ends recorded (do
      let onFalse ← (Pure.pure onFalse : Parse (Option (List Stmt)))
      newStmt (fun node => .ifElse node cond onTrue onFalse) (first.merge (← previousSpan))) s'
      fun stmt s'' => Read s₀ (given stmt.isConditional stmt.language) s'' := by
    refine .next rfl (.next rfl (.of_eq rfl (hread.finish fun ws hws => ⟨rfl, ?_⟩)))
    rw [Stmt.language]
    exact hws
  refine (read_accept h₂ rfl (by decide)).bind fun hasElse s₃ h₃ => ?_
  split
  · next helse =>
    rw [if_pos helse] at h₃
    refine .next rfl ?_
    split
    · next hif =>
      have hmark := (Read.refl h₃.explained).mark (by simpa using hif) rfl (by decide)
      rw [one_mul] at hmark
      refine (h.ifElse _ _ hmark).bind fun chained s₄ h₄ =>
        finish (some [chained]) ((h₃.trans h₄).mono ?_)
      rw [Stmt.elseLanguage, Stmt.chainedLanguage, mul_assoc]
      refine mul_le_mul_right (mul_le_mul_right (le_trans ?_ (le_add_of_nonneg_left bot_le)) _) _
      exact given_mono (fun hconditional => ⟨hconditional, rfl⟩) (le_refl _)
    · refine (h.body.ends h₃).bind fun body s₄ h₄ => finish (some body) (h₄.mono ?_)
      rw [Stmt.elseLanguage, mul_assoc]
      exact mul_le_mul_right (mul_le_mul_right (le_add_of_nonneg_right bot_le) _) _
  · next hnone =>
    rw [if_neg hnone] at h₃
    exact finish none (h₃.mono (by rw [Stmt.elseLanguage]))

theorem stmt_succ : Forms (Parse.stmt (bound + 1)) Stmt.language := by
  rw [Parse.stmt]
  intro s hs
  have hstart := Read.refl hs
  refine .next rfl (.next rfl ?_)
  have finish {make : Node → Stmt} {s' : ParseState} {L : Language Word} {first : Span}
      (hread : Read s L s') (hle : ∀ node, L ≤ (make node).language) : Ends recorded (do
        newStmt make (first.merge (← previousSpan))) s' fun stmt s'' => Read s stmt.language s'' :=
    .next rfl (.of_eq rfl (hread.finish (hle _)))
  have assignment : Ends recorded (do
      let make ← exprOrAssign (Parse.expr .lowest bound)
      newStmt make (s.current.span.merge (← previousSpan))) s fun stmt s' => Read s stmt.language s' :=
    (read_exprOrAssign h.whole hs).bind fun make s₁ h₁ =>
      .next rfl (.of_eq rfl ((h₁ _).finish (le_refl _)))
  have declared (hkind : s.kind = .kwLet ∨ s.kind = .kwVar) : Ends recorded (do
      let binding ← binding (Parse.expr .lowest bound) bound
      newStmt (fun node => .bind node binding) (s.current.span.merge (← previousSpan))) s
      fun stmt s' => Read s stmt.language s' :=
    (read_binding h.whole bound (read_keyword hs hkind)).bind fun binding s₁ h₁ =>
      finish h₁ fun node => by rw [Stmt.language]
  dsimp only
  split
  · next hkind => exact declared (.inl hkind)
  · next hkind => exact declared (.inr hkind)
  · next hkind =>
    have hmark := hstart.mark hkind rfl (by decide)
    rw [one_mul] at hmark
    exact (h.ifElse s s hmark).mono fun stmt s₁ h₁ => h₁.mono fun _ hws => hws.2
  · next hkind =>
    refine .next rfl ((h.whole.ends (hstart.mark hkind rfl (by decide))).bind fun cond s₁ h₁ => ?_)
    refine (h.body.ends h₁).bind fun body s₂ h₂ => finish h₂ fun node => ?_
    rw [Stmt.language, one_mul]
    rfl
  · next hkind =>
    refine .next rfl (.next rfl ?_)
    have last (value : Option Expr) {s' : ParseState}
        (hread : Read s (1 * mark .kwReturn * (value.map Expr.whole).getD 1) s') : Ends recorded (do
        let value ← (Pure.pure value : Parse (Option Expr))
        let _ ← expect .semi
        newStmt (fun node => .ret node value) (s.current.span.merge (← previousSpan))) s'
        fun stmt s'' => Read s stmt.language s'' :=
      .next rfl ((read_expect hread rfl (by decide)).bind fun _ s₂ h₂ => finish h₂ fun node => by
        rw [Stmt.language, Expr.optionLanguage_eq_map, one_mul])
    have hmark := hstart.mark hkind rfl (by decide)
    split
    · exact last none (by simpa using hmark)
    · exact (h.whole.ends hmark).bind fun value s₂ h₂ => last (some value) h₂
  · next hkind =>
    refine .next rfl ((read_expect (hstart.mark hkind rfl (by decide)) rfl (by decide)).bind
      fun _ s₁ h₁ => finish h₁ fun node => ?_)
    rw [Stmt.language, one_mul]
  · next hkind =>
    refine .next rfl ((read_expect (hstart.mark hkind rfl (by decide)) rfl (by decide)).bind
      fun _ s₁ h₁ => finish h₁ fun node => ?_)
    rw [Stmt.language, one_mul]
  · exact (h.body s hs).bind fun body s₁ h₁ => finish h₁ fun node => by rw [Stmt.language]
  · refine .next rfl ?_
    split
    · exact (forms_funcDecl h.body bound .free .everyone s hs).bind fun decl s₁ h₁ =>
        finish h₁ fun node => by rw [Stmt.language]
    · exact assignment
  · exact assignment

end FormsAt

theorem formsAt (bound : Nat) : FormsAt bound := by
  induction bound with
  | zero =>
      exact ⟨fun _ _ _ => trivial, fun _ _ _ _ _ _ _ _ => trivial, fun _ _ => trivial,
        fun _ _ => trivial, fun _ _ => trivial, fun _ _ _ => trivial⟩
  | succ bound ih =>
      exact ⟨fun level _ hs => ih.expr_succ level hs, fun _ _ _ _ _ => ih.exprRest_succ,
        fun _ => ih.operand_succ, ih.primary_succ, ih.stmt_succ, fun _ _ => ih.ifElse_succ⟩

end Parse

end Stela
