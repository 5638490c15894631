import Stela.Proofs.Syntax.Outcomes
import Stela.Syntax.Grammar

/-!
# The step bound is enough

A parsing step that succeeds reads at least one token, and between two tokens
the descent passes a bounded number of steps. So a bound of eight times the
tokens that are left is enough, whatever the tokens are.
-/

namespace Stela

namespace ParseState

variable {s s' s'' : ParseState}

/-- The number of tokens in front of the end of the input. -/
def left (s : ParseState) : Nat := if s.atEnd then 0 else s.ahead.length + 1

/-- Nothing was read, or something was. -/
def Reaches (s s' : ParseState) : Prop :=
  s'.left < s.left ∨ s'.left = s.left ∧ s'.current = s.current

theorem left_pos_of_kind {kind : TokenKind} (h : s.kind = kind) (hkind : kind ≠ .eof) : 0 < s.left := by
  have hend : s.atEnd = false := by simp [atEnd, h, hkind]
  simp [left, hend]

theorem left_congr (hcurrent : s'.current = s.current) (hahead : s'.ahead = s.ahead) :
    s'.left = s.left := by
  simp [left, atEnd, kind, hcurrent, hahead]

theorem left_report (error : SyntaxError) (span : Span) : (s.report error span).left = s.left :=
  left_congr (current_report error span) (ahead_report error span)

theorem left_advance (h : 0 < s.left) : s.advance.left < s.left := by
  have hend : s.atEnd = false := by
    cases hend : s.atEnd with
    | true => simp [left, hend] at h
    | false => rfl
  have hcurrent : s.current.kind ≠ .eof := by simpa [atEnd, kind] using hend
  cases hahead : s.ahead with
  | nil =>
      have hlast : s.advance.atEnd = true := by
        simp [atEnd, kind, current_advance_nil hcurrent hahead]
      simp [left, hend, hlast]
  | cons token rest =>
      have hrest := (advance_cons hcurrent hahead).2
      have hle : s.advance.left ≤ rest.length + 1 := by
        unfold left
        split
        · omega
        · exact Nat.le_of_eq (congrArg (List.length · + 1) hrest)
      have hleft : s.left = rest.length + 1 + 1 := by
        rw [left, if_neg (by simp [hend]), hahead, List.length_cons]
      rw [hleft]
      exact Nat.lt_succ_of_le hle

namespace Reaches

theorem refl (s : ParseState) : s.Reaches s := .inr ⟨rfl, rfl⟩

theorem of_lt (h : s'.left < s.left) : s.Reaches s' := .inl h

theorem le (h : s.Reaches s') : s'.left ≤ s.left := by
  rcases h with h | h
  · exact Nat.le_of_lt h
  · exact Nat.le_of_eq h.1

theorem trans (h : s.Reaches s') (h' : s'.Reaches s'') : s.Reaches s'' := by
  rcases h with h | h
  · exact .inl (Nat.lt_of_le_of_lt h'.le h)
  · rcases h' with h' | h'
    · exact .inl (h.1 ▸ h')
    · exact .inr ⟨h'.1.trans h.1, h'.2.trans h.2⟩

theorem report (error : SyntaxError) (span : Span) : s.Reaches (s.report error span) :=
  .inr ⟨left_report error span, current_report error span⟩

/-- At the end of the input the current token stays. -/
theorem advance (s : ParseState) : s.Reaches s.advance := by
  rcases Nat.eq_zero_or_pos s.left with hzero | hpos
  · have hend : s.atEnd = true := by
      cases hend : s.atEnd with
      | true => rfl
      | false => simp [left, hend] at hzero
    have hsame : s.advance = { s with previous := s.current } := by simp [ParseState.advance, hend]
    rw [hsame]
    exact .inr ⟨rfl, rfl⟩
  · exact .of_lt (left_advance hpos)

end Reaches

end ParseState

open ParseState

namespace Parse

variable {α β : Type} {p : Parse α} {f : α → Parse β} {s s₁ : ParseState} {m : Nat}
  {post : α → ParseState → Prop}

/-- A step that goes on from a state and does not run out of its bound. -/
def onward (s : ParseState) : Leeway := ⟨s.Reaches, False⟩

theorem Ends.from (h : p.Ends (onward s₁) s₁ post) (hs : s.Reaches s₁) : p.Ends (onward s) s₁ post := by
  unfold Ends at h ⊢
  cases hp : p s₁ with
  | ok a s₂ =>
      rw [hp] at h
      exact h
  | failed s₂ =>
      rw [hp] at h
      exact hs.trans h
  | spent =>
      rw [hp] at h
      exact h

/-- With at most `m` tokens left the step does not run out of its bound, and it reads a token if it
succeeds. -/
def Finishes (p : Parse α) (m : Nat) : Prop :=
  ∀ s, s.left ≤ m → p.Ends (onward s) s fun _ s' => s'.left < s.left

/-- With at most `m` tokens left the step does not run out of its bound. -/
def Passes (p : Parse α) (m : Nat) : Prop :=
  ∀ s, s.left ≤ m → p.Ends (onward s) s fun _ s' => s.Reaches s'

theorem Finishes.anti {k : Nat} (h : Finishes p m) (hk : k ≤ m) : Finishes p k :=
  fun s hs => h s (Nat.le_trans hs hk)

theorem Finishes.from (h : Finishes p m) (hs : s.Reaches s₁) (hm : s₁.left ≤ m) :
    p.Ends (onward s) s₁ fun _ s₂ => s₂.left < s₁.left := (h s₁ hm).from hs

/-- A step behind something that was read. -/
theorem Finishes.behind (h : Finishes p s₁.left) (hs : s₁.left < s.left) :
    p.Ends (onward s) s₁ fun _ s₂ => s₂.left < s₁.left := h.from (.of_lt hs) (Nat.le_refl _)

theorem Passes.behind (h : Passes p s₁.left) (hs : s₁.left < s.left) :
    p.Ends (onward s) s₁ fun _ s₂ => s₂.left ≤ s₁.left :=
  ((h s₁ (Nat.le_refl _)).from (.of_lt hs)).mono fun _ _ hreach => hreach.le

theorem stops_failAt (hs : s.Reaches s₁) (error : SyntaxError) (span : Span) :
    (failAt error span : Parse α).Ends (onward s) s₁ post := hs.trans (.report error span)

theorem stops_failHere (hs : s.Reaches s₁) (error : TokenKind → SyntaxError) :
    (failHere error : Parse α).Ends (onward s) s₁ post := hs.trans (.report _ _)

theorem finishes_expect {kind : TokenKind} (hkind : kind ≠ .eof) : Finishes (expect kind) m := by
  intro s _
  refine .next rfl ?_
  split
  · next hfound => exact .of_eq rfl (left_advance (left_pos_of_kind (by simpa using hfound) hkind))
  · exact stops_failHere (.refl s) _

theorem finishes_ident : Finishes ident m := by
  intro s _
  refine .next rfl ?_
  split
  · next hfound =>
    exact .next rfl (.pure (left_advance (left_pos_of_kind (by simpa using hfound) (by decide))))
  · exact stops_failHere (.refl s) _

theorem finishing_accept {kind : TokenKind} (hkind : kind ≠ .eof) (s s₁ : ParseState) :
    (accept kind).Ends (onward s) s₁ fun found s₂ =>
      if found then s₂.left < s₁.left else s₂ = s₁ := by
  refine .next rfl ?_
  split
  · next hfound =>
    exact .next rfl (.pure (left_advance (left_pos_of_kind (by simpa using hfound) hkind)))
  · exact .pure rfl

theorem finishing_attempt (h : p.Ends (onward s) s fun _ s' => s'.left < s.left) :
    (attempt p).Ends (onward s) s fun value s' =>
      match value with
      | some _ => s'.left < s.left
      | none => s.Reaches s' :=
  Ends.attempt h

theorem passes_literal (value : Except SyntaxError α) (span : Span) : Passes (literal value span) m := by
  intro s _
  cases value with
  | ok a => exact .pure (.refl s)
  | error error => exact stops_failAt (.refl s) error span

/-! ## Lists and options -/

theorem passes_commaList {close : TokenKind} {bound : Nat} (h : Finishes p m) (hbound : m < bound) :
    Passes (commaList close p bound) m := by
  induction bound generalizing m with
  | zero => exact absurd hbound (Nat.not_lt_zero m)
  | succ bound ih =>
      intro s hm
      refine .next rfl ?_
      split
      · exact .pure (.refl s)
      · refine (h s hm).bind fun first s₁ h₁ => (finishing_accept (by decide) s s₁).bind fun more s₂ h₂ => ?_
        split
        · next hmore =>
          rw [if_pos hmore] at h₂
          have hrest : Finishes p s₂.left := fun s' hs' => h s' (by omega)
          exact ((ih hrest (by omega)).behind (by omega)).bind fun rest s₃ h₃ =>
            .pure (.of_lt (by omega))
        · next hmore =>
          rw [if_neg hmore] at h₂
          exact .pure (.of_lt (h₂ ▸ h₁))

theorem passes_optionalAfter {kind : TokenKind} (hkind : kind ≠ .eof) (h : Finishes p m) :
    Passes (optionalAfter kind p) m := by
  intro s hm
  refine (finishing_accept hkind s s).bind fun found s₁ h₁ => ?_
  split
  · next hfound =>
    rw [if_pos hfound] at h₁
    exact (h.from (.of_lt h₁) (by omega)).bind fun value s₂ h₂ => .pure (.of_lt (Nat.lt_trans h₂ h₁))
  · next hfound =>
    rw [if_neg hfound] at h₁
    exact .pure (h₁ ▸ .refl s)

/-! ## Types and parameters -/

theorem finishes_typeParam {bound : Nat} (h : Finishes (typeExpr bound) m) :
    Finishes (do
      let byRef ← accept .kwRef
      let type ← typeExpr bound
      return (⟨if byRef then .reference else .value, type⟩ : TypeParam)) m := by
  intro s hm
  refine (finishing_accept (by decide) s s).bind fun byRef s₁ h₁ => ?_
  have hreach : s.Reaches s₁ := by
    cases byRef with
    | true => exact .of_lt h₁
    | false => exact h₁ ▸ .refl s
  have hle := hreach.le
  exact (h.from hreach (by omega)).bind fun type s₂ h₂ => .pure (by omega)

theorem finishes_typeExpr {bound : Nat} (hbound : 8 * m < bound) : Finishes (typeExpr bound) m := by
  induction bound generalizing m with
  | zero => exact absurd hbound (Nat.not_lt_zero _)
  | succ bound ih =>
      intro s hm
      refine .next rfl (.next rfl ?_)
      have finish {make : Node → TypeExpr} {s₁ : ParseState} {first : Span} (h : s₁.left < s.left) :
          Ends (onward s) (do
            let make ← (Pure.pure make : Parse (Node → TypeExpr))
            newType make (first.merge (← previousSpan))) s₁ fun _ s₂ => s₂.left < s.left :=
        .next rfl (.next rfl (.of_eq rfl h))
      dsimp only
      split
      · refine (finishes_ident s (Nat.le_refl _)).bind fun name s₁ h₁ => ?_
        refine (finishing_accept (by decide) s s₁).bind fun qualified s₂ h₂ => ?_
        split
        · next hqualified =>
          rw [if_pos hqualified] at h₂
          exact (finishes_ident.behind (by omega)).bind fun inner s₃ h₃ =>
            finish (by omega)
        · next hqualified =>
          rw [if_neg hqualified] at h₂
          exact finish (h₂ ▸ h₁)
      · next hkind =>
        have hfirst := left_advance (left_pos_of_kind hkind (by decide))
        refine .next rfl (((ih (by omega)).behind hfirst).bind fun element s₁ h₁ => ?_)
        exact ((finishes_expect (by decide)).behind (by omega)).bind
          fun _ s₂ h₂ => finish (by omega)
      · next hkind =>
        have hfirst := left_advance (left_pos_of_kind hkind (by decide))
        refine .next rfl (((finishes_expect (by decide)).behind hfirst).bind
          fun _ s₁ h₁ => ?_)
        refine ((passes_commaList (finishes_typeParam (ih (by omega))) (by omega)).behind (by omega)).bind
          fun params s₂ h₂ => ?_
        refine ((finishes_expect (by decide)).behind (by omega)).bind
          fun _ s₃ h₃ => ?_
        refine ((passes_optionalAfter (by decide) (ih (by omega))).behind
          (by omega)).bind fun ret s₄ h₄ => ?_
        exact finish (by omega)
      · exact .bind (P := fun _ _ => False) (stops_failHere (.refl s) _) fun _ _ h => h.elim

theorem finishes_param {bound : Nat} (hbound : 8 * m < bound) : Finishes (param bound) m := by
  intro s hm
  have finish {mode : Mutability × RefKind} {s₁ : ParseState} {first : Span} (hs : s.Reaches s₁) :
      Ends (onward s) (do
        let mode ← (Pure.pure mode : Parse (Mutability × RefKind))
        let name ← ident
        let _ ← expect .colon
        let type ← typeExpr bound
        return (⟨name, mode.1, mode.2, type, first.merge (← previousSpan)⟩ : Param)) s₁
        fun _ s₂ => s₂.left < s.left := by
    have hle := hs.le
    refine .next rfl ((finishes_ident.from hs (Nat.le_refl _)).bind fun name s₂ h₂ => ?_)
    refine ((finishes_expect (by decide)).behind (by omega)).bind fun _ s₃ h₃ => ?_
    refine ((finishes_typeExpr (by omega)).behind (by omega)).bind fun type s₄ h₄ => ?_
    exact .next rfl (.pure (by omega))
  refine .next rfl ((finishing_accept (by decide) s s).bind fun byRef s₁ h₁ => ?_)
  dsimp only
  split
  · next href =>
    rw [if_pos href] at h₁
    exact finish (.of_lt h₁)
  · next hvalue =>
    rw [if_neg hvalue] at h₁
    subst h₁
    refine (finishing_accept (by decide) _ _).bind fun isVar s₂ h₂ => ?_
    split
    · next hvar =>
      rw [if_pos hvar] at h₂
      exact finish (.of_lt h₂)
    · next hfixed =>
      rw [if_neg hfixed] at h₂
      exact finish (h₂ ▸ .refl _)

theorem finishes_signature {bound : Nat} (hbound : 8 * m < bound) : Finishes (signature bound) m := by
  intro s hm
  refine (finishes_expect (by decide) s (Nat.le_refl _)).bind fun _ s₁ h₁ => ?_
  refine ((passes_commaList (finishes_param (by omega)) (by omega)).behind h₁).bind fun params s₂ h₂ => ?_
  refine ((finishes_expect (by decide)).behind (by omega)).bind fun _ s₃ h₃ => ?_
  refine ((passes_optionalAfter (by decide) (finishes_typeExpr (by omega))).behind
    (by omega)).bind fun ret s₄ h₄ => ?_
  exact .pure (by omega)

/-! ## Bodies and declarations in them -/

theorem passes_stmts {stmt : Parse Stmt} {bound : Nat} (h : Finishes stmt m) (hbound : m < bound) :
    Passes (stmts stmt bound) m := by
  induction bound generalizing m with
  | zero => exact absurd hbound (Nat.not_lt_zero m)
  | succ bound ih =>
      intro s hm
      refine .next rfl ?_
      split
      · exact .pure (.refl s)
      · next hopen =>
        have hpos : 0 < s.left := by
          have hend : s.atEnd = false := by simp_all
          simp [left, hend]
        have rest {s₁ : ParseState} (hs : s₁.left < s.left) :
            (stmts stmt bound).Ends (onward s) s₁ fun _ s₂ => s.Reaches s₂ :=
          ((ih (m := s₁.left) (h.anti (by omega)) (by omega)).behind hs).mono
            fun _ _ hle => .of_lt (Nat.lt_of_le_of_lt hle hs)
        refine (finishing_attempt (h s hm)).bind fun first s₁ h₁ => ?_
        split
        · exact (rest h₁).bind fun more s₂ h₂ => .pure h₂
        · refine .next rfl ?_
          split
          · -- A token is passed, unless the statement failed at the end of the input.
            refine .next rfl (rest ?_)
            rcases Nat.eq_zero_or_pos s₁.left with hzero | hmore
            · have := (Reaches.advance s₁).le
              omega
            · exact Nat.lt_of_lt_of_le (left_advance hmore) h₁.le
          · next hmoved =>
            rcases h₁ with hlt | ⟨-, hsame⟩
            · exact rest hlt
            · exact absurd (by rw [hsame]; exact beq_self_eq_true _) hmoved

theorem finishes_block {stmt : Parse Stmt} {bound : Nat} (h : ∀ k < m, Finishes stmt k)
    (hbound : m ≤ bound) : Finishes (block stmt bound) m := by
  intro s hm
  refine (finishes_expect (by decide) s (Nat.le_refl _)).bind fun _ s₁ h₁ => ?_
  refine ((passes_stmts (h _ (by omega)) (by omega)).behind h₁).bind fun body s₂ h₂ => ?_
  exact ((finishes_expect (by decide)).behind (by omega)).bind fun _ s₃ h₃ => .pure (by omega)

theorem finishes_requiredBody {block : Parse (List Stmt)} (h : Finishes block m) :
    Finishes (requiredBody block) m := by
  intro s hm
  refine .next rfl ?_
  split
  · exact h s hm
  · exact stops_failHere (.refl s) _

theorem finishes_funcDecl {block : Parse (List Stmt)} {bound : Nat} (h : Finishes block m)
    (hbound : 8 * m < bound) (funcKind : FuncKind) (access : Access) :
    Finishes (funcDecl block bound funcKind access) m := by
  intro s hm
  refine .next rfl ((finishes_expect (by decide) s (Nat.le_refl _)).bind fun _ s₁ h₁ => ?_)
  refine (finishes_ident.behind h₁).bind fun name s₂ h₂ => ?_
  refine ((finishes_signature (by omega)).behind (by omega)).bind fun sig s₃ h₃ => ?_
  dsimp only
  split
  · exact ((finishes_expect (by decide)).behind (by omega)).bind fun _ s₄ h₄ =>
      .next rfl (.next rfl (.of_eq rfl (show s₄.left < s.left by omega)))
  · exact ((finishes_requiredBody (h.anti (by omega))).behind (by omega)).bind fun body s₄ h₄ =>
      .next rfl (.next rfl (.of_eq rfl (show s₄.left < s.left by omega)))

theorem finishes_binding {e : Parse Expr} {bound : Nat} (he : Finishes e m) (hbound : 8 * m < bound) :
    Finishes (binding e bound) m := by
  intro s hm
  have hfirst := (Reaches.advance s).le
  refine .next rfl ((finishes_ident.from (.advance s) (Nat.le_refl _)).bind fun name s₁ h₁ => ?_)
  refine ((passes_optionalAfter (by decide) (finishes_typeExpr (by omega))).behind
    (by omega)).bind fun type s₂ h₂ => ?_
  refine ((passes_optionalAfter (by decide) (he.anti (by omega))).behind
    (by omega)).bind fun init s₃ h₃ => ?_
  split
  · exact stops_failAt (.of_lt (by omega)) _ _
  · exact ((finishes_expect (by decide)).behind (by omega)).bind fun _ s₄ h₄ => .pure (by omega)

theorem finishes_exprOrAssign {e : Parse Expr} (he : Finishes e m) : Finishes (exprOrAssign e) m := by
  intro s hm
  refine (he s hm).bind fun target s₁ h₁ => ?_
  have finish {make : Node → Stmt} {s' : ParseState} (hs : s'.left < s.left) : Ends (onward s) (do
      let make ← (Pure.pure make : Parse (Node → Stmt))
      let _ ← expect .semi
      return make) s' fun _ s'' => s''.left < s.left :=
    .next rfl (((finishes_expect (by decide)).behind hs).bind fun _ s₂ h₂ => .pure (by omega))
  have assign {op : Option BinOp} {s' : ParseState} (hs : s'.left < s.left) : Ends (onward s) (do
      let value ← e
      let make ← (Pure.pure fun node => Stmt.assign node target op value : Parse (Node → Stmt))
      let _ ← expect .semi
      return make) s' fun _ s'' => s''.left < s.left :=
    ((he.anti (by omega)).behind hs).bind fun value s₂ h₂ => finish (by omega)
  refine (finishing_accept (by decide) s s₁).bind fun plain s₂ h₂ => ?_
  split
  · next hplain =>
    rw [if_pos hplain] at h₂
    exact assign (by omega)
  · next hother =>
    rw [if_neg hother] at h₂
    subst h₂
    refine .next rfl ?_
    split
    · exact .next rfl (assign (Nat.lt_of_le_of_lt (Reaches.advance _).le h₁))
    · exact finish h₁

/-! ## Expressions and statements -/

/-- How much of a bound the steps that descend into expressions and statements need. -/
structure FinishesAt (bound : Nat) : Prop where
  expr : ∀ level m, 8 * m + 3 ≤ bound → Finishes (expr level bound) m
  exprRest : ∀ level left m, 8 * m + 2 ≤ bound → Passes (exprRest level left bound) m
  operand : ∀ m, 8 * m + 2 ≤ bound → Finishes (operand bound) m
  primary : ∀ m, 8 * m + 1 ≤ bound → Finishes (primary bound) m
  stmt : ∀ m, 8 * m + 5 ≤ bound → Finishes (stmt bound) m
  ifElse : ∀ m, 8 * m + 4 ≤ bound → Finishes (ifElse bound) m

namespace FinishesAt

variable {bound : Nat} (h : FinishesAt bound)

include h

theorem body (hbound : 8 * m ≤ bound + 3) : Finishes (block (Parse.stmt bound) bound) m :=
  finishes_block (fun k hk => h.stmt k (by omega)) (by omega)

theorem exprRest_succ (level : Precedence) (left : Expr) (hbound : 8 * m + 2 ≤ bound + 1) :
    Passes (Parse.exprRest level left (bound + 1)) m := by
  intro s hm
  rw [Parse.exprRest]
  refine .next rfl ?_
  have finish {make : Node → Expr} {span : Span} {s₁ : ParseState} (hs : s₁.left < s.left) :
      Ends (onward s) (do
        let longer ← newExpr make span
        Parse.exprRest level longer bound) s₁ fun _ s₂ => s.Reaches s₂ := by
    refine .next rfl ?_
    let s₂ : ParseState := { s₁ with
      nodes.exprs := s₁.nodes.exprs + 1
      arena := .expr (make ⟨s₁.nodes.exprs, span⟩) :: s₁.arena }
    have hleft : s₂.left = s₁.left := left_congr rfl rfl
    have hbehind : s₂.left < s.left := by omega
    refine ((h.exprRest level _ s₂.left (by omega)).behind hbehind).mono fun _ s₃ h₃ => ?_
    exact .of_lt (by omega)
  split
  · exact .pure (.refl s)
  · next continuation hnext =>
    split
    · exact .pure (.refl s)
    · have hfirst : s.advance.left < s.left := by
        apply left_advance
        apply left_pos_of_kind rfl
        intro hend
        simp [hend, Continuation.ofToken] at hnext
      refine .next rfl ?_
      dsimp only
      split
      · refine ((passes_commaList (h.expr .lowest _ (by omega)) (by omega)).behind hfirst).bind
          fun args s₂ h₂ => ?_
        exact ((finishes_expect (by decide)).behind (by omega)).bind fun _ s₃ h₃ =>
          .next rfl (finish (by omega))
      · refine ((h.expr .lowest _ (by omega)).behind hfirst).bind fun index s₂ h₂ => ?_
        exact ((finishes_expect (by decide)).behind (by omega)).bind fun _ s₃ h₃ =>
          .next rfl (finish (by omega))
      · exact (finishes_ident.behind hfirst).bind fun name s₂ h₂ => finish (by omega)
      · refine ((h.expr .lowest _ (by omega)).behind hfirst).bind fun onTrue s₂ h₂ => ?_
        refine ((finishes_expect (by decide)).behind (by omega)).bind fun _ s₃ h₃ => ?_
        exact ((h.expr .lowest _ (by omega)).behind (by omega)).bind fun onFalse s₄ h₄ =>
          finish (by omega)
      · exact ((h.expr _ _ (by omega)).behind hfirst).bind fun right s₂ h₂ => finish (by omega)

theorem expr_succ (level : Precedence) (hbound : 8 * m + 3 ≤ bound + 1) :
    Finishes (Parse.expr level (bound + 1)) m := by
  intro s hm
  rw [Parse.expr]
  refine (h.operand m (by omega) s hm).bind fun left s₁ h₁ => ?_
  exact ((h.exprRest level left _ (by omega)).behind h₁).mono fun _ s₂ h₂ => by omega

theorem operand_succ (hbound : 8 * m + 2 ≤ bound + 1) : Finishes (Parse.operand (bound + 1)) m := by
  intro s hm
  rw [Parse.operand]
  refine .next rfl ?_
  split
  · next op hop =>
    have hfirst : s.advance.left < s.left := by
      apply left_advance
      apply left_pos_of_kind rfl
      intro hend
      simp [hend, UnaryOp.ofToken] at hop
    exact .next rfl (((h.expr .unary _ (by omega)).behind hfirst).bind fun inner s₁ h₁ =>
      .of_eq rfl (show s₁.left < s.left by omega))
  · exact h.primary m (by omega) s hm

theorem primary_succ (hbound : 8 * m + 1 ≤ bound + 1) : Finishes (Parse.primary (bound + 1)) m := by
  intro s hm
  rw [Parse.primary]
  refine .next rfl ?_
  have finish {make : Node → Expr} {first : Span} {s₁ : ParseState} (hs : s₁.left < s.left) :
      Ends (onward s) (do newExpr make (first.merge (← previousSpan))) s₁ fun _ s₂ =>
        s₂.left < s.left := .next rfl (.of_eq rfl hs)
  have first {kind : TokenKind} (hkind : s.current.kind = kind) (hne : kind ≠ .eof) :
      s.advance.left < s.left := left_advance (left_pos_of_kind hkind hne)
  have decoded {value : Except SyntaxError Literal} {span : Span} (hs : s.advance.left < s.left) :
      Ends (onward s) (do
        let value ← literal value span
        newExpr (fun node => .literal node value) (span.merge (← previousSpan))) s.advance
        fun _ s₂ => s₂.left < s.left :=
    ((passes_literal value span).behind hs).bind fun value s₁ h₁ => finish (by omega)
  dsimp only
  split
  · next hkind => exact .next rfl (decoded (first hkind (by decide)))
  · next hkind => exact .next rfl (finish (first hkind (by decide)))
  · next hkind => exact .next rfl (decoded (first hkind (by decide)))
  · next hkind => exact .next rfl (decoded (first hkind (by decide)))
  · next hkind => exact .next rfl (finish (first hkind (by decide)))
  · next hkind => exact .next rfl (finish (first hkind (by decide)))
  · exact (finishes_ident s (Nat.le_refl _)).bind fun name s₁ h₁ => finish h₁
  · next hkind => exact .next rfl (finish (first hkind (by decide)))
  · next hkind =>
    have hfirst := first hkind (by decide)
    refine .next rfl (((h.expr .lowest _ (by omega)).behind hfirst).bind fun inner s₁ h₁ => ?_)
    exact ((finishes_expect (by decide)).behind (by omega)).bind fun _ s₂ h₂ => .pure (by omega)
  · next hkind =>
    have hfirst := first hkind (by decide)
    refine .next rfl (((passes_commaList (h.expr .lowest _ (by omega)) (by omega)).behind hfirst).bind
      fun elements s₁ h₁ => ?_)
    exact ((finishes_expect (by decide)).behind (by omega)).bind fun _ s₂ h₂ => finish (by omega)
  · next hkind =>
    have hfirst := first hkind (by decide)
    refine .next rfl (((finishes_signature (by omega)).behind hfirst).bind fun sig s₁ h₁ => ?_)
    exact ((finishes_requiredBody (h.body (by omega))).behind (by omega)).bind fun body s₂ h₂ =>
      finish (by omega)
  · exact stops_failHere (.refl s) _

theorem ifElse_succ (hbound : 8 * m + 4 ≤ bound + 1) : Finishes (Parse.ifElse (bound + 1)) m := by
  intro s hm
  rw [Parse.ifElse]
  have hfirst := (Reaches.advance s).le
  refine .next rfl (((h.expr .lowest _ (by omega)).from (.advance s) (Nat.le_refl _)).bind
    fun cond s₁ h₁ => ?_)
  refine ((h.body (by omega)).behind (by omega)).bind fun onTrue s₂ h₂ => ?_
  have finish {onFalse : Option (List Stmt)} {first : Span} {s' : ParseState}
      (hs : s'.left < s.left) : Ends (onward s) (do
      let onFalse ← (Pure.pure onFalse : Parse (Option (List Stmt)))
      newStmt (fun node => .ifElse node cond onTrue onFalse) (first.merge (← previousSpan))) s'
      fun _ s'' => s''.left < s.left := .next rfl (.next rfl (.of_eq rfl hs))
  refine (finishing_accept (by decide) s s₂).bind fun hasElse s₃ h₃ => ?_
  split
  · next helse =>
    rw [if_pos helse] at h₃
    refine .next rfl ?_
    split
    · exact ((h.ifElse _ (by omega)).behind (by omega)).bind fun chained s₄ h₄ => finish (by omega)
    · exact ((h.body (by omega)).behind (by omega)).bind fun body s₄ h₄ => finish (by omega)
  · next hnone =>
    rw [if_neg hnone] at h₃
    subst h₃
    exact finish (by omega)

theorem stmt_succ (hbound : 8 * m + 5 ≤ bound + 1) : Finishes (Parse.stmt (bound + 1)) m := by
  intro s hm
  rw [Parse.stmt]
  refine .next rfl (.next rfl ?_)
  have finish {make : Node → Stmt} {first : Span} {s₁ : ParseState} (hs : s₁.left < s.left) :
      Ends (onward s) (do newStmt make (first.merge (← previousSpan))) s₁ fun _ s₂ =>
        s₂.left < s.left := .next rfl (.of_eq rfl hs)
  have first {kind : TokenKind} (hkind : s.kind = kind) (hne : kind ≠ .eof) :
      s.advance.left < s.left := left_advance (left_pos_of_kind hkind hne)
  have declared : Ends (onward s) (do
      let binding ← binding (Parse.expr .lowest bound) bound
      newStmt (fun node => .bind node binding) (s.current.span.merge (← previousSpan))) s
      fun _ s' => s'.left < s.left :=
    (finishes_binding (h.expr .lowest m (by omega)) (by omega) s hm).bind fun binding s₁ h₁ =>
      finish h₁
  have assignment : Ends (onward s) (do
      let make ← exprOrAssign (Parse.expr .lowest bound)
      newStmt make (s.current.span.merge (← previousSpan))) s fun _ s' => s'.left < s.left :=
    (finishes_exprOrAssign (h.expr .lowest m (by omega)) s hm).bind fun make s₁ h₁ => finish h₁
  have closed {make : Node → Stmt} {first : Span} {s₁ : ParseState} (hs : s₁.left < s.left) :
      Ends (onward s) (do
        let _ ← expect .semi
        newStmt make (first.merge (← previousSpan))) s₁ fun _ s₂ => s₂.left < s.left :=
    ((finishes_expect (by decide)).behind hs).bind fun _ s₂ h₂ => finish (by omega)
  dsimp only
  split
  · exact declared
  · exact declared
  · exact h.ifElse m (by omega) s hm
  · next hkind =>
    have hfirst := first hkind (by decide)
    refine .next rfl (((h.expr .lowest _ (by omega)).behind hfirst).bind fun cond s₁ h₁ => ?_)
    exact ((h.body (by omega)).behind (by omega)).bind fun body s₂ h₂ => finish (by omega)
  · next hkind =>
    have hfirst := first hkind (by decide)
    refine .next rfl (.next rfl ?_)
    split
    · exact .next rfl (closed hfirst)
    · exact ((h.expr .lowest _ (by omega)).behind hfirst).bind fun value s₁ h₁ =>
        .next rfl (closed (by omega))
  · next hkind => exact .next rfl (closed (first hkind (by decide)))
  · next hkind => exact .next rfl (closed (first hkind (by decide)))
  · exact (h.body (by omega) s hm).bind fun body s₁ h₁ => finish h₁
  · refine .next rfl ?_
    split
    · exact (finishes_funcDecl (h.body (by omega)) (by omega) .free .everyone s hm).bind
        fun decl s₁ h₁ => finish h₁
    · exact assignment
  · exact assignment

end FinishesAt

theorem finishesAt (bound : Nat) : FinishesAt bound := by
  induction bound with
  | zero =>
      constructor
      all_goals intros; omega
  | succ bound ih =>
      exact ⟨fun level _ => ih.expr_succ level, fun level left _ => ih.exprRest_succ level left,
        fun _ => ih.operand_succ, fun _ => ih.primary_succ, fun _ => ih.stmt_succ,
        fun _ => ih.ifElse_succ⟩

/-- From any state on an expression is read or there is an error. -/
theorem expr_ne_spent {s : ParseState} {bound : Nat} (level : Precedence) (h : s.stepBound ≤ bound) :
    expr level bound s ≠ .spent := by
  have hleft : s.left ≤ s.ahead.length + 1 := by
    unfold left
    split <;> omega
  have hbound : 8 * s.left + 3 ≤ bound := by
    unfold stepBound at h
    omega
  intro hspent
  have hends := (finishesAt bound).expr level s.left hbound s (Nat.le_refl _)
  unfold Ends at hends
  rw [hspent] at hends
  exact hends

end Parse

end Stela
