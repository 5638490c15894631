import Stela.Proofs.Syntax.Accepting
import Stela.Proofs.Syntax.Spans
import Stela.Proofs.Token.Partition

/-!
# Where the nodes of a module stand

A run of the parser without errors completes nodes over the tokens that it reads,
one behind the other. Each production of the grammar closes the nodes it read
into one, from the token it started at to the one it read last. The operands of
an operator keep their own places, so an operator stands between the places of
its operands, without parentheses around them.
-/

namespace Stela

open ParseState Lexer

variable {α β : Type}

namespace Parse

/-- What the step completes. -/
def Places (moved : Bool) (p : Parse α) (trees : α → List SpanTree) : Prop :=
  ∀ s, s.Explained → p.Ends recorded s fun a s' => Lays moved s (trees a) s'

variable {p : Parse α} {f : α → Parse β} {s₀ s : ParseState} {trees : List SpanTree}
  {L : α → List SpanTree} {moved moved' : Bool} {kind : TokenKind}

theorem Places.ends (hp : Places moved' p L) (h : Lays moved s₀ trees s) :
    p.Ends recorded s fun a s' => Lays (moved || moved') s₀ (trees ++ L a) s' :=
  (hp s h.explained).mono fun _ _ h' => h.trans h'

theorem lays_expect (h : Lays moved s₀ trees s) (hne : kind ≠ .eof) (hplain : kind ≠ .kwExtern) :
    (expect kind).Ends recorded s fun _ s' => Lays true s₀ trees s' :=
  ends_expect h.explained fun hkind => h.advance hkind hne hplain

theorem lays_accept (h : Lays moved s₀ trees s) (hne : kind ≠ .eof) (hplain : kind ≠ .kwExtern) :
    (accept kind).Ends recorded s fun _ s' => Lays moved s₀ trees s' := by
  refine .next rfl ?_
  split
  · next hfound => exact .next rfl (.pure (h.advance (by simpa using hfound) hne hplain).weaken)
  · exact .pure h

theorem lays_ident (h : Lays moved s₀ trees s) : ident.Ends recorded s fun name s' =>
    Lays true s₀ trees s' ∧ name.span = s'.previous.span := by
  refine .next rfl ?_
  split
  · next hfound =>
    refine .next rfl (.pure ⟨h.advance (show s.kind = .ident by simpa using hfound)
      (by decide) (by decide), ?_⟩)
    rw [previous_advance]
  · exact failingHere h.explained _

/-- A literal token is read. -/
theorem lays_literal {value : Except SyntaxError Literal} {span : Span} {f : Literal → Parse β}
    {post : β → ParseState → Prop} (h : Lays moved s₀ trees s) (hkind : s.current.kind = kind)
    (hne : kind ≠ .eof) (hplain : kind ≠ .kwExtern)
    (hf : ∀ v s', Lays true s₀ trees s' → (f v).Ends recorded s' post) :
    (do
      let _ ← advance
      let v ← literal value span
      f v).Ends recorded s post := by
  refine .next rfl ?_
  cases value with
  | error error =>
      exact .bind (P := fun _ _ => False) (failing (explained_advance h.explained) _ _)
        fun _ _ h => h.elim
  | ok v => exact .next rfl (hf v _ (h.advance hkind hne hplain))

/-! ## Lists and options -/

theorem places_commaList {close : TokenKind} (hp : Places true p L) (bound : Nat) :
    Places false (commaList close p bound) fun items => items.flatMap L := by
  induction bound with
  | zero => exact fun _ _ => trivial
  | succ bound ih =>
      intro s hs
      refine .next rfl ?_
      split
      · exact .pure (.refl hs)
      · refine (hp s hs).bind fun first s₁ h₁ => ?_
        refine (lays_accept h₁ (by decide) (by decide)).bind fun more s₂ h₂ => ?_
        split
        · exact (ih.ends h₂).bind fun rest s₃ h₃ => .pure (h₃.weaken)
        · refine .pure ?_
          simpa only [List.flatMap_singleton] using h₂.weaken

theorem places_optionalAfter (hp : Places true p L) (hne : kind ≠ .eof) (hplain : kind ≠ .kwExtern) :
    Places false (optionalAfter kind p) fun value => value.elim [] L := by
  intro s hs
  refine (lays_accept (.refl hs) hne hplain).bind fun found s₁ h₁ => ?_
  split
  · exact (hp.ends h₁).bind fun value s₂ h₂ => .pure h₂.weaken
  · exact .pure h₁

/-! ## Types and parameters -/

theorem places_typeParam {bound : Nat} (h : Places true (typeExpr bound) fun type => [type.spans]) :
    Places true (do
      let byRef ← accept .kwRef
      let type ← typeExpr bound
      return (⟨if byRef then .reference else .value, type⟩ : TypeParam)) fun param => [param.spans] := by
  intro s hs
  refine (lays_accept (.refl hs) (by decide) (by decide)).bind fun byRef s₁ h₁ => ?_
  refine (h.ends h₁).bind fun type s₂ h₂ => .pure ?_
  simp only [TypeParam.spans]
  exact h₂

theorem places_typeExpr (bound : Nat) : Places true (typeExpr bound) fun type => [type.spans] := by
  induction bound with
  | zero => exact fun _ _ => trivial
  | succ bound ih =>
      intro s hs
      have hstart := Lays.refl hs
      refine .next rfl (.next rfl ?_)
      have finish {make : Node → TypeExpr} {s' : ParseState} {trees : List SpanTree}
          (h : Lays true s trees s') (hmake : ∀ node, (make node).spans = .node node.span trees) :
          Ends recorded (do
          let make ← (Pure.pure make : Parse (Node → TypeExpr))
          newType make (s.current.span.merge (← previousSpan))) s' fun type s'' =>
            Lays true s [type.spans] s'' := by
        refine .next rfl (.next rfl (.of_eq rfl ?_))
        rw [hmake]
        exact (h.node (.inl rfl) (.inl rfl)).numbered
      dsimp only
      split
      · refine (lays_ident hstart).bind fun name s₁ h₁ => ?_
        refine (lays_accept h₁.1 (by decide) (by decide)).bind fun qualified s₂ h₂ => ?_
        split
        · exact (lays_ident h₂).bind fun inner s₃ h₃ => finish h₃.1 fun node => by rw [TypeExpr.spans]
        · exact finish h₂ fun node => by rw [TypeExpr.spans]
      · next hkind =>
        refine .next rfl ((ih.ends (hstart.advance hkind (by decide) (by decide))).bind
          fun element s₁ h₁ => ?_)
        exact (lays_expect h₁ (by decide) (by decide)).bind fun _ s₂ h₂ => finish h₂ fun node => by
          rw [TypeExpr.spans]
          rfl
      · next hkind =>
        refine .next rfl ((lays_expect (hstart.advance hkind (by decide) (by decide)) (by decide)
          (by decide)).bind fun _ s₁ h₁ => ?_)
        refine ((places_commaList (places_typeParam ih) bound).ends h₁).bind fun params s₂ h₂ => ?_
        refine (lays_expect h₂ (by decide) (by decide)).bind fun _ s₃ h₃ => ?_
        refine ((places_optionalAfter ih (by decide) (by decide)).ends h₃).bind fun ret s₄ h₄ => ?_
        refine finish h₄ fun node => ?_
        rw [TypeExpr.spans, TypeParam.listSpans_eq_map, List.map_eq_flatMap,
          TypeExpr.optionSpans_eq_elim]
        rfl
      · exact .bind (P := fun _ _ => False) (failingHere hs _) fun _ _ h => h.elim

theorem places_param (bound : Nat) : Places true (param bound) fun param => [param.spans] := by
  intro s hs
  refine .next rfl ((lays_accept (.refl hs) (by decide) (by decide)).bind fun byRef s₁ h₁ => ?_)
  have finish (mode : Mutability × RefKind) {s' : ParseState} (h : Lays false s [] s') :
      Ends recorded (do
      let mode ← (Pure.pure mode : Parse (Mutability × RefKind))
      let name ← ident
      let _ ← expect .colon
      let type ← typeExpr bound
      return (⟨name, mode.1, mode.2, type, s.current.span.merge (← previousSpan)⟩ : Param)) s'
      fun param s'' => Lays true s [param.spans] s'' := by
    refine .next rfl ((lays_ident h).bind fun name s₂ h₂ => ?_)
    refine (lays_expect h₂.1 (by decide) (by decide)).bind fun _ s₃ h₃ => ?_
    refine ((places_typeExpr bound).ends h₃).bind fun type s₄ h₄ => .next rfl (.pure ?_)
    exact h₄.node (.inl rfl) (.inl rfl)
  dsimp only
  split
  · exact finish (.mutable, .reference) h₁
  · refine (lays_accept h₁ (by decide) (by decide)).bind fun isVar s₂ h₂ => ?_
    split
    · exact finish (.mutable, .value) h₂
    · exact finish (.fixed, .value) h₂

theorem places_signature (bound : Nat) : Places true (signature bound) Signature.spans := by
  intro s hs
  refine (lays_expect (.refl hs) (by decide) (by decide)).bind fun _ s₁ h₁ => ?_
  refine ((places_commaList (places_param bound) bound).ends h₁).bind fun params s₂ h₂ => ?_
  refine (lays_expect h₂ (by decide) (by decide)).bind fun _ s₃ h₃ => ?_
  refine ((places_optionalAfter (places_typeExpr bound) (by decide) (by decide)).ends h₃).bind
    fun ret s₄ h₄ => .pure ?_
  rw [Signature.spans, List.map_eq_flatMap, TypeExpr.optionSpans_eq_elim]
  exact h₄

/-! ## Bodies and declarations in them -/

theorem lays_binding {e : Parse Expr} (he : Places true e fun e => [e.spans]) (bound : Nat)
    (hstart : Lays true s₀ [] s.advance) :
    (binding e bound).Ends recorded s fun binding s' => Lays true s₀ binding.spans s' := by
  refine .next rfl ((lays_ident hstart).bind fun name s₁ h₁ => ?_)
  refine ((places_optionalAfter (places_typeExpr bound) (by decide) (by decide)).ends h₁.1).bind
    fun type s₂ h₂ => ?_
  refine ((places_optionalAfter he (by decide) (by decide)).ends h₂).bind fun init s₃ h₃ => ?_
  split
  · exact failing h₃.explained _ _
  · refine (lays_expect h₃ (by decide) (by decide)).bind fun _ s₄ h₄ => .pure ?_
    rw [Binding.spans, TypeExpr.optionSpans_eq_elim, Expr.optionSpans_eq_elim]
    exact h₄

theorem places_stmts {stmt : Parse Stmt} (hstmt : Places true stmt fun stmt => [stmt.spans])
    (bound : Nat) : Places false (stmts stmt bound) Stmt.listSpans := by
  induction bound with
  | zero => exact fun _ _ => trivial
  | succ bound ih =>
      intro s hs
      refine .next rfl ?_
      split
      · refine .pure ?_
        rw [Stmt.listSpans]
        exact .refl hs
      · -- A statement that fails leaves an error, so nothing is claimed of the nodes from there on.
        have skipped {s' : ParseState} (herrors : s'.errors ≠ []) :
            (stmts stmt bound).Ends recorded s' fun body s'' => Lays false s (Stmt.listSpans body) s'' :=
          (ih.ends (Lays.of_errors herrors : Lays false s [] s')).mono fun _ _ h => h
        refine (ends_attempt (hstmt s hs)).bind fun first s₁ h₁ => ?_
        split
        · refine (ih.ends h₁).bind fun rest s₂ h₂ => .pure ?_
          rw [Stmt.listSpans]
          exact h₂.weaken
        · refine .next rfl ?_
          split
          · exact .next rfl (skipped (kept_advance h₁))
          · exact skipped h₁

theorem places_block {stmt : Parse Stmt} (hstmt : Places true stmt fun stmt => [stmt.spans])
    (bound : Nat) : Places true (block stmt bound) Stmt.listSpans := by
  intro s hs
  refine (lays_expect (.refl hs) (by decide) (by decide)).bind fun _ s₁ h₁ => ?_
  refine ((places_stmts hstmt bound).ends h₁).bind fun body s₂ h₂ => ?_
  exact (lays_expect h₂ (by decide) (by decide)).bind fun _ s₃ h₃ => .pure h₃

theorem places_requiredBody {block : Parse (List Stmt)} (hblock : Places true block Stmt.listSpans) :
    Places true (requiredBody block) Stmt.listSpans := by
  intro s hs
  refine .next rfl ?_
  split
  · exact hblock s hs
  · exact failingHere hs _

/-- A function starts with `func`, or with `extern` if that stands before it. -/
theorem lays_funcDecl {block : Parse (List Stmt)} (hblock : Places true block Stmt.listSpans)
    (bound : Nat) (funcKind : FuncKind) (access : Access) (hs : s.Explained)
    (hstart : s.kind = .kwFunc → Lays true s₀ [] s.advance)
    (hfirst : s₀.previous.kind ≠ .kwExtern →
      (if s.previous.kind == .kwExtern then s.previous.span else s.current.span) = s₀.current.span) :
    (funcDecl block bound funcKind access).Ends recorded s fun decl s' =>
      Lays true s₀ [decl.spans] s' := by
  refine .next rfl ((ends_expect (P := fun _ => Lays true s₀ []) hs hstart).bind fun _ s₁ h₁ => ?_)
  refine (lays_ident h₁).bind fun name s₂ h₂ => ?_
  refine ((places_signature bound).ends h₂.1).bind fun sig s₃ h₃ => ?_
  have finish (body : Option (List Stmt)) {first : Span} {s' : ParseState}
      (hfirst : s₀.previous.kind ≠ .kwExtern → first = s₀.current.span)
      (h : Lays true s₀ (sig.spans ++ Stmt.optionSpans body) s') : Ends recorded (do
      let body ← (Pure.pure body : Parse (Option (List Stmt)))
      newDecl .func (fun node => FuncDecl.mk node name sig body funcKind access)
        (first.merge (← previousSpan))) s' fun decl s'' => Lays true s₀ [decl.spans] s'' := by
    refine .next rfl (.next rfl (.of_eq rfl ?_))
    by_cases hplain : s₀.previous.kind = .kwExtern
    · exact (h.of_behindExtern hplain).numbered
    · rw [FuncDecl.spans, hfirst hplain]
      exact (h.node (.inl rfl) (.inl rfl)).numbered
  dsimp only
  split
  · next hhosted =>
    refine (lays_expect h₃ (by decide) (by decide)).bind fun _ s₄ h₄ => finish none
      (fun hplain => (if_pos hhosted).symm.trans (hfirst hplain)) ?_
    rw [Stmt.optionSpans, List.append_nil]
    exact h₄
  · next hwritten =>
    refine ((places_requiredBody hblock).ends h₃).bind fun body s₄ h₄ => finish (some body)
      (fun hplain => (if_neg hwritten).symm.trans (hfirst hplain)) ?_
    rw [Stmt.optionSpans]
    exact h₄

theorem places_funcDecl {block : Parse (List Stmt)} (hblock : Places true block Stmt.listSpans)
    (bound : Nat) (funcKind : FuncKind) (access : Access) :
    Places true (funcDecl block bound funcKind access) fun decl => [decl.spans] := by
  intro s hs
  refine lays_funcDecl hblock bound funcKind access hs
    (fun hkind => (Lays.refl hs).advance hkind (by decide) (by decide)) fun hplain => ?_
  rw [if_neg (by simpa using hplain)]

theorem lays_exprOrAssign {e : Parse Expr} (he : Places true e fun e => [e.spans]) (hs : s.Explained) :
    (exprOrAssign e).Ends recorded s fun make s' =>
      ∃ trees, Lays true s trees s' ∧ ∀ node, (make node).spans = .node node.span trees := by
  refine (he s hs).bind fun target s₁ h₁ => ?_
  have finish {make : Node → Stmt} {s' : ParseState} {trees : List SpanTree} (h : Lays true s trees s')
      (hmake : ∀ node, (make node).spans = .node node.span trees) : Ends recorded (do
      let make ← (Pure.pure make : Parse (Node → Stmt))
      let _ ← expect .semi
      return make) s' fun make s'' =>
        ∃ trees, Lays true s trees s'' ∧ ∀ node, (make node).spans = .node node.span trees :=
    .next rfl ((lays_expect h (by decide) (by decide)).bind fun _ s₂ h₂ => .pure ⟨trees, h₂, hmake⟩)
  have assign {op : Option BinOp} {s' : ParseState} (h : Lays true s [target.spans] s') :
      Ends recorded (do
      let value ← e
      let make ← (Pure.pure fun node => Stmt.assign node target op value : Parse (Node → Stmt))
      let _ ← expect .semi
      return make) s' fun make s'' =>
        ∃ trees, Lays true s trees s'' ∧ ∀ node, (make node).spans = .node node.span trees :=
    (he.ends h).bind fun value s₂ h₂ => finish h₂ fun node => by
      rw [Stmt.spans]
      rfl
  refine (lays_accept h₁ (by decide) (by decide)).bind fun plain s₂ h₂ => ?_
  split
  · exact assign h₂
  · refine .next rfl ?_
    split
    · next op hop =>
      have hkind : s₂.kind ≠ .eof ∧ s₂.kind ≠ .kwExtern := by
        constructor <;> (intro hkind; simp [hkind, BinOp.ofAssignment] at hop)
      exact .next rfl (assign (h₂.advance rfl hkind.1 hkind.2))
    · exact finish h₂ fun node => by rw [Stmt.spans]

/-! ## Expressions and statements -/

/-- What the steps that descend into expressions and statements complete. -/
structure PlacesAt (bound : Nat) : Prop where
  expr : ∀ level, Places true (expr level bound) fun e => [e.spans]
  exprRest : ∀ level left s₀ s, Lays true s₀ [left.spans] s →
    (exprRest level left bound).Ends recorded s fun e s' => Lays true s₀ [e.spans] s'
  operand : Places true (operand bound) fun e => [e.spans]
  primary : Places true (primary bound) fun e => [e.spans]
  stmt : Places true (stmt bound) fun stmt => [stmt.spans]
  ifElse : ∀ s, s.Explained → s.kind = .kwIf → (ifElse bound).Ends recorded s fun stmt s' =>
    Lays true s [stmt.spans] s'

namespace PlacesAt

variable {bound : Nat} (h : PlacesAt bound)

include h

theorem body : Places true (block (Parse.stmt bound) bound) Stmt.listSpans := places_block h.stmt bound

theorem expr_succ (level : Precedence) :
    Places true (Parse.expr level (bound + 1)) fun e => [e.spans] := by
  intro s hs
  rw [Parse.expr]
  exact (h.operand s hs).bind fun left s₁ h₁ => h.exprRest level left s s₁ h₁

/-- An expression with an operator starts where its first operand does. -/
theorem exprRest_succ (level : Precedence) (left : Expr) (hleft : Lays true s₀ [left.spans] s) :
    (Parse.exprRest level left (bound + 1)).Ends recorded s fun e s' => Lays true s₀ [e.spans] s' := by
  rw [Parse.exprRest]
  refine .next rfl ?_
  have finish {make : Node → Expr} {last : Span} {s' : ParseState} {more : List SpanTree}
      (hlaid : Lays true s₀ (left.spans :: more) s')
      (hmake : ∀ node, (make node).spans = .node node.span (left.spans :: more))
      (hlast : last = s'.previous.span ∨
        ∃ tree front, left.spans :: more = front ++ [tree] ∧ last = tree.span) : Ends recorded (do
        let longer ← newExpr make (left.span.merge last)
        Parse.exprRest level longer bound) s' fun e s'' => Lays true s₀ [e.spans] s'' := by
    refine .next rfl (h.exprRest level _ s₀ _ ?_)
    rw [hmake]
    exact (hlaid.node (.inr ⟨_, _, rfl, left.span_spans.symm⟩) hlast).numbered
  split
  · exact .pure hleft
  · next continuation hnext =>
    split
    · exact .pure hleft
    · have hkind : s.kind ≠ .eof ∧ s.kind ≠ .kwExtern := by
        constructor <;> (intro hkind; simp [hkind, Continuation.ofToken] at hnext)
      have hread := hleft.advance rfl hkind.1 hkind.2
      refine .next rfl ?_
      dsimp only
      cases continuation with
      | call =>
          refine ((places_commaList (h.expr .lowest) bound).ends hread).bind fun args s₂ h₂ => ?_
          refine (lays_expect h₂ (by decide) (by decide)).bind fun _ s₃ h₃ => .next rfl ?_
          rw [← List.map_eq_flatMap] at h₃
          exact finish h₃ (fun node => by rw [Expr.spans, Expr.listSpans_eq_map]; rfl) (.inl rfl)
      | index =>
          refine ((h.expr .lowest).ends hread).bind fun index s₂ h₂ => ?_
          refine (lays_expect h₂ (by decide) (by decide)).bind fun _ s₃ h₃ => .next rfl ?_
          exact finish h₃ (fun node => by rw [Expr.spans]; rfl) (.inl rfl)
      | member =>
          refine (lays_ident hread).bind fun name s₂ h₂ => ?_
          exact finish h₂.1 (fun node => by rw [Expr.spans]) (.inl h₂.2)
      | conditional =>
          refine ((h.expr .lowest).ends hread).bind fun onTrue s₂ h₂ => ?_
          refine (lays_expect h₂ (by decide) (by decide)).bind fun _ s₃ h₃ => ?_
          refine ((h.expr .lowest).ends h₃).bind fun onFalse s₄ h₄ => ?_
          exact finish h₄ (fun node => by rw [Expr.spans]; rfl)
            (.inr ⟨onFalse.spans, [left.spans, onTrue.spans], rfl, onFalse.span_spans.symm⟩)
      | binary op =>
          refine ((h.expr _).ends hread).bind fun right s₂ h₂ => ?_
          exact finish h₂ (fun node => by rw [Expr.spans]; rfl)
            (.inr ⟨right.spans, [left.spans], rfl, right.span_spans.symm⟩)

theorem operand_succ : Places true (Parse.operand (bound + 1)) fun e => [e.spans] := by
  intro s hs
  rw [Parse.operand]
  refine .next rfl ?_
  split
  · next op hop =>
    have hkind : s.kind ≠ .eof ∧ s.kind ≠ .kwExtern := by
      constructor <;> (intro hkind; simp [hkind, UnaryOp.ofToken] at hop)
    have hread := (Lays.refl hs).advance rfl hkind.1 hkind.2
    refine .next rfl (((h.expr .unary).ends hread).bind fun inner s₁ h₁ => .of_eq rfl ?_)
    change Lays true s [(Expr.unary _ op inner).spans] _
    rw [Expr.spans]
    exact (h₁.node (.inl rfl) (.inr ⟨inner.spans, [], rfl, inner.span_spans.symm⟩)).numbered
  · exact h.primary s hs

theorem primary_succ : Places true (Parse.primary (bound + 1)) fun e => [e.spans] := by
  rw [Parse.primary]
  intro s hs
  have hstart := Lays.refl hs
  refine .next rfl ?_
  have finish {make : Node → Expr} {s' : ParseState} {trees : List SpanTree}
      (hlaid : Lays true s trees s') (hmake : ∀ node, (make node).spans = .node node.span trees) :
      Ends recorded (do newExpr make (s.current.span.merge (← previousSpan))) s' fun e s'' =>
        Lays true s [e.spans] s'' := by
    refine .next rfl (.of_eq rfl ?_)
    rw [hmake]
    exact (hlaid.node (.inl rfl) (.inl rfl)).numbered
  have leaf {make : Node → Expr} {kind : TokenKind} (hkind : s.current.kind = kind) (hne : kind ≠ .eof)
      (hplain : kind ≠ .kwExtern) (hmake : ∀ node, (make node).spans = .node node.span []) :
      Ends recorded (do newExpr make (s.current.span.merge (← previousSpan))) s.advance fun e s'' =>
        Lays true s [e.spans] s'' := finish (hstart.advance hkind hne hplain) hmake
  have decoded {value : Except SyntaxError Literal} {kind : TokenKind} (hkind : s.current.kind = kind)
      (hne : kind ≠ .eof) (hplain : kind ≠ .kwExtern) : Ends recorded (do
        let _ ← advance
        let value ← literal value s.current.span
        newExpr (fun node => .literal node value) (s.current.span.merge (← previousSpan))) s
        fun e s'' => Lays true s [e.spans] s'' :=
    lays_literal hstart hkind hne hplain fun value s₁ h₁ => finish h₁ fun node => by rw [Expr.spans]
  dsimp only
  split
  · next hkind => exact decoded hkind (by decide) (by decide)
  · next hkind => exact .next rfl (leaf hkind (by decide) (by decide) fun node => by rw [Expr.spans])
  · next hkind => exact decoded hkind (by decide) (by decide)
  · next hkind => exact decoded hkind (by decide) (by decide)
  · next hkind => exact .next rfl (leaf hkind (by decide) (by decide) fun node => by rw [Expr.spans])
  · next hkind => exact .next rfl (leaf hkind (by decide) (by decide) fun node => by rw [Expr.spans])
  · exact (lays_ident hstart).bind fun name s₁ h₁ => finish h₁.1 fun node => by rw [Expr.spans]
  · next hkind => exact .next rfl (leaf hkind (by decide) (by decide) fun node => by rw [Expr.spans])
  · next hkind =>
    have hread := hstart.advance hkind (by decide) (by decide)
    refine .next rfl (((h.expr .lowest).ends hread).bind fun inner s₁ h₁ => ?_)
    exact (lays_expect h₁ (by decide) (by decide)).bind fun _ s₂ h₂ => .pure h₂
  · next hkind =>
    have hread := hstart.advance hkind (by decide) (by decide)
    refine .next rfl (((places_commaList (h.expr .lowest) bound).ends hread).bind fun elements s₁ h₁ => ?_)
    refine (lays_expect h₁ (by decide) (by decide)).bind fun _ s₂ h₂ => finish h₂ fun node => ?_
    rw [Expr.spans, Expr.listSpans_eq_map, List.map_eq_flatMap]
    rfl
  · next hkind =>
    have hread := hstart.advance hkind (by decide) (by decide)
    refine .next rfl (((places_signature bound).ends hread).bind fun sig s₁ h₁ => ?_)
    refine ((places_requiredBody h.body).ends h₁).bind fun body s₂ h₂ => finish h₂ fun node => ?_
    rw [Expr.spans]
    rfl
  · exact failingHere hs _

theorem ifElse_succ (hs : s.Explained) (hkind : s.kind = .kwIf) :
    (Parse.ifElse (bound + 1)).Ends recorded s fun stmt s' => Lays true s [stmt.spans] s' := by
  rw [Parse.ifElse]
  have hread := (Lays.refl hs).advance hkind (by decide) (by decide)
  refine .next rfl (((h.expr .lowest).ends hread).bind fun cond s₁ h₁ => ?_)
  refine (h.body.ends h₁).bind fun onTrue s₂ h₂ => ?_
  have finish (onFalse : Option (List Stmt)) {s' : ParseState}
      (hlaid : Lays true s (cond.spans :: Stmt.listSpans onTrue ++ Stmt.optionSpans onFalse) s') :
      Ends recorded (do
      let onFalse ← (Pure.pure onFalse : Parse (Option (List Stmt)))
      newStmt (fun node => .ifElse node cond onTrue onFalse)
        (s.current.span.merge (← previousSpan))) s' fun stmt s'' => Lays true s [stmt.spans] s'' := by
    refine .next rfl (.next rfl (.of_eq rfl ?_))
    rw [Stmt.spans]
    exact (hlaid.node (.inl rfl) (.inl rfl)).numbered
  refine (lays_accept h₂ (by decide) (by decide)).bind fun hasElse s₃ h₃ => ?_
  split
  · refine .next rfl ?_
    split
    · next hif =>
      refine (h.ifElse s₃ h₃.explained (by simpa using hif)).bind fun chained s₄ h₄ =>
        finish (some [chained]) ?_
      rw [Stmt.optionSpans, Stmt.listSpans, Stmt.listSpans]
      exact h₃.trans h₄
    · refine (h.body.ends h₃).bind fun body s₄ h₄ => finish (some body) ?_
      rw [Stmt.optionSpans]
      exact h₄
  · refine finish none ?_
    rw [Stmt.optionSpans, List.append_nil]
    exact h₃

theorem stmt_succ : Places true (Parse.stmt (bound + 1)) fun stmt => [stmt.spans] := by
  rw [Parse.stmt]
  intro s hs
  have hstart := Lays.refl hs
  refine .next rfl (.next rfl ?_)
  have finish {make : Node → Stmt} {s' : ParseState} {trees : List SpanTree}
      (hlaid : Lays true s trees s') (hmake : ∀ node, (make node).spans = .node node.span trees) :
      Ends recorded (do newStmt make (s.current.span.merge (← previousSpan))) s' fun stmt s'' =>
        Lays true s [stmt.spans] s'' := by
    refine .next rfl (.of_eq rfl ?_)
    rw [hmake]
    exact (hlaid.node (.inl rfl) (.inl rfl)).numbered
  have closed {make : Node → Stmt} {s' : ParseState} {trees : List SpanTree}
      (hlaid : Lays true s trees s') (hmake : ∀ node, (make node).spans = .node node.span trees) :
      Ends recorded (do
        let _ ← expect .semi
        newStmt make (s.current.span.merge (← previousSpan))) s' fun stmt s'' =>
        Lays true s [stmt.spans] s'' :=
    (lays_expect hlaid (by decide) (by decide)).bind fun _ s₂ h₂ => finish h₂ hmake
  have assignment : Ends recorded (do
      let make ← exprOrAssign (Parse.expr .lowest bound)
      newStmt make (s.current.span.merge (← previousSpan))) s fun stmt s' =>
        Lays true s [stmt.spans] s' := by
    refine (lays_exprOrAssign (h.expr .lowest) hs).bind fun make s₁ h₁ => ?_
    obtain ⟨trees, hlaid, hmake⟩ := h₁
    exact finish hlaid hmake
  have declared {kind : TokenKind} (hkind : s.kind = kind) (hne : kind ≠ .eof)
      (hplain : kind ≠ .kwExtern) : Ends recorded (do
      let binding ← binding (Parse.expr .lowest bound) bound
      newStmt (fun node => .bind node binding) (s.current.span.merge (← previousSpan))) s
      fun stmt s' => Lays true s [stmt.spans] s' :=
    (lays_binding (h.expr .lowest) bound (hstart.advance hkind hne hplain)).bind fun binding s₁ h₁ =>
      finish h₁ fun node => by rw [Stmt.spans]
  dsimp only
  split
  · next hkind => exact declared hkind (by decide) (by decide)
  · next hkind => exact declared hkind (by decide) (by decide)
  · next hkind => exact h.ifElse s hs hkind
  · next hkind =>
    have hread := hstart.advance hkind (by decide) (by decide)
    refine .next rfl (((h.expr .lowest).ends hread).bind fun cond s₁ h₁ => ?_)
    exact (h.body.ends h₁).bind fun body s₂ h₂ => finish h₂ fun node => by rw [Stmt.spans]; rfl
  · next hkind =>
    have hread := hstart.advance hkind (by decide) (by decide)
    refine .next rfl (.next rfl ?_)
    split
    · exact .next rfl (closed hread fun node => by rw [Stmt.spans, Expr.optionSpans])
    · exact ((h.expr .lowest).ends hread).bind fun value s₁ h₁ => .next rfl
        (closed h₁ fun node => by rw [Stmt.spans, Expr.optionSpans]; rfl)
  · next hkind =>
    exact .next rfl (closed (hstart.advance hkind (by decide) (by decide)) fun node => by
      rw [Stmt.spans])
  · next hkind =>
    exact .next rfl (closed (hstart.advance hkind (by decide) (by decide)) fun node => by
      rw [Stmt.spans])
  · exact (h.body s hs).bind fun body s₁ h₁ => finish h₁ fun node => by rw [Stmt.spans]
  · refine .next rfl ?_
    split
    · exact (places_funcDecl h.body bound .free .everyone s hs).bind fun decl s₁ h₁ =>
        finish h₁ fun node => by rw [Stmt.spans]
    · exact assignment
  · exact assignment

end PlacesAt

theorem placesAt (bound : Nat) : PlacesAt bound := by
  induction bound with
  | zero =>
      exact ⟨fun _ _ _ => trivial, fun _ _ _ _ _ => trivial, fun _ _ => trivial,
        fun _ _ => trivial, fun _ _ => trivial, fun _ _ _ => trivial⟩
  | succ bound ih =>
      exact ⟨ih.expr_succ, fun level left _ _ => ih.exprRest_succ level left, ih.operand_succ,
        ih.primary_succ, ih.stmt_succ, fun _ => ih.ifElse_succ⟩

/-! ## Members and declarations -/

theorem places_body (bound : Nat) : Places true (body bound) Stmt.listSpans := (placesAt bound).body

theorem places_fieldDecl (bound : Nat) (access : Access) :
    Places true (fieldDecl bound access) fun decl => [(Member.field decl).spans] := by
  intro s hs
  refine .next rfl ((lays_ident (.refl hs)).bind fun name s₁ h₁ => ?_)
  refine (lays_expect h₁.1 (by decide) (by decide)).bind fun _ s₂ h₂ => ?_
  refine ((places_typeExpr bound).ends h₂).bind fun type s₃ h₃ => ?_
  exact (lays_expect h₃ (by decide) (by decide)).bind fun _ s₄ h₄ => .next rfl
    (.pure (h₄.node (.inl rfl) (.inl rfl)))

theorem places_member (bound : Nat) : Places true (member bound) fun member => [member.spans] := by
  intro s hs
  refine (lays_accept (.refl hs) (by decide) (by decide)).bind fun isPrivate s₁ h₁ => ?_
  have func {moved : Bool} (funcKind : FuncKind) (access : Access) {s' : ParseState}
      (h : Lays moved s [] s') : Ends recorded (do
      let decl ← funcDecl (body bound) bound funcKind access
      return (.func decl : Member)) s' fun member s'' => Lays true s [member.spans] s'' := by
    refine ((places_funcDecl (places_body bound) bound funcKind access).ends h).bind fun decl s₂ h₂ =>
      .pure ?_
    rw [Bool.or_true] at h₂
    exact h₂
  refine .next rfl ?_
  split
  · next hkind => exact .next rfl (func .static _ (h₁.advance hkind (by decide) (by decide)))
  · exact func _ _ h₁
  · exact ((places_fieldDecl bound _).ends h₁).bind fun decl s₂ h₂ => .pure h₂
  · next hkind =>
    refine .next rfl ?_
    split
    · exact .next rfl (func (.method .mutable) _ (h₁.advance hkind (by decide) (by decide)))
    · exact failingHere h₁.explained _
  · exact failingHere h₁.explained _

theorem places_members (bound n : Nat) :
    Places false (members bound n) fun members => members.map Member.spans := by
  induction n with
  | zero => exact fun _ _ => trivial
  | succ n ih =>
      intro s hs
      refine .next rfl ?_
      split
      · exact .pure (.refl hs)
      · refine (places_member bound s hs).bind fun first s₁ h₁ => ?_
        exact (ih.ends h₁).bind fun rest s₂ h₂ => .pure h₂.weaken

theorem places_enumCase : Places true enumCase fun _ => [] := by
  intro s hs
  refine (lays_ident (.refl hs)).bind fun name s₁ h₁ => ?_
  refine (lays_accept h₁.1 (by decide) (by decide)).bind fun valued s₂ h₂ => ?_
  split
  · refine (lays_accept h₂ (by decide) (by decide)).bind fun negative s₃ h₃ => ?_
    refine (lays_expect h₃ (by decide) (by decide)).bind fun token s₄ h₄ => ?_
    cases Literal.enumValue token.text negative with
    | error error =>
        exact .bind (P := fun _ _ => False) (failing h₄.explained _ _) fun _ _ h => h.elim
    | ok value => exact .next rfl (.pure h₄)
  · exact .pure h₂

theorem lays_structDecl (bound : Nat) (hs : s.Explained) (hkind : s.kind = .kwStruct) :
    (structDecl bound).Ends recorded s fun decl s' => Lays true s [decl.spans] s' := by
  have hread := (Lays.refl hs).advance hkind (by decide) (by decide)
  refine .next rfl ((lays_ident hread).bind fun name s₁ h₁ => ?_)
  refine (lays_expect h₁.1 (by decide) (by decide)).bind fun _ s₂ h₂ => ?_
  refine ((places_members bound bound).ends h₂).bind fun members s₃ h₃ => ?_
  exact (lays_expect h₃ (by decide) (by decide)).bind fun _ s₄ h₄ =>
    .next rfl (.of_eq rfl (h₄.node (.inl rfl) (.inl rfl)).numbered)

theorem lays_enumDecl (bound : Nat) (hs : s.Explained) (hkind : s.kind = .kwEnum) :
    (enumDecl bound).Ends recorded s fun decl s' => Lays true s [decl.spans] s' := by
  have hread := (Lays.refl hs).advance hkind (by decide) (by decide)
  refine .next rfl ((lays_ident hread).bind fun name s₁ h₁ => ?_)
  refine (lays_expect h₁.1 (by decide) (by decide)).bind fun _ s₂ h₂ => ?_
  refine ((places_commaList places_enumCase bound).ends h₂).bind fun cases s₃ h₃ => ?_
  refine (lays_expect h₃ (by decide) (by decide)).bind fun _ s₄ h₄ => .next rfl (.of_eq rfl ?_)
  have hnone : cases.flatMap (fun _ => ([] : List SpanTree)) = [] := by simp
  rw [hnone] at h₄
  exact (h₄.node (.inl rfl) (.inl rfl)).numbered

theorem lays_aliasDecl (bound : Nat) (hs : s.Explained) (hkind : s.kind = .kwType) :
    (aliasDecl bound).Ends recorded s fun decl s' => Lays true s [decl.spans] s' := by
  have hread := (Lays.refl hs).advance hkind (by decide) (by decide)
  refine .next rfl ((lays_ident hread).bind fun name s₁ h₁ => ?_)
  refine (lays_accept h₁.1 (by decide) (by decide)).bind fun weak s₂ h₂ => ?_
  refine ((places_typeExpr bound).ends h₂).bind fun target s₃ h₃ => ?_
  exact (lays_expect h₃ (by decide) (by decide)).bind fun _ s₄ h₄ =>
    .next rfl (.of_eq rfl (h₄.node (.inl rfl) (.inl rfl)).numbered)

/-- Nothing but `extern` stands in front of the function of a host, which starts with it. -/
theorem lays_hosted (hs : s.Explained) (hhost : s.kind = .kwExtern) (hfunc : s.advance.kind = .kwFunc) :
    Lays true s [] s.advance.advance where
  kept := fun herrors => kept_advance (kept_advance herrors)
  explained := explained_advance (explained_advance hs)
  laid := by
    intro _ _ horder
    have hself := onward_self horder.ends
    have hend : s.atEnd = false := by simp [atEnd, hhost]
    have hnext : s.advance.atEnd = false := by simp [atEnd, hfunc]
    have hhost : s.current.kind = .kwExtern := hhost
    have hfunc : s.advance.current.kind = .kwFunc := hfunc
    refine ⟨⟨[s.current, s.advance.current], ?_, ?_, by simp, by simp, .nil⟩, ?_⟩
    · rw [rest_advance hend (hself.ahead_ne_nil hend),
        rest_advance hnext (hself.advance.ahead_ne_nil hnext)]
      rfl
    · simp [hhost, hfunc]
    · simp [hfunc]

theorem places_declaration (bound : Nat) : Places true (declaration bound) fun decl => [decl.spans] := by
  intro s hs
  have hstart := Lays.refl hs
  have declared {kind : TokenKind} (hkind : s.kind = kind) (hne : kind ≠ .eof)
      (hplain : kind ≠ .kwExtern) : Ends recorded (do
      let first ← currentSpan
      let global ← binding (expr .lowest bound) bound
      newDecl id (fun node => Decl.global node global) (first.merge (← previousSpan))) s
      fun decl s' => Lays true s [decl.spans] s' :=
    .next rfl ((lays_binding ((placesAt bound).expr .lowest) bound
      (hstart.advance hkind hne hplain)).bind fun global s₁ h₁ =>
        .next rfl (.of_eq rfl (h₁.node (.inl rfl) (.inl rfl)).numbered))
  refine .next rfl ?_
  split
  · exact (places_funcDecl (places_body bound) bound .free .everyone s hs).bind fun decl s₁ h₁ =>
      .pure h₁
  · next hkind =>
    refine .next rfl (.next rfl ?_)
    split
    · have hhost : s.current.kind = .kwExtern := hkind
      have hfunc : (funcDecl (body bound) bound .free .everyone).Ends recorded s.advance
          fun decl s' => Lays true s [decl.spans] s' :=
        lays_funcDecl (places_body bound) bound .free .everyone (explained_advance hs)
          (lays_hosted hs hkind) fun _ => by simp [hhost]
      exact hfunc.bind fun decl s₁ h₁ => .pure h₁
    · exact failingHere (explained_advance hs) _
  · next hkind => exact lays_structDecl bound hs hkind
  · next hkind => exact lays_enumDecl bound hs hkind
  · next hkind => exact lays_aliasDecl bound hs hkind
  · next hkind => exact declared hkind (by decide) (by decide)
  · next hkind => exact declared hkind (by decide) (by decide)
  · exact failingHere hs _
  · exact failingHere hs _

/-! ## Modules -/

theorem places_declarations (bound n : Nat) :
    Places false (declarations bound n) fun decls => decls.map Decl.spans := by
  induction n with
  | zero => exact fun _ _ => trivial
  | succ n ih =>
      intro s hs
      refine .next rfl ?_
      split
      · exact .pure (.refl hs)
      · -- Where a declaration is left out nothing is claimed of the nodes.
        have skipped {s' : ParseState} (herrors : s'.errors ≠ []) : Ends recorded (do
            update ParseState.synchronize
            declarations bound n) s' fun decls s'' =>
            Lays false s (decls.map Decl.spans) s'' :=
          .next rfl (ih.ends (Lays.of_errors (kept_synchronize herrors) : Lays false s [] _))
        refine (ends_attempt (places_declaration bound s hs)).bind fun first s₁ h₁ => .next rfl ?_
        split
        · next hrecovering =>
          cases first with
          | none => exact skipped h₁
          | some decl => exact skipped (h₁.explained hrecovering)
        · split
          · exact (ih.ends h₁).bind fun rest s₂ h₂ => .pure h₂.weaken
          · exact skipped h₁

theorem places_header : Places false header fun _ => [] := by
  intro s hs
  refine (lays_accept (.refl hs) (by decide) (by decide)).bind fun found s₁ h₁ => ?_
  split
  · refine (ends_attempt (lays_ident h₁)).bind fun name s₂ h₂ => ?_
    have hname : Lays false s [] s₂ := by
      cases name with
      | none => exact .of_errors h₂
      | some name => exact h₂.1.weaken
    refine (ends_attempt (lays_expect hname (by decide) (by decide))).bind fun closed s₃ h₃ =>
      .next rfl (.pure ?_)
    cases closed with
    | none => exact .of_errors h₃
    | some _ => exact h₃.weaken
  · exact .pure h₁

theorem places_imports (n : Nat) : Places false (imports n) fun _ => [] := by
  induction n with
  | zero => exact fun _ _ => trivial
  | succ n ih =>
      intro s hs
      have importDecl : importDecl.Ends recorded s fun _ s' => Lays true s [] s' :=
        (lays_expect (.refl hs) (by decide) (by decide)).bind fun _ s₁ h₁ =>
          (lays_ident h₁).bind fun name s₂ h₂ =>
            (lays_expect h₂.1 (by decide) (by decide)).bind fun _ s₃ h₃ => .pure h₃
      refine .next rfl ?_
      split
      · refine (ends_attempt importDecl).bind fun first s₁ h₁ => ?_
        have hfirst : Lays false s [] s₁ := by
          cases first with
          | none => exact .of_errors h₁
          | some name => exact h₁.weaken
        exact (ih.ends hfirst).bind fun rest s₂ h₂ => .pure h₂
      · exact .pure (.refl hs)

theorem places_moduleDecl (file : FileId) (defaultName : String) (bound : Nat) :
    Places false (moduleDecl file defaultName bound) fun m => m.decls.map Decl.spans := by
  intro s hs
  refine (places_header s hs).bind fun name s₁ h₁ => ?_
  refine ((places_imports bound).ends h₁).bind fun imports s₂ h₂ => ?_
  exact ((places_declarations bound bound).ends h₂).bind fun decls s₃ h₃ => .pure h₃

end Parse

/-! ## Places in the text -/

/-- The span is that of some text: it lies in the source, runs from the start of a token to the end
of one, and says the line and the column of its start. -/
structure Span.Real (source : String) (file : FileId) (span : Span) : Prop where
  inFile : span.file = file
  nonempty : span.start < span.stop
  within : span.stop ≤ source.utf8ByteSize
  starts : ∃ t ∈ lex source file, t.kind ≠ .eof ∧ span.start = t.span.start
  ends : ∃ t ∈ lex source file, t.kind ≠ .eof ∧ span.stop = t.span.stop
  position : ∃ before after, source.toList = before ++ after ∧ utf8Length before = span.start ∧
    span.line = Lines.wrap (Lines.lineAfter before) ∧
    span.col = Lines.wrap (Lines.columnAfter before)

/-- The span is that of a token or of the end of the input, and no dummy. The number of a line is
one of 32 bits, so in a text of as many lines it may be that of a dummy. -/
structure Span.OfToken (source : String) (file : FileId) (span : Span) : Prop where
  token : ∃ t ∈ lex source file, span = t.span
  real : ∀ file', span ≠ { Span.dummy with file := file' }
  line : Lines.lineAfter source.toList < UInt32.size → span.isDummy = false

theorem Cuts.places {file : FileId} {before text : List Char} {tokens : List Token}
    (h : Cuts file before text tokens) : ∀ t ∈ tokens, ∃ front lexeme after,
      before ++ text = front ++ (lexeme ++ after) ∧ t.span = placeOf file front lexeme := by
  induction h with
  | @last before gap hgap =>
      exact List.forall_mem_singleton.mpr ⟨before ++ gap, [], [], by simp, rfl⟩
  | @token before gap lexeme after t tokens hgap ht hrest ih =>
      refine List.forall_mem_cons.mpr ⟨⟨before ++ gap, lexeme, after, by simp, ht.span⟩, ?_⟩
      have hall : before ++ gap ++ lexeme ++ after = before ++ (gap ++ lexeme ++ after) := by simp
      exact hall ▸ ih

theorem inOrder_lex (source : String) (file : FileId) : InOrder (lex source file) := by
  have hcuts := cuts_lex source file
  obtain ⟨written, last, htokens, hlast, -, -, hwritten⟩ := hcuts.ends
  refine ⟨⟨written, last, htokens, hlast, fun t ht => (hwritten t ht).1⟩, hcuts.ordered, ?_⟩
  intro t ht hne
  rw [htokens, List.mem_append, List.mem_singleton] at ht
  rcases ht with ht | rfl
  · exact (hwritten t ht).2
  · exact absurd hlast hne

theorem Frames.real {source : String} {file : FileId} {tokens : List Token} {span : Span}
    (h : Frames tokens span) (hwritten : ∀ t ∈ tokens, t ∈ lex source file ∧ t.kind ≠ .eof) :
    span.Real source file := by
  obtain ⟨hlt, first, hfirst, last, hlast, rfl⟩ := h
  have hcuts := (cuts_lex source file).places
  obtain ⟨before, lexeme, after, hsource, hplace⟩ := hcuts first (hwritten first hfirst).1
  obtain ⟨before', lexeme', after', hsource', hplace'⟩ := hcuts last (hwritten last hlast).1
  refine ⟨?_, hlt, ?_, ⟨first, (hwritten first hfirst).1, (hwritten first hfirst).2, rfl⟩,
    ⟨last, (hwritten last hlast).1, (hwritten last hlast).2, rfl⟩,
    ⟨before, lexeme ++ after, hsource, ?_, ?_, ?_⟩⟩
  · exact congrArg Span.file hplace
  · change last.span.stop ≤ source.utf8ByteSize
    rw [hplace', ← utf8Length_toList]
    change utf8Length (before' ++ lexeme') ≤ _
    rw [show source.toList = before' ++ lexeme' ++ after' by simpa using hsource']
    exact Nat.le_trans (Nat.le_add_right _ _) utf8Length_append.symm.le
  · exact (congrArg Span.start hplace).symm
  · exact congrArg Span.line hplace
  · exact congrArg Span.col hplace

theorem Span.OfToken.of_mem {source : String} {file : FileId} {t : Token} (h : t ∈ lex source file) :
    t.span.OfToken source file := by
  obtain ⟨before, lexeme, after, htext, hplace⟩ := (cuts_lex source file).places t h
  have hsource : source.toList = before ++ (lexeme ++ after) := htext
  have hline : t.span.line = Lines.wrap (Lines.lineAfter before) := congrArg Span.line hplace
  refine ⟨⟨t, h, rfl⟩, fun file' hdummy => ?_, fun hfew => ?_⟩
  · -- Only the start of the text is at offset zero, and it is in line one.
    have hstart : utf8Length before = 0 :=
      (congrArg Span.start hplace).symm.trans (congrArg Span.start hdummy)
    have hnil : before = [] := by
      by_contra hne
      exact absurd hstart (Nat.ne_of_gt (utf8Length_pos hne))
    have hzero : t.span.line = 0 := congrArg Span.line hdummy
    rw [hline, hnil] at hzero
    exact absurd hzero (by decide)
  · have hle : Lines.lineAfter before ≤ Lines.lineAfter source.toList := by
      rw [hsource, Lines.lineAfter, Lines.lineAfter, List.count_append]
      omega
    have hpos : 0 < Lines.lineAfter before := Nat.succ_pos _
    rw [Span.isDummy, hline, Lines.wrap, Nat.mod_eq_of_lt (by omega)]
    simpa using Nat.ne_of_gt hpos

theorem mem_errors_start {tokens : List Token} {nodes : NodeCount} {e : SyntaxError × Span}
    (htokens : tokens ≠ []) (h : e ∈ (ParseState.start tokens nodes).errors) :
    ∃ t ∈ tokens, e.2 = t.span := by
  cases tokens with
  | nil => exact absurd rfl htokens
  | cons first rest =>
      unfold ParseState.start at h
      rcases mem_errors_checkCurrent h with hnone | hfirst
      · exact absurd hnone List.not_mem_nil
      · exact ⟨first, List.mem_cons_self, hfirst⟩

/-- Whatever the parser, its errors are at tokens. -/
theorem diagnostics_at_tokens {parser : Nat → Parse α} (hwalks : ∀ bound, Parse.Walks (parser bound))
    {source : String} {file : FileId} {nodes : NodeCount} {diagnostics : List Diagnostic}
    (h : (runParse parser source file nodes).1 = .error (.errors diagnostics)) :
    ∀ d ∈ diagnostics, d.span.OfToken source file := by
  have hne : lex source file ≠ [] := by
    obtain ⟨written, last, htokens, -⟩ := lex_eq_append source file
    simp [htokens]
  have hrest := rest_start hne nodes
  let s := ParseState.start (lex source file) nodes
  have hself : Onward (lex source file) s s :=
    .refl (hrest ▸ List.suffix_rfl) (lex_eq_append source file)
  have hends := hwalks s.stepBound _ s s hself
  have reported (s' : ParseState) (hs' : Onward (lex source file) s s') :
      ∀ d ∈ s'.errors.map (fun e => e.1.diagnostic e.2), d.span.OfToken source file := by
    intro d hd
    obtain ⟨e, he, rfl⟩ := List.mem_map.mp hd
    have htoken : ∃ t ∈ lex source file, e.2 = t.span :=
      (hs'.errors e he).elim (mem_errors_start hne) id
    obtain ⟨t, ht, hspan⟩ := htoken
    exact hspan ▸ .of_mem ht
  rw [runParse_eq] at h
  dsimp only at h
  split at h
  · next value s' hrun =>
    dsimp only at h
    split at h
    · cases h
    · cases h
      exact reported s' (hends.of_ok hrun)
  · next s' hrun =>
    cases h
    exact reported s' (hends.of_failed hrun)
  · cases h

/-- In an accepted module all nodes stand in the text as they do in the tree, and what is wrong with
a text that is not accepted is said at its tokens. -/
theorem parsing_places_nodes :
    (∀ source file defaultName nodes m, (parseModule source file defaultName nodes).1 = .ok m →
      (∀ decl ∈ m.decls, decl.spans.Nested (Span.Real source file)) ∧
      (m.decls.map Decl.spans).Pairwise SpanTree.Precedes) ∧
    (∀ source file defaultName nodes diagnostics,
      (parseModule source file defaultName nodes).1 = .error (.errors diagnostics) →
      ∀ d ∈ diagnostics, d.span.OfToken source file) ∧
    ∀ source file nodes diagnostics, (parseType source file nodes).1 = .error (.errors diagnostics) →
      ∀ d ∈ diagnostics, d.span.OfToken source file := by
  refine ⟨fun source file defaultName nodes m h => ?_,
    fun source file defaultName nodes diagnostics h =>
      diagnostics_at_tokens (fun bound => Parse.walks_moduleDecl file defaultName bound) h,
    fun source file nodes diagnostics h => diagnostics_at_tokens Parse.walks_wholeType h⟩
  have hne : lex source file ≠ [] := by
    obtain ⟨written, last, htokens, -⟩ := lex_eq_append source file
    simp [htokens]
  rw [parseModule, runParse_eq] at h
  dsimp only at h
  split at h
  · next value s hrun =>
    dsimp only at h
    split at h
    · next herrors =>
      cases h
      have hlays := (Parse.places_moduleDecl file defaultName _ _
        (explained_start (lex source file) nodes)).of_ok hrun
      have hrest := rest_start hne nodes
      obtain ⟨⟨read, hread⟩, -⟩ := hlays.laid (by simpa using herrors) (by simp [previous_start])
        (hrest.symm ▸ inOrder_lex source file)
      have hwritten (t : Token) (ht : t ∈ read) : t ∈ lex source file ∧ t.kind ≠ .eof := by
        refine ⟨?_, hread.written t ht⟩
        rw [← hrest, hread.rest]
        exact List.mem_append_left _ ht
      refine ⟨fun decl hdecl => ?_, hread.holds.ordered⟩
      exact (hread.holds.nested _ (List.mem_map_of_mem hdecl)).mono fun _ hspan => hspan.real hwritten
    · cases h
  · cases h
  · cases h

theorem parsing_places_nodes_sum :
    (∃ m, (parseModule "func f() { (1) + 2; }" 0 "main" {}).1 = .ok m ∧
      (∀ decl ∈ m.decls, decl.spans.Nested (Span.Real "func f() { (1) + 2; }" 0)) ∧
      (m.decls.map Decl.spans).Pairwise SpanTree.Precedes) ∧
    ∃ diagnostics, (parseModule "let" 0 "main" {}).1 = .error (.errors diagnostics) ∧
      ∀ d ∈ diagnostics, d.span.OfToken "let" 0 := by
  obtain ⟨haccepted, hrejected, -⟩ := parsing_places_nodes
  constructor
  · have hok : (parseModule "func f() { (1) + 2; }" 0 "main" {}).1.isOk = true := by cbv
    cases hrun : (parseModule "func f() { (1) + 2; }" 0 "main" {}).1 with
    | error _ => simp [hrun, Except.isOk, Except.toBool] at hok
    | ok m => exact ⟨m, rfl, haccepted _ _ _ _ m hrun⟩
  · have htokens : lex "let" 0 =
        [⟨.kwLet, "let", ⟨0, 0, 3, 1, 1⟩⟩, ⟨.eof, "", ⟨0, 3, 3, 1, 4⟩⟩] := by cbv
    have hrun : ∃ d, (parseModule "let" 0 "main" {}).1 = .error (.errors [d]) := by
      rw [parseModule, runParse_eq]
      rw [htokens]
      exact ⟨_, rfl⟩
    obtain ⟨d, hrun⟩ := hrun
    exact ⟨[d], hrun, hrejected _ _ _ _ _ hrun⟩

end Stela
