import Stela.Proofs.Syntax.Arena
import Stela.Proofs.Syntax.Numbering

/-!
# Steps that allocate nodes

Each parsing step makes the arena grow by a forest, with the trees at hand that it returns. Where a
step fails, the trees that were read for it stay in the arena and nothing refers to them; an error
was recorded then.
-/

namespace Stela

namespace ParseState

/-! ## Moves -/

@[simp] theorem arena_advance (s : ParseState) : s.advance.arena = s.arena := by
  unfold advance
  split
  · rfl
  · split <;> simp

end ParseState

open ParseState

namespace Grows

variable {s₀ s : ParseState} {trees : List ArenaNode}

theorem advance (h : Grows s₀ trees s) : Grows s₀ trees s.advance :=
  h.move (arena_advance s) (Parse.nodes_advance s) kept_advance (explained_advance h.explained)

theorem report (h : Grows s₀ trees s) (error : SyntaxError) (span : Span) :
    Grows s₀ trees (s.report error span) :=
  h.move (arena_report _ _) (Parse.nodes_report s _ _) (fun hne => kept_report hne _ _) fun _ =>
    errors_report h.explained _ _

theorem skipBlock (h : Grows s₀ trees s) (bound depth : Nat) :
    Grows s₀ trees (ParseState.skipBlock bound depth s) := by
  induction bound generalizing depth s with
  | zero => exact h
  | succ bound ih =>
      rw [ParseState.skipBlock]
      split
      · exact h
      · exact ih h.advance _

theorem skipToDeclaration (h : Grows s₀ trees s) (bound : Nat) :
    Grows s₀ trees (ParseState.skipToDeclaration bound s) := by
  induction bound generalizing s with
  | zero => exact h
  | succ bound ih =>
      rw [ParseState.skipToDeclaration]
      split
      · exact h
      · split
        · exact ih (h.advance.skipBlock _ _)
        · exact ih h.advance

theorem synchronize (h : Grows s₀ trees s) : Grows s₀ trees s.synchronize := by
  have hmoved : Grows s₀ trees { s with recovering := false } := h.move rfl rfl id nofun
  exact hmoved.skipToDeclaration _

end Grows

namespace Parse

variable {α β : Type} {p : Parse α} {s₀ s : ParseState} {before : List ArenaNode}
  {trees : α → List ArenaNode} {kind : TokenKind}

/-! ## Steps and the arena -/

/-- What a step that fails has read is not used, and an error was recorded. -/
def wasted (s : ParseState) : Leeway := ⟨fun s' => Grows s [] s' ∧ s'.errors ≠ [], True⟩

/-- The arena grows by what the step reads, and the step returns the given trees. -/
def Allocates (p : Parse α) (trees : α → List ArenaNode) : Prop :=
  ∀ s, s.Explained → p.Ends (wasted s) s fun a s' => Grows s (trees a) s'

theorem Allocates.after (hp : Allocates p trees) (h : Grows s₀ before s) :
    p.Ends (wasted s₀) s fun a s' => Grows s₀ (before ++ trees a) s' :=
  (hp s h.explained).weaken (fun _ _ h' => h.trans h') (fun _ h' => ⟨(h.trans h'.1).drop h'.2, h'.2⟩)
    id

/-- A step behind a run that left no tree. -/
theorem Allocates.first (hp : Allocates p trees) (h : Grows s₀ [] s) :
    p.Ends (wasted s₀) s fun a s' => Grows s₀ (trees a) s' := hp.after h

theorem allocates_spent : Allocates (spent : Parse α) trees := fun _ _ => trivial

theorem grown_failAt {post : α → ParseState → Prop} (h : Grows s₀ before s) (error : SyntaxError)
    (span : Span) : (failAt error span : Parse α).Ends (wasted s₀) s post :=
  have herrors := errors_report h.explained error span
  ⟨(h.report error span).drop herrors, herrors⟩

theorem grown_failHere {post : α → ParseState → Prop} (h : Grows s₀ before s)
    (error : TokenKind → SyntaxError) : (failHere error : Parse α).Ends (wasted s₀) s post :=
  grown_failAt h _ _

theorem grown_expect (h : Grows s₀ before s) :
    (expect kind).Ends (wasted s₀) s fun _ s' => Grows s₀ before s' := by
  refine .next rfl ?_
  split
  · exact .of_eq rfl h.advance
  · exact grown_failHere h _

theorem grown_accept (h : Grows s₀ before s) :
    (accept kind).Ends (wasted s₀) s fun _ s' => Grows s₀ before s' := by
  refine .next rfl ?_
  split
  · exact .next rfl (.pure h.advance)
  · exact .pure h

theorem grown_ident (h : Grows s₀ before s) :
    ident.Ends (wasted s₀) s fun _ s' => Grows s₀ before s' := by
  refine .next rfl ?_
  split
  · exact .next rfl (.pure h.advance)
  · exact grown_failHere h _

theorem grown_literal (h : Grows s₀ before s) (value : Except SyntaxError α) (span : Span) :
    (literal value span).Ends (wasted s₀) s fun _ s' => Grows s₀ before s' := by
  cases value with
  | ok a => exact .pure h
  | error error => exact grown_failAt h _ _

/-! ## Steps that complete a node -/

theorem grown_newExpr {make : Node → Expr} (h : Grows s₀ before s) (span : Span)
    (hrefs : ∀ node, before = (ArenaNode.expr (make node)).refs) (hnode : ∀ node, (make node).node = node) :
    (newExpr make span).Ends (wasted s₀) s fun e s' => Grows s₀ [.expr e] s' := by
  refine .of_eq rfl (Grows.node (.expr (make ⟨s.nodes.exprs, span⟩)) ?_ ?_)
  · exact hrefs _ ▸ h
  · exact congrArg Node.id (hnode _)

theorem grown_newStmt {make : Node → Stmt} (h : Grows s₀ before s) (span : Span)
    (hrefs : ∀ node, before = (ArenaNode.stmt (make node)).refs) (hnode : ∀ node, (make node).node = node) :
    (newStmt make span).Ends (wasted s₀) s fun stmt s' => Grows s₀ [.stmt stmt] s' := by
  refine .of_eq rfl (Grows.node (.stmt (make ⟨s.nodes.stmts, span⟩)) ?_ ?_)
  · exact hrefs _ ▸ h
  · exact congrArg Node.id (hnode _)

theorem grown_newDecl {entry : α → Decl} {make : Node → α} (h : Grows s₀ before s) (span : Span)
    (hrefs : ∀ node, before = (ArenaNode.decl (entry (make node))).refs)
    (hnode : ∀ node, (entry (make node)).node = node) :
    (newDecl entry make span).Ends (wasted s₀) s fun a s' => Grows s₀ [.decl (entry a)] s' := by
  refine .of_eq rfl (Grows.node (.decl (entry (make ⟨s.nodes.decls, span⟩))) ?_ ?_)
  · exact hrefs _ ▸ h
  · exact congrArg Node.id (hnode _)

theorem grown_newType {make : Node → TypeExpr} (h : Grows s₀ before s) (span : Span)
    (hrefs : ∀ node, before = (ArenaNode.type (make node)).refs) (hnode : ∀ node, (make node).node = node) :
    (newType make span).Ends (wasted s₀) s fun type s' => Grows s₀ [.type type] s' := by
  refine .of_eq rfl (Grows.node (.type (make ⟨s.nodes.types, span⟩)) ?_ ?_)
  · exact hrefs _ ▸ h
  · exact congrArg Node.id (hnode _)

/-! ## Lists and options -/

theorem allocates_commaList {close : TokenKind} (hp : Allocates p trees) (bound : Nat) :
    Allocates (commaList close p bound) fun items => items.flatMap trees := by
  induction bound with
  | zero => exact allocates_spent
  | succ bound ih =>
      intro s hs
      refine .next rfl ?_
      split
      · exact .pure (.refl hs)
      · refine (hp s hs).bind fun first s₁ h₁ => (grown_accept h₁).bind fun more s₂ h₂ => ?_
        split
        · exact (ih.after h₂).bind fun rest s₃ h₃ => .pure h₃
        · exact .pure (by simpa using h₂)

theorem allocates_optionalAfter (hp : Allocates p trees) :
    Allocates (optionalAfter kind p) fun value => value.toList.flatMap trees := by
  intro s hs
  refine (grown_accept (.refl hs)).bind fun marked s₁ h₁ => ?_
  split
  · exact (hp.first h₁).bind fun value s₂ h₂ => .pure (by simpa using h₂)
  · exact .pure h₁

/-- What was read of a step that is given up stays in the arena, and an error was recorded. -/
theorem grown_attempt (hp : Allocates p trees) (h : Grows s₀ before s) :
    (attempt p).Ends (wasted s₀) s fun value s' =>
      Grows s₀ (before ++ value.toList.flatMap trees) s' ∧ (value = none → s'.errors ≠ []) := by
  refine .attempt ((hp s h.explained).weaken (fun a s' h' => ⟨?_, nofun⟩) (fun s' h' => ⟨?_, fun _ => h'.2⟩)
    id)
  · simpa using h.trans h'
  · exact h.trans h'.1

theorem grown_attempt_quiet (hp : Allocates p fun _ => []) (h : Grows s₀ before s) :
    (attempt p).Ends (wasted s₀) s fun _ s' => Grows s₀ before s' := by
  refine (grown_attempt hp h).mono fun value s' h' => ?_
  have hnone : value.toList.flatMap (fun _ => []) = ([] : List ArenaNode) :=
    List.flatMap_eq_nil_iff.mpr fun _ _ => rfl
  rw [hnone, List.append_nil] at h'
  exact h'.1

/-! ## Types -/

/-- The trees of a list of types, expressions or statements, one for each. -/
theorem flatMap_tree (items : List α) (tree : α → ArenaNode) :
    items.flatMap (fun item => [tree item]) = items.map tree :=
  (List.map_eq_flatMap ..).symm

theorem allocates_typeExpr (bound : Nat) : Allocates (typeExpr bound) fun type => [.type type] := by
  induction bound with
  | zero => exact allocates_spent
  | succ bound ih =>
      intro s hs
      refine .next rfl (.next rfl ?_)
      have finish {make : Node → TypeExpr} {s₁ : ParseState} {parts : List ArenaNode}
          (h₁ : Grows s parts s₁) (hrefs : ∀ node, parts = (ArenaNode.type (make node)).refs)
          (hnode : ∀ node, (make node).node = node) : (do
          let make ← (Pure.pure make : Parse (Node → TypeExpr))
          newType make (s.current.span.merge (← previousSpan))).Ends (wasted s) s₁
            fun type s' => Grows s [.type type] s' :=
        .next rfl (.next rfl (grown_newType h₁ _ hrefs hnode))
      dsimp only
      split
      · refine (grown_ident (.refl hs)).bind fun name s₁ h₁ => (grown_accept h₁).bind fun qualified s₂ h₂ => ?_
        split
        · exact (grown_ident h₂).bind fun inner s₃ h₃ => finish h₃ (fun _ => rfl) fun _ => rfl
        · exact finish h₂ (fun _ => rfl) fun _ => rfl
      · refine .next rfl ((ih.first (Grows.refl hs).advance).bind fun element s₁ h₁ => ?_)
        exact (grown_expect h₁).bind fun _ s₂ h₂ => finish h₂ (fun _ => rfl) fun _ => rfl
      · refine .next rfl ((grown_expect (Grows.refl hs).advance).bind fun _ s₁ h₁ => ?_)
        have hparam : Allocates (do
            let byRef ← accept .kwRef
            let type ← typeExpr bound
            return (⟨if byRef then .reference else .value, type⟩ : TypeParam))
            fun param => [.type param.type] :=
          fun s hs => (grown_accept (.refl hs)).bind fun byRef s₁ h₁ =>
            (ih.first h₁).bind fun type s₂ h₂ => .pure h₂
        refine ((allocates_commaList hparam bound).first h₁).bind fun params s₂ h₂ => ?_
        refine (grown_expect h₂).bind fun _ s₃ h₃ => ?_
        refine ((allocates_optionalAfter ih).after h₃).bind fun ret s₄ h₄ => ?_
        exact finish h₄ (fun _ => by simp only [ArenaNode.refs, flatMap_tree]) fun _ => rfl
      · exact .bind (P := fun _ _ => False) (grown_failHere (.refl hs) _) fun _ _ h => h.elim

theorem allocates_param (bound : Nat) : Allocates (param bound) fun param => [.type param.type] := by
  intro s hs
  refine .next rfl ((grown_accept (.refl hs)).bind fun byRef s₁ h₁ => ?_)
  have finish (mode : Mutability × RefKind) {s₂ : ParseState} (h₂ : Grows s [] s₂) : (do
      let mode ← (Pure.pure mode : Parse (Mutability × RefKind))
      let name ← ident
      let _ ← expect .colon
      let type ← typeExpr bound
      return (⟨name, mode.1, mode.2, type, s.current.span.merge (← previousSpan)⟩ : Param)).Ends
        (wasted s) s₂ fun param s' => Grows s [.type param.type] s' := by
    refine .next rfl ((grown_ident h₂).bind fun name s₃ h₃ => (grown_expect h₃).bind fun _ s₄ h₄ => ?_)
    exact ((allocates_typeExpr bound).first h₄).bind fun type s₅ h₅ => .next rfl (.pure h₅)
  dsimp only
  split
  · exact finish _ h₁
  · refine (grown_accept h₁).bind fun isVar s₂ h₂ => ?_
    split <;> exact finish _ h₂

theorem allocates_signature (bound : Nat) : Allocates (signature bound) Signature.refs := by
  intro s hs
  refine (grown_expect (.refl hs)).bind fun _ s₁ h₁ => ?_
  refine ((allocates_commaList (allocates_param bound) bound).first h₁).bind fun params s₂ h₂ => ?_
  refine (grown_expect h₂).bind fun _ s₃ h₃ => ?_
  refine ((allocates_optionalAfter (allocates_typeExpr bound)).after h₃).bind fun ret s₄ h₄ => .pure ?_
  simpa only [Signature.refs, flatMap_tree] using h₄

/-! ## Expressions, statements and declarations -/

theorem allocates_binding {e : Parse Expr} (he : Allocates e fun e => [.expr e]) (bound : Nat) :
    Allocates (binding e bound) Binding.refs := by
  intro s hs
  refine .next rfl ((grown_ident (Grows.refl hs).advance).bind fun name s₁ h₁ => ?_)
  refine ((allocates_optionalAfter (allocates_typeExpr bound)).first h₁).bind fun type s₂ h₂ => ?_
  refine ((allocates_optionalAfter he).after h₂).bind fun init s₃ h₃ => ?_
  split
  · exact grown_failAt h₃ _ _
  · refine (grown_expect h₃).bind fun _ s₄ h₄ => .pure ?_
    simpa only [Binding.refs, flatMap_tree] using h₄

theorem allocates_stmts {stmt : Parse Stmt} (hstmt : Allocates stmt fun stmt => [.stmt stmt])
    (bound : Nat) : Allocates (stmts stmt bound) fun body => body.map .stmt := by
  induction bound with
  | zero => exact allocates_spent
  | succ bound ih =>
      intro s hs
      refine .next rfl ?_
      split
      · exact .pure (.refl hs)
      · refine (grown_attempt hstmt (.refl hs)).bind fun first s₁ h₁ => ?_
        cases first with
        | some first => exact (ih.after h₁.1).bind fun rest s₂ h₂ => .pure h₂
        | none =>
            refine .next rfl ?_
            split
            · exact .next rfl (ih.first h₁.1.advance)
            · exact ih.first h₁.1

theorem allocates_block {stmt : Parse Stmt} (hstmt : Allocates stmt fun stmt => [.stmt stmt])
    (bound : Nat) : Allocates (block stmt bound) fun body => body.map .stmt := by
  intro s hs
  refine (grown_expect (.refl hs)).bind fun _ s₁ h₁ => ?_
  refine ((allocates_stmts hstmt bound).first h₁).bind fun body s₂ h₂ => ?_
  exact (grown_expect h₂).bind fun _ s₃ h₃ => .pure h₃

theorem allocates_requiredBody {block : Parse (List Stmt)}
    (hblock : Allocates block fun body => body.map .stmt) :
    Allocates (requiredBody block) fun body => body.map .stmt := by
  intro s hs
  refine .next rfl ?_
  split
  · exact hblock s hs
  · exact grown_failHere (.refl hs) _

theorem allocates_funcDecl {block : Parse (List Stmt)}
    (hblock : Allocates block fun body => body.map .stmt) (bound : Nat) (funcKind : FuncKind)
    (access : Access) :
    Allocates (funcDecl block bound funcKind access) fun decl => [.decl (.func decl)] := by
  intro s hs
  refine .next rfl ((grown_expect (.refl hs)).bind fun _ s₁ h₁ => (grown_ident h₁).bind fun name s₂ h₂ => ?_)
  refine ((allocates_signature bound).first h₂).bind fun sig s₃ h₃ => ?_
  have finish (body : Option (List Stmt)) (span : Span) {s₄ : ParseState}
      (h₄ : Grows s (sig.refs ++ (body.getD []).map .stmt) s₄) : (do
      let body ← (Pure.pure body : Parse (Option (List Stmt)))
      newDecl .func (fun node => FuncDecl.mk node name sig body funcKind access)
        (span.merge (← previousSpan))).Ends (wasted s) s₄
        fun decl s' => Grows s [.decl (.func decl)] s' :=
    .next rfl (.next rfl (grown_newDecl h₄ _ (fun _ => rfl) fun _ => rfl))
  dsimp only
  split
  · exact (grown_expect h₃).bind fun _ s₄ h₄ => finish none _ (by simpa using h₄)
  · exact ((allocates_requiredBody hblock).after h₃).bind fun body s₄ h₄ => finish (some body) _ h₄

/-- The parts of the statement that an expression or an assignment becomes, whatever node it gets. -/
theorem grown_exprOrAssign {e : Parse Expr} (he : Allocates e fun e => [.expr e]) (h : Grows s₀ [] s) :
    (exprOrAssign e).Ends (wasted s₀) s fun make s' => ∃ parts, Grows s₀ parts s' ∧
      (∀ node, parts = (ArenaNode.stmt (make node)).refs) ∧ ∀ node, (make node).node = node := by
  refine (he.first h).bind fun target s₁ h₁ => (grown_accept h₁).bind fun isPlain s₂ h₂ => ?_
  have finish {make : Node → Stmt} {s₃ : ParseState} {parts : List ArenaNode} (h₃ : Grows s₀ parts s₃)
      (hrefs : ∀ node, parts = (ArenaNode.stmt (make node)).refs)
      (hnode : ∀ node, (make node).node = node) : (do
      let make ← (Pure.pure make : Parse (Node → Stmt))
      let _ ← expect .semi
      return make).Ends (wasted s₀) s₃ fun make s' => ∃ parts, Grows s₀ parts s' ∧
        (∀ node, parts = (ArenaNode.stmt (make node)).refs) ∧ ∀ node, (make node).node = node :=
    .next rfl ((grown_expect h₃).bind fun _ s₄ h₄ => .pure ⟨parts, h₄, hrefs, hnode⟩)
  have assign (op : Option BinOp) {s₃ : ParseState} (h₃ : Grows s₀ [.expr target] s₃) : (do
      let value ← e
      let make ← (Pure.pure fun node => Stmt.assign node target op value : Parse (Node → Stmt))
      let _ ← expect .semi
      return make).Ends (wasted s₀) s₃ fun make s' => ∃ parts, Grows s₀ parts s' ∧
        (∀ node, parts = (ArenaNode.stmt (make node)).refs) ∧ ∀ node, (make node).node = node :=
    (he.after h₃).bind fun value s₄ h₄ => finish h₄ (fun _ => rfl) fun _ => rfl
  dsimp only
  split
  · exact assign none h₂
  · refine .next rfl ?_
    split
    · exact .next rfl (assign _ h₂.advance)
    · exact finish h₂ (fun _ => rfl) fun _ => rfl

/-- What the steps that descend into expressions and statements allocate, down to a bound. -/
structure AllocatesAt (bound : Nat) : Prop where
  expr : ∀ level, Allocates (expr level bound) fun e => [.expr e]
  /-- An expression that goes on after `left` uses `left`. -/
  exprRest : ∀ level left s₀ s, Grows s₀ [.expr left] s →
    (exprRest level left bound).Ends (wasted s₀) s fun e s' => Grows s₀ [.expr e] s'
  operand : Allocates (operand bound) fun e => [.expr e]
  primary : Allocates (primary bound) fun e => [.expr e]
  stmt : Allocates (stmt bound) fun stmt => [.stmt stmt]
  ifElse : Allocates (ifElse bound) fun stmt => [.stmt stmt]

namespace AllocatesAt

variable {bound : Nat} (h : AllocatesAt bound)

include h

theorem exprRest_succ (level : Precedence) (left : Expr) (s₀ s : ParseState)
    (hleft : Grows s₀ [.expr left] s) :
    (Parse.exprRest level left (bound + 1)).Ends (wasted s₀) s fun e s' => Grows s₀ [.expr e] s' := by
  rw [Parse.exprRest]
  refine .next rfl ?_
  have finish {make : Node → Expr} {span : Span} {s₁ : ParseState} {parts : List ArenaNode}
      (h₁ : Grows s₀ parts s₁) (hrefs : ∀ node, parts = (ArenaNode.expr (make node)).refs)
      (hnode : ∀ node, (make node).node = node) : (do
      let longer ← newExpr make span
      Parse.exprRest level longer bound).Ends (wasted s₀) s₁ fun e s' => Grows s₀ [.expr e] s' :=
    (grown_newExpr h₁ span hrefs hnode).bind fun longer s₂ h₂ => h.exprRest level longer s₀ s₂ h₂
  split
  · exact .pure hleft
  · split
    · exact .pure hleft
    · refine .next rfl ?_
      dsimp only
      split
      · refine ((allocates_commaList (h.expr .lowest) bound).after hleft.advance).bind fun args s₁ h₁ => ?_
        refine (grown_expect h₁).bind fun _ s₂ h₂ => .next rfl (finish h₂ (fun _ => ?_) fun _ => rfl)
        simp only [ArenaNode.refs, flatMap_tree, List.singleton_append]
      · refine ((h.expr .lowest).after hleft.advance).bind fun index s₁ h₁ => ?_
        exact (grown_expect h₁).bind fun _ s₂ h₂ => .next rfl (finish h₂ (fun _ => rfl) fun _ => rfl)
      · exact (grown_ident hleft.advance).bind fun name s₁ h₁ => finish h₁ (fun _ => rfl) fun _ => rfl
      · refine ((h.expr .lowest).after hleft.advance).bind fun onTrue s₁ h₁ => ?_
        refine (grown_expect h₁).bind fun _ s₂ h₂ => ?_
        exact ((h.expr .lowest).after h₂).bind fun onFalse s₃ h₃ => finish h₃ (fun _ => rfl) fun _ => rfl
      · exact ((h.expr _).after hleft.advance).bind fun right s₁ h₁ =>
          finish h₁ (fun _ => rfl) fun _ => rfl

theorem expr_succ (level : Precedence) :
    Allocates (Parse.expr level (bound + 1)) fun e => [.expr e] := by
  intro s hs
  rw [Parse.expr]
  exact (h.operand s hs).bind fun left s₁ h₁ => h.exprRest level left s s₁ h₁

theorem operand_succ : Allocates (Parse.operand (bound + 1)) fun e => [.expr e] := by
  intro s hs
  rw [Parse.operand]
  refine .next rfl ?_
  split
  · refine .next rfl (((h.expr .unary).first (Grows.refl hs).advance).bind fun inner s₁ h₁ => ?_)
    exact grown_newExpr h₁ _ (fun _ => rfl) fun _ => rfl
  · exact h.primary s hs

/-- The statements in a body, one level down. -/
theorem body : Allocates (block (Parse.stmt bound) bound) fun body => body.map .stmt :=
  allocates_block h.stmt bound

theorem primary_succ : Allocates (Parse.primary (bound + 1)) fun e => [.expr e] := by
  intro s hs
  rw [Parse.primary]
  refine .next rfl ?_
  have finish {make : Node → Expr} {s₁ : ParseState} {parts : List ArenaNode} (h₁ : Grows s parts s₁)
      (hrefs : ∀ node, parts = (ArenaNode.expr (make node)).refs)
      (hnode : ∀ node, (make node).node = node) : (do
      newExpr make (s.current.span.merge (← previousSpan))).Ends (wasted s) s₁
        fun e s' => Grows s [.expr e] s' :=
    .next rfl (grown_newExpr h₁ _ hrefs hnode)
  have hstart : Grows s [] s := .refl hs
  dsimp only
  split
  · exact .next rfl <| (grown_literal hstart.advance _ _).bind fun value s₁ h₁ =>
      finish h₁ (fun _ => rfl) fun _ => rfl
  · exact .next rfl (finish hstart.advance (fun _ => rfl) fun _ => rfl)
  · exact .next rfl <| (grown_literal hstart.advance _ _).bind fun value s₁ h₁ =>
      finish h₁ (fun _ => rfl) fun _ => rfl
  · exact .next rfl <| (grown_literal hstart.advance _ _).bind fun value s₁ h₁ =>
      finish h₁ (fun _ => rfl) fun _ => rfl
  · exact .next rfl (finish hstart.advance (fun _ => rfl) fun _ => rfl)
  · exact .next rfl (finish hstart.advance (fun _ => rfl) fun _ => rfl)
  · exact (grown_ident hstart).bind fun name s₁ h₁ => finish h₁ (fun _ => rfl) fun _ => rfl
  · exact .next rfl (finish hstart.advance (fun _ => rfl) fun _ => rfl)
  · refine .next rfl (((h.expr .lowest).first hstart.advance).bind fun inner s₁ h₁ => ?_)
    exact (grown_expect h₁).bind fun _ s₂ h₂ => .pure h₂
  · refine .next rfl (((allocates_commaList (h.expr .lowest) bound).first hstart.advance).bind
      fun elements s₁ h₁ => ?_)
    exact (grown_expect h₁).bind fun _ s₂ h₂ => finish h₂
      (fun _ => by simp only [ArenaNode.refs, flatMap_tree]) fun _ => rfl
  · refine .next rfl (((allocates_signature bound).first hstart.advance).bind fun sig s₁ h₁ => ?_)
    exact ((allocates_requiredBody h.body).after h₁).bind fun body s₂ h₂ =>
      finish h₂ (fun _ => rfl) fun _ => rfl
  · exact grown_failHere hstart _

theorem ifElse_succ : Allocates (Parse.ifElse (bound + 1)) fun stmt => [.stmt stmt] := by
  intro s hs
  rw [Parse.ifElse]
  refine .next rfl (((h.expr .lowest).first (Grows.refl hs).advance).bind fun cond s₁ h₁ => ?_)
  refine (h.body.after h₁).bind fun onTrue s₂ h₂ => ?_
  have finish (onFalse : Option (List Stmt)) {s₃ : ParseState}
      (h₃ : Grows s ([.expr cond] ++ onTrue.map .stmt ++ (onFalse.getD []).map .stmt) s₃) : (do
      let onFalse ← (Pure.pure onFalse : Parse (Option (List Stmt)))
      newStmt (fun node => .ifElse node cond onTrue onFalse)
        (s.current.span.merge (← previousSpan))).Ends (wasted s) s₃
        fun stmt s' => Grows s [.stmt stmt] s' :=
    .next rfl (.next rfl (grown_newStmt h₃ _ (fun _ => rfl) fun _ => rfl))
  refine (grown_accept h₂).bind fun hasElse s₃ h₃ => ?_
  split
  · refine .next rfl ?_
    split
    · exact (h.ifElse.after h₃).bind fun chained s₄ h₄ => finish (some [chained]) h₄
    · exact (h.body.after h₃).bind fun body s₄ h₄ => finish (some body) h₄
  · exact finish none (by simpa using h₃)

theorem stmt_succ : Allocates (Parse.stmt (bound + 1)) fun stmt => [.stmt stmt] := by
  intro s hs
  rw [Parse.stmt]
  refine .next rfl (.next rfl ?_)
  have finish {make : Node → Stmt} {s₁ : ParseState} {parts : List ArenaNode} (h₁ : Grows s parts s₁)
      (hrefs : ∀ node, parts = (ArenaNode.stmt (make node)).refs)
      (hnode : ∀ node, (make node).node = node) : (do
      newStmt make (s.current.span.merge (← previousSpan))).Ends (wasted s) s₁
        fun stmt s' => Grows s [.stmt stmt] s' :=
    .next rfl (grown_newStmt h₁ _ hrefs hnode)
  have hstart : Grows s [] s := .refl hs
  have declares : (do
      let local' ← Parse.binding (Parse.expr .lowest bound) bound
      newStmt (fun node => .bind node local') (s.current.span.merge (← previousSpan))).Ends (wasted s) s
        fun stmt s' => Grows s [.stmt stmt] s' :=
    ((allocates_binding (h.expr .lowest) bound).first hstart).bind fun binding s₁ h₁ =>
      finish h₁ (fun _ => rfl) fun _ => rfl
  have assignment : (do
      let make ← exprOrAssign (Parse.expr .lowest bound)
      newStmt make (s.current.span.merge (← previousSpan))).Ends (wasted s) s
        fun stmt s' => Grows s [.stmt stmt] s' := by
    refine (grown_exprOrAssign (h.expr .lowest) hstart).bind fun make s₁ hmake => ?_
    obtain ⟨parts, h₁, hrefs, hnode⟩ := hmake
    exact finish h₁ hrefs hnode
  split
  · exact declares
  · exact declares
  · exact h.ifElse s hs
  · refine .next rfl (((h.expr .lowest).first hstart.advance).bind fun cond s₁ h₁ => ?_)
    exact (h.body.after h₁).bind fun body s₂ h₂ => finish h₂ (fun _ => rfl) fun _ => rfl
  · refine .next rfl (.next rfl ?_)
    have last (value : Option Expr) {s₁ : ParseState} (h₁ : Grows s (value.toList.map .expr) s₁) : (do
        let value ← (Pure.pure value : Parse (Option Expr))
        let _ ← expect .semi
        newStmt (fun node => .ret node value) (s.current.span.merge (← previousSpan))).Ends (wasted s) s₁
          fun stmt s' => Grows s [.stmt stmt] s' :=
      .next rfl ((grown_expect h₁).bind fun _ s₂ h₂ => finish h₂ (fun _ => rfl) fun _ => rfl)
    split
    · exact last none hstart.advance
    · exact ((h.expr .lowest).first hstart.advance).bind fun value s₁ h₁ => last (some value) h₁
  · exact .next rfl ((grown_expect hstart.advance).bind fun _ s₁ h₁ =>
      finish h₁ (fun _ => rfl) fun _ => rfl)
  · exact .next rfl ((grown_expect hstart.advance).bind fun _ s₁ h₁ =>
      finish h₁ (fun _ => rfl) fun _ => rfl)
  · exact (h.body.first hstart).bind fun body s₁ h₁ => finish h₁ (fun _ => rfl) fun _ => rfl
  · refine .next rfl ?_
    split
    · exact ((allocates_funcDecl h.body bound .free .everyone).first hstart).bind fun decl s₁ h₁ =>
        finish h₁ (fun _ => rfl) fun _ => rfl
    · exact assignment
  · exact assignment

end AllocatesAt

theorem allocatesAt (bound : Nat) : AllocatesAt bound := by
  induction bound with
  | zero =>
      exact ⟨fun _ => allocates_spent, fun _ _ _ _ _ => trivial, allocates_spent, allocates_spent,
        allocates_spent, allocates_spent⟩
  | succ bound ih =>
      exact ⟨ih.expr_succ, ih.exprRest_succ, ih.operand_succ, ih.primary_succ, ih.stmt_succ,
        ih.ifElse_succ⟩

/-! ## Modules -/

theorem allocates_body (bound : Nat) : Allocates (body bound) fun body => body.map .stmt :=
  (allocatesAt bound).body

theorem allocates_fieldDecl (bound : Nat) (access : Access) :
    Allocates (fieldDecl bound access) fun field => [.type field.type] := by
  intro s hs
  refine .next rfl ((grown_ident (.refl hs)).bind fun name s₁ h₁ => ?_)
  refine (grown_expect h₁).bind fun _ s₂ h₂ => ?_
  refine ((allocates_typeExpr bound).first h₂).bind fun type s₃ h₃ => ?_
  exact (grown_expect h₃).bind fun _ s₄ h₄ => .next rfl (.pure h₄)

theorem allocates_enumCase : Allocates enumCase fun _ => [] := by
  intro s hs
  refine (grown_ident (.refl hs)).bind fun name s₁ h₁ => (grown_accept h₁).bind fun valued s₂ h₂ => ?_
  split
  · refine (grown_accept h₂).bind fun negative s₃ h₃ => (grown_expect h₃).bind fun token s₄ h₄ => ?_
    exact (grown_literal h₄ _ _).bind fun value s₅ h₅ => .pure h₅
  · exact .pure h₂

theorem allocates_member (bound : Nat) : Allocates (member bound) Member.refs := by
  intro s hs
  refine (grown_accept (.refl hs)).bind fun isPrivate s₁ h₁ => ?_
  have finish (funcKind : FuncKind) (access : Access) {s₂ : ParseState} (h₂ : Grows s [] s₂) : (do
      let decl ← funcDecl (body bound) bound funcKind access
      return (.func decl : Member)).Ends (wasted s) s₂ fun member s' => Grows s member.refs s' :=
    ((allocates_funcDecl (allocates_body bound) bound funcKind access).first h₂).bind
      fun decl s₃ h₃ => .pure h₃
  refine .next rfl ?_
  split
  · exact .next rfl (finish _ _ h₁.advance)
  · exact finish _ _ h₁
  · exact ((allocates_fieldDecl bound _).first h₁).bind fun decl s₂ h₂ => .pure h₂
  · refine .next rfl ?_
    split
    · exact .next rfl (finish _ _ h₁.advance)
    · exact grown_failHere h₁ _
  · exact grown_failHere h₁ _

theorem allocates_members (bound n : Nat) :
    Allocates (members bound n) fun members => members.flatMap Member.refs := by
  induction n with
  | zero => exact allocates_spent
  | succ n ih =>
      intro s hs
      refine .next rfl ?_
      split
      · exact .pure (.refl hs)
      · exact (allocates_member bound s hs).bind fun first s₁ h₁ =>
          (ih.after h₁).bind fun rest s₂ h₂ => .pure h₂

theorem allocates_structDecl (bound : Nat) : Allocates (structDecl bound) fun decl => [.decl decl] := by
  intro s hs
  refine .next rfl ((grown_ident (Grows.refl hs).advance).bind fun name s₁ h₁ => ?_)
  refine (grown_expect h₁).bind fun _ s₂ h₂ => ?_
  refine ((allocates_members bound bound).first h₂).bind fun members s₃ h₃ => ?_
  exact (grown_expect h₃).bind fun _ s₄ h₄ =>
    .next rfl (grown_newDecl h₄ _ (fun _ => rfl) fun _ => rfl)

theorem allocates_enumDecl (bound : Nat) : Allocates (enumDecl bound) fun decl => [.decl decl] := by
  intro s hs
  refine .next rfl ((grown_ident (Grows.refl hs).advance).bind fun name s₁ h₁ => ?_)
  refine (grown_expect h₁).bind fun _ s₂ h₂ => ?_
  refine ((allocates_commaList allocates_enumCase bound).first h₂).bind fun cases s₃ h₃ => ?_
  exact (grown_expect h₃).bind fun _ s₄ h₄ =>
    .next rfl (grown_newDecl h₄ _ (fun _ => by simp [ArenaNode.refs]) fun _ => rfl)

theorem allocates_aliasDecl (bound : Nat) : Allocates (aliasDecl bound) fun decl => [.decl decl] := by
  intro s hs
  refine .next rfl ((grown_ident (Grows.refl hs).advance).bind fun name s₁ h₁ => ?_)
  refine (grown_accept h₁).bind fun weak s₂ h₂ => ?_
  refine ((allocates_typeExpr bound).first h₂).bind fun target s₃ h₃ => ?_
  exact (grown_expect h₃).bind fun _ s₄ h₄ =>
    .next rfl (grown_newDecl h₄ _ (fun _ => rfl) fun _ => rfl)

theorem allocates_declaration (bound : Nat) :
    Allocates (declaration bound) fun decl => [.decl decl] := by
  intro s hs
  refine .next rfl ?_
  have func {s₁ : ParseState} (h₁ : Grows s [] s₁) : (do
      let decl ← funcDecl (body bound) bound .free .everyone
      return (.func decl : Decl)).Ends (wasted s) s₁ fun decl s' => Grows s [.decl decl] s' :=
    ((allocates_funcDecl (allocates_body bound) bound .free .everyone).first h₁).bind
      fun decl s₂ h₂ => .pure h₂
  have global : (do
      let first ← currentSpan
      let global ← binding (expr .lowest bound) bound
      newDecl id (fun node => Decl.global node global) (first.merge (← previousSpan))).Ends (wasted s) s
        fun decl s' => Grows s [.decl decl] s' := by
    refine .next rfl ((allocates_binding ((allocatesAt bound).expr .lowest) bound s hs).bind
      fun binding s₁ h₁ => ?_)
    exact .next rfl (grown_newDecl h₁ _ (fun _ => rfl) fun _ => rfl)
  have hstart : Grows s [] s := .refl hs
  split
  · exact func hstart
  · refine .next rfl (.next rfl ?_)
    split
    · exact func hstart.advance
    · exact grown_failHere hstart.advance _
  · exact allocates_structDecl bound s hs
  · exact allocates_enumDecl bound s hs
  · exact allocates_aliasDecl bound s hs
  · exact global
  · exact global
  · exact grown_failHere hstart _
  · exact grown_failHere hstart _

/-- A declaration behind which the parser recovers is left out: an error was recorded. -/
theorem allocates_declarations (bound n : Nat) :
    Allocates (declarations bound n) fun decls => decls.map .decl := by
  induction n with
  | zero => exact allocates_spent
  | succ n ih =>
      intro s hs
      refine .next rfl ?_
      split
      · exact .pure (.refl hs)
      · refine (grown_attempt (allocates_declaration bound) (.refl hs)).bind fun first s₁ h₁ => .next rfl ?_
        split
        · next hrecovering =>
          exact .next rfl (ih.first (h₁.1.drop (h₁.1.explained hrecovering)).synchronize)
        · cases first with
          | some decl => exact (ih.after h₁.1).bind fun rest s₂ h₂ => .pure h₂
          | none => exact .next rfl (ih.first h₁.1.synchronize)

theorem allocates_header : Allocates header fun _ => [] := by
  intro s hs
  have hident : Allocates ident fun _ => [] := fun s hs => grown_ident (.refl hs)
  have hsemi : Allocates (expect .semi) fun _ => [] := fun s hs => grown_expect (.refl hs)
  refine (grown_accept (.refl hs)).bind fun named s₁ h₁ => ?_
  split
  · refine (grown_attempt_quiet hident h₁).bind fun name s₂ h₂ => ?_
    exact (grown_attempt_quiet hsemi h₂).bind fun _ s₃ h₃ => .next rfl (.pure h₃)
  · exact .pure h₁

theorem allocates_importDecl : Allocates importDecl fun _ => [] := by
  intro s hs
  refine (grown_expect (.refl hs)).bind fun _ s₁ h₁ => (grown_ident h₁).bind fun name s₂ h₂ => ?_
  exact (grown_expect h₂).bind fun _ s₃ h₃ => .pure h₃

theorem allocates_imports (n : Nat) : Allocates (imports n) fun _ => [] := by
  induction n with
  | zero => exact allocates_spent
  | succ n ih =>
      intro s hs
      refine .next rfl ?_
      split
      · exact (grown_attempt_quiet allocates_importDecl (.refl hs)).bind fun first s₁ h₁ =>
          (ih.first h₁).bind fun rest s₂ h₂ => .pure h₂
      · exact .pure (.refl hs)

theorem allocates_moduleDecl (file : FileId) (defaultName : String) (bound : Nat) :
    Allocates (moduleDecl file defaultName bound) fun m => m.decls.map .decl := by
  intro s hs
  refine (allocates_header s hs).bind fun name s₁ h₁ => ?_
  refine ((allocates_imports bound).first h₁).bind fun imports s₂ h₂ => ?_
  exact ((allocates_declarations bound bound).first h₂).bind fun decls s₃ h₃ => .pure h₃

/-- A type that is followed by something else is in the arena all the same. -/
theorem allocates_wholeType (bound : Nat) : Allocates (wholeType bound) fun type => [.type type] := by
  intro s hs
  refine (grown_attempt (allocates_typeExpr bound) (.refl hs)).bind fun type s₁ h₁ => .next rfl ?_
  obtain ⟨hgrown, herrors⟩ := h₁
  cases type with
  | some type =>
      dsimp only
      split
      · exact .next rfl (.pure (hgrown.report _ _))
      · exact .pure hgrown
  | none =>
      dsimp only
      split
      · exact .next rfl ⟨hgrown.report _ _, kept_report (herrors rfl) _ _⟩
      · exact ⟨hgrown, herrors rfl⟩

end Parse

end Stela
