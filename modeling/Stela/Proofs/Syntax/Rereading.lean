import Stela.Proofs.Syntax.Completeness
import Stela.Proofs.Syntax.Finishing

/-!
# Expressions are read as they were written

An expression of operators is read from its left end: the operand there comes
first, and the loop over operators builds the expressions around it one by one.
So what a tree says of the loop is said in terms of what the loop does next.
-/

namespace Stela

open Phrase ParseState

/-! ## How expressions and statements start -/

/-- The kinds of tokens that start an expression. -/
def TokenKind.startsExpr : TokenKind → Bool
  | .intLit | .realLit | .charLit | .stringLit | .kwTrue | .kwFalse | .ident | .kwSelf => true
  | .lparen | .lbracket | .kwFunc | .minus | .bang | .tilde => true
  | _ => false

/-- How the words of an expression start. A closure has no name, unlike a function. -/
def ExprStart (tokens : List Token) : Prop :=
  ∃ token rest, tokens = token :: rest ∧ token.kind.startsExpr = true ∧
    (token.kind = .kwFunc → Follows (· = .lparen) rest)

theorem ExprStart.follows {tokens : List Token} (h : ExprStart tokens) :
    Follows (fun kind => kind.startsExpr = true) tokens := by
  obtain ⟨token, rest, htokens, hstart, -⟩ := h
  exact ⟨token, rest, htokens, hstart⟩

theorem begins_exprMark {kind : TokenKind} (hstart : kind.startsExpr = true) (hfunc : kind ≠ .kwFunc) :
    Begins ExprStart (mark kind) := by
  intro tokens rest hs
  obtain ⟨token, rfl, hword⟩ := spells_word.mp hs
  have hkind := Token.kind_of_mark hword
  exact ⟨token, rest, rfl, hkind ▸ hstart, fun h => absurd (hkind.symm.trans h) hfunc⟩

theorem begins_placed {L : Language Word} {least rank : Nat} (h : Begins ExprStart L) :
    Begins ExprStart (placed least rank L) := by
  intro tokens rest hs
  rcases spells_placed.mp hs with ⟨-, hs⟩ | hs
  · exact h tokens rest hs
  · exact (begins_exprMark rfl (by decide)).mul.mul tokens rest hs

/-- The kinds of tokens that are a literal. -/
def TokenKind.isLiteral : TokenKind → Bool
  | .intLit | .realLit | .charLit | .stringLit | .kwTrue | .kwFalse => true
  | _ => false

theorem begins_literal (value : Literal) :
    Begins (Follows fun kind => kind.isLiteral = true) value.language := by
  have hliteral : Begins (Follows fun kind => kind.isLiteral = true) (word (.literal value)) := by
    intro tokens rest hs
    obtain ⟨token, rfl, hword⟩ := spells_word.mp hs
    refine ⟨token, rest, rfl, ?_⟩
    unfold Token.word? at hword
    cases hkind : token.kind <;> simp [hkind, TokenKind.isLiteral] at hword ⊢
  cases value with
  | bool value =>
      cases value with
      | true => exact begins_mark rfl
      | false => exact begins_mark rfl
  | _ => exact hliteral

theorem begins_exprLiteral (value : Literal) : Begins ExprStart value.language := by
  intro tokens rest hs
  obtain ⟨token, later, rfl, hliteral⟩ := begins_literal value tokens rest hs
  refine ⟨token, later, rfl, ?_, fun hfunc => ?_⟩
  · cases hkind : token.kind <;> simp [hkind, TokenKind.isLiteral, TokenKind.startsExpr] at hliteral ⊢
  · simp [hfunc, TokenKind.isLiteral] at hliteral

theorem Expr.begins (e : Expr) : Begins ExprStart e.language := by
  cases e with
  | literal node value =>
      rw [Expr.language]
      exact begins_exprLiteral value
  | ident node name =>
      rw [Expr.language]
      refine Begins.add ?_ fun tokens rest hs =>
        begins_exprMark rfl (by decide) tokens rest (spells_given.mp hs).2
      intro tokens rest hs
      obtain ⟨token, rfl, hword⟩ := spells_word.mp hs
      have hkind := (Token.kind_of_name hword).1
      exact ⟨token, rest, rfl, hkind ▸ rfl, fun h => by simp [hkind] at h⟩
  | member node object name =>
      rw [Expr.language]
      exact (begins_placed object.begins).mul.mul
  | call node callee args =>
      rw [Expr.language]
      exact (begins_placed callee.begins).mul.mul.mul
  | index node base index =>
      rw [Expr.language]
      exact (begins_placed base.begins).mul.mul.mul
  | unary node op operand =>
      rw [Expr.language]
      exact (begins_exprMark (by cases op <;> rfl) (by cases op <;> decide)).mul
  | binary node op lhs rhs =>
      rw [Expr.language]
      exact (begins_placed lhs.begins).mul.mul
  | ternary node cond onTrue onFalse =>
      rw [Expr.language]
      exact (begins_placed cond.begins).mul.mul.mul.mul
  | array node elements =>
      rw [Expr.language]
      exact (begins_exprMark rfl (by decide)).mul.mul
  | closure node sig body =>
      rw [Expr.language]
      intro tokens rest hs
      obtain ⟨_, hfront, -⟩ := spells_mul.mp hs
      obtain ⟨middle, hfunc, hsig⟩ := spells_mul.mp hfront
      obtain ⟨token, rfl, hword⟩ := spells_word.mp hfunc
      have hkind := Token.kind_of_mark hword
      refine ⟨token, middle, rfl, hkind ▸ rfl, fun _ => ?_⟩
      exact (begins_mark (P := (· = .lparen)) rfl).mul.mul.mul _ _ hsig

theorem Expr.begins_whole (e : Expr) : Begins ExprStart e.whole := begins_placed e.begins

theorem begins_exprStmt {L : Language Word} (h : Begins ExprStart L) : Begins (Follows StartsStmt) L := by
  intro tokens rest hs
  refine (h tokens rest hs).follows.mono fun kind hstart => ⟨?_, ?_, ?_⟩
  · rintro rfl
    simp [TokenKind.startsExpr] at hstart
  · rintro rfl
    simp [TokenKind.startsExpr] at hstart
  · rintro rfl
    simp [TokenKind.startsExpr] at hstart

theorem Binding.begins (binding : Binding) :
    Begins (Follows fun kind => kind = .kwLet ∨ kind = .kwVar) binding.language := by
  obtain ⟨mutability, name, type, init⟩ := binding
  rw [Binding.language]
  have hmark : Begins (Follows fun kind => kind = .kwLet ∨ kind = .kwVar) mutability.language := by
    cases mutability with
    | fixed => exact begins_mark (P := fun kind => kind = .kwLet ∨ kind = .kwVar) (.inl rfl)
    | mutable => exact begins_mark (P := fun kind => kind = .kwLet ∨ kind = .kwVar) (.inr rfl)
  intro tokens rest hs
  exact hmark.mul.mul.mul.mul tokens rest (spells_given.mp hs).2

theorem Stmt.begins (stmt : Stmt) : Begins (Follows StartsStmt) stmt.language := by
  have keyword {kind : TokenKind} (h : StartsStmt kind) :
      Begins (Follows StartsStmt) (mark kind) := begins_mark h
  have block (body : List Stmt) : Begins (Follows StartsStmt) (Stmt.blockLanguage body) := by
    rw [Stmt.blockLanguage]
    exact (keyword ⟨by decide, by decide, by decide⟩).mul.mul
  cases stmt with
  | bind node binding =>
      rw [Stmt.language]
      intro tokens rest hs
      refine (binding.begins tokens rest hs).mono fun kind hkind => ?_
      rcases hkind with rfl | rfl
      · exact ⟨by decide, by decide, by decide⟩
      · exact ⟨by decide, by decide, by decide⟩
  | assign node target op value =>
      rw [Stmt.language]
      exact (begins_exprStmt target.begins_whole).mul.mul.mul
  | expr node value =>
      rw [Stmt.language]
      exact (begins_exprStmt value.begins_whole).mul
  | ifElse node cond onTrue onFalse =>
      rw [Stmt.language]
      exact (keyword ⟨by decide, by decide, by decide⟩).mul.mul.mul
  | whileLoop node cond body =>
      rw [Stmt.language]
      exact (keyword ⟨by decide, by decide, by decide⟩).mul.mul
  | ret node value =>
      rw [Stmt.language]
      exact (keyword ⟨by decide, by decide, by decide⟩).mul.mul
  | breakLoop node =>
      rw [Stmt.language]
      exact (keyword ⟨by decide, by decide, by decide⟩).mul
  | continueLoop node =>
      rw [Stmt.language]
      exact (keyword ⟨by decide, by decide, by decide⟩).mul
  | block node body =>
      rw [Stmt.language]
      exact block body
  | func node decl =>
      rw [Stmt.language]
      obtain ⟨_, name, sig, body, kind, access⟩ := decl
      rw [FuncDecl.language]
      exact fun tokens rest hs =>
        (keyword ⟨by decide, by decide, by decide⟩).mul.mul.mul tokens rest (spells_given.mp hs).2

theorem begins_ifElse {stmt : Stmt} (h : stmt.isConditional) :
    Begins (Follows (· = .kwIf)) stmt.language := by
  cases stmt with
  | ifElse node cond onTrue onFalse =>
      rw [Stmt.language]
      exact (begins_mark (P := (· = .kwIf)) rfl).mul.mul.mul
  | _ => simp [Stmt.isConditional] at h

/-! ## What is read behind an expression -/

namespace Expr

/-- The rank of the operators that may follow an expression. None may follow a conditional, as it
would belong to its last part. -/
def limit (e : Expr) : Nat := if e.rank = Precedence.conditional.rank then 0 else e.rank

theorem rank_pos (e : Expr) : 0 < e.rank := by
  cases e with
  | binary node op lhs rhs => exact Nat.zero_lt_of_lt op.conditional_lt_precedence
  | _ => exact Nat.succ_pos _

/-- All expressions bind tighter than the lowest rank. -/
theorem whole_le (e : Expr) : e.whole ≤ placed Precedence.lowest.above e.rank e.language := by
  intro ws hws
  cases hws with
  | bare _ hws => exact .bare e.rank_pos hws
  | enclosed hws => exact .enclosed hws

/-- A continuation may follow what binds as tightly as it requires. -/
theorem loose_mark {e : Expr} {continuation : Continuation} (h : continuation.least ≤ e.rank) :
    Continuation.Loose e.limit continuation.mark := by
  intro other hother
  have hnext : Continuation.ofToken continuation.mark = some continuation :=
    Continuation.ofToken_iff.mpr rfl
  obtain rfl := Option.some.inj (hnext.symm.trans hother)
  obtain ⟨hconditional, hrank⟩ := Nat.max_le.mp h
  rw [limit, if_neg (Nat.ne_of_gt hconditional)]
  exact hrank

/-- What may follow at a level may follow every expression of that level. -/
theorem rank_le_limit {e : Expr} {level : Precedence} (hlevel : level.rank ≤ Precedence.unary.rank)
    (h : level.above ≤ e.rank) : level.rank ≤ e.limit := by
  have hbelow : level.rank + 1 ≤ e.rank ∨ level.rank = Precedence.unary.rank ∧ level.rank ≤ e.rank := by
    unfold Precedence.above at h
    omega
  unfold limit
  split
  · next hconditional =>
    have hone : Precedence.conditional.rank = 1 := rfl
    have heleven : Precedence.unary.rank = 11 := rfl
    omega
  · omega

/-- The expressions that are read at once. -/
def isPrimary : Expr → Bool
  | .literal .. | .ident .. | .array .. | .closure .. => true
  | _ => false

/-- The words of an expression that are read at once. -/
def primaryLanguage (e : Expr) : Language Word :=
  given e.isPrimary e.language + mark .lparen * e.whole * mark .rparen

/-- No prefix operator stands in front of an expression that is read at once. -/
theorem begins_primary (e : Expr) :
    Begins (Follows fun kind => UnaryOp.ofToken kind = none) e.primaryLanguage := by
  refine Begins.add (fun tokens rest hs => ?_) (begins_mark (P := fun kind => UnaryOp.ofToken kind = none) rfl).mul.mul
  obtain ⟨hprimary, hspells⟩ := spells_given.mp hs
  cases e with
  | literal node value =>
      rw [Expr.language] at hspells
      refine (begins_literal value tokens rest hspells).mono fun kind hkind => ?_
      cases kind <;> simp [TokenKind.isLiteral] at hkind <;> rfl
  | ident node name =>
      rw [Expr.language] at hspells
      rcases spells_add.mp hspells with hname | hself
      · exact follows_of_name hname rfl
      · exact follows_of_mark (spells_given.mp hself).2 rfl
  | array node elements =>
      rw [Expr.language] at hspells
      exact (begins_mark (P := fun kind => UnaryOp.ofToken kind = none) rfl).mul.mul _ _ hspells
  | closure node sig body =>
      rw [Expr.language] at hspells
      exact (begins_mark (P := fun kind => UnaryOp.ofToken kind = none) rfl).mul.mul _ _ hspells
  | _ => simp [Expr.isPrimary] at hprimary

theorem primary_le {e : Expr} (h : e.isPrimary = true) : e.language ≤ e.primaryLanguage := by
  rw [Expr.primaryLanguage, given_of h]
  exact le_add_of_nonneg_right bot_le

end Expr

namespace Parse

variable {s : ParseState} {errors : List (SyntaxError × Span)} {tokens middle after rest : List Token}
  {level : Precedence} {bound : Nat} {e lhs left : Expr} {c : Continuation}
  {w : Leeway} {post : Expr → ParseState → Prop}

/-- Goes on with what a continuation makes of the expression in front of it. -/
def continued (left : Expr) (bound : Nat) (next : Expr → Parse Expr) : Continuation → Parse Expr
  | .call => do
    let args ← commaList .rparen (expr .lowest bound) bound
    let _ ← expect .rparen
    let longer ← newExpr (fun node => .call node left args) (left.span.merge (← previousSpan))
    next longer
  | .index => do
    let index ← expr .lowest bound
    let _ ← expect .rbracket
    let longer ← newExpr (fun node => .index node left index) (left.span.merge (← previousSpan))
    next longer
  | .member => do
    let name ← ident
    let longer ← newExpr (fun node => .member node left name) (left.span.merge name.span)
    next longer
  | .conditional => do
    let onTrue ← expr .lowest bound
    let _ ← expect .colon
    let onFalse ← expr .lowest bound
    let longer ← newExpr (fun node => .ternary node left onTrue onFalse)
      (left.span.merge onFalse.span)
    next longer
  | .binary op => do
    let right ← expr op.precedence bound
    let longer ← newExpr (fun node => .binary node op left right) (left.span.merge right.span)
    next longer

theorem ends_continued (hkind : s.kind = c.mark)
    (htight : level.rank < c.precedence.rank)
    (h : (continued left bound (fun longer => exprRest level longer bound) c).Ends w
      s.advance post) : (exprRest level left (bound + 1)).Ends w s post := by
  rw [exprRest]
  refine .next (kind_eq hkind) ?_
  rw [Continuation.ofToken_iff.mpr rfl]
  dsimp only
  rw [if_neg (Nat.not_le_of_lt htight)]
  refine .next rfl ?_
  cases c <;> exact h

theorem ends_stopped (hs : s.At errors rest) (hrest : Follows (Continuation.Loose level.rank) rest) :
    (exprRest level left bound).Ends succeeding s fun read s' => s'.At errors rest ∧ read = left := by
  cases bound with
  | zero =>
      rw [exprRest]
      trivial
  | succ bound =>
      rw [exprRest]
      refine .next rfl ?_
      split
      · exact .pure ⟨hs, rfl⟩
      · next c hnext =>
        rw [if_pos (kind_of_follows hs.ahead hrest c hnext)]
        exact .pure ⟨hs, rfl⟩

/-- An expression comes first: whatever the loop over operators does with it is what is done. -/
def Leads (level : Precedence) (bound : Nat) (s : ParseState) (e : Expr)
    (errors : List (SyntaxError × Span)) (rest : List Token) : Prop :=
  ∀ post : Expr → ParseState → Prop,
    (∀ left b s', b ≤ bound → left.bare = e.bare → s'.At errors rest →
      (exprRest level left b).Ends succeeding s' post) →
    Ends succeeding (do
      let left ← operand bound
      exprRest level left bound) s post

theorem leads_operand (h : (operand bound).Ends succeeding s fun read s' =>
    s'.At errors rest ∧ read.bare = e.bare) : Leads level bound s e errors rest :=
  fun _ hpost => h.bind fun left s₁ hread => hpost left bound s₁ (Nat.le_refl _) hread.2 hread.1

/-- With an expression that comes first, the one that a continuation makes of it does. -/
theorem Leads.longer (h : Leads level bound s lhs errors middle)
    (hmark : Spells (mark c.mark) middle after)
    (htight : level.rank < c.precedence.rank)
    (hstep : ∀ left b s' next post, b < bound → left.bare = lhs.bare → s'.At errors after →
      (∀ longer s'', longer.bare = e.bare → s''.At errors rest →
        (next longer).Ends succeeding s'' post) →
      (continued left b next c).Ends succeeding s' post) :
    Leads level bound s e errors rest := by
  intro post hpost
  refine h post fun left b s₁ hb hleft h₁ => ?_
  cases b with
  | zero =>
      rw [exprRest]
      trivial
  | succ b =>
      obtain ⟨hkind, h₂⟩ := take_mark h₁.ahead hmark c.mark_ne_extern
      refine ends_continued hkind htight ?_
      exact hstep left b _ _ _ hb hleft h₂ fun longer s₃ hlonger h₃ =>
        hpost longer b s₃ (Nat.le_of_lt hb) hlonger h₃

/-- What the steps that descend into expressions and statements make of what is written, down to a
bound. -/
structure TakesAt (bound : Nat) : Prop where
  expr : ∀ level (e : Expr), level.rank ≤ Precedence.unary.rank →
    Takes (expr level bound) (placed level.above e.rank e.language)
      (Continuation.Loose level.rank) fun read => read.bare = e.bare
  operand : ∀ e : Expr, Takes (operand bound) e.primaryLanguage Anything fun read =>
    read.bare = e.bare
  prefixed : ∀ node op inner, Takes (Parse.operand bound) (Expr.unary node op inner).language
    (Continuation.Loose Precedence.unary.rank) fun read =>
      read.bare = (Expr.unary node op inner).bare
  primary : ∀ e : Expr, Takes (primary bound) e.primaryLanguage Anything fun read =>
    read.bare = e.bare
  stmt : ∀ (stmt : Stmt) errors s tokens rest, s.At errors tokens →
    Spells stmt.language tokens rest → Follows (· ≠ .kwElse) rest →
    (Parse.stmt bound).Ends succeeding s fun read s' => s'.At errors rest ∧ read.bare = stmt.bare
  ifElse : ∀ stmt : Stmt, stmt.isConditional → Takes (ifElse bound) stmt.language (· ≠ .kwElse)
    fun read => read.bare = stmt.bare

namespace TakesAt

theorem whole (h : TakesAt bound) (e : Expr) :
    Takes (Parse.expr .lowest bound) e.whole ExprEnd fun read => read.bare = e.bare :=
  fun errors s tokens rest hs hspells hrest =>
    h.expr .lowest e (by decide) errors s tokens rest hs (hspells.mono e.whole_le)
      (hrest.mono fun _ => Continuation.loose_zero_iff.mpr)

theorem exprs (h : TakesAt bound) {close : TokenKind} (hclose : close ≠ .comma)
    (hend : ExprEnd close) (hstart : close.startsExpr = false) (exprs : List Expr)
    (hs : s.At errors tokens) (hspells : Spells (commas (exprs.map Expr.whole)) tokens rest)
    (hrest : Follows (· = close) rest) :
    (commaList close (Parse.expr .lowest bound) bound).Ends succeeding s fun read s' =>
      s'.At errors rest ∧ Expr.listBare read = Expr.listBare exprs := by
  simp only [Expr.listBare_eq_map]
  refine take_commaList (P := ExprEnd) bound hclose rfl hend (fun e _ => h.whole e)
    (fun e _ tokens rest hspells => ?_) hs hspells hrest
  refine (e.begins_whole tokens rest hspells).follows.mono fun kind hkind => ?_
  rintro rfl
  simp [hstart] at hkind

theorem body (h : TakesAt bound) (body : List Stmt) :
    Takes (block (Parse.stmt bound) bound) (Stmt.blockLanguage body) Anything fun read =>
      Stmt.listBare read = Stmt.listBare body :=
  take_block bound (fun stmt _ => h.stmt stmt) fun stmt _ => stmt.begins

end TakesAt

/-! ## The expression that comes first -/

theorem Leads.member {node : Node} {object : Expr} {name : Ident}
    (hfirst : Leads level bound s object errors middle)
    (htight : level.rank < Continuation.member.precedence.rank)
    (hdot : Spells (mark .dot) middle after) (hname : Spells (word (.name name.name)) after rest) :
    Leads level bound s (.member node object name) errors rest := by
  refine hfirst.longer (c := .member) hdot htight fun left b s₁ next post hb hleft h₁ hnext => ?_
  refine (take_ident h₁.ahead hname).bind fun read s₂ h₂ => ?_
  obtain ⟨h₂, hread⟩ := h₂
  refine .next rfl ?_
  exact hnext _ _ (by simp [Ident.bare, hleft, hread]) ⟨h₂.ahead, h₂.free⟩

section Leads

variable (h : ∀ b ≤ bound, TakesAt b) (hlevel : level.rank ≤ Precedence.unary.rank)

include h

theorem leads_primary (hprimary : e.isPrimary = true) (hs : s.Ahead errors tokens)
    (hspells : Spells e.language tokens rest) (hrest : Follows Anything rest) :
    Leads level bound s e errors rest :=
  leads_operand ((h bound (Nat.le_refl _)).operand e errors s tokens rest hs
    (hspells.mono (Expr.primary_le hprimary)) hrest)

/-- An expression comes first with or without parentheses. -/
theorem leads_placed {least : Nat}
    (hbare : least ≤ e.rank → Spells e.language tokens rest → Leads level bound s e errors rest)
    (hs : s.Ahead errors tokens) (hspells : Spells (placed least e.rank e.language) tokens rest)
    (hrest : Follows Anything rest) : Leads level bound s e errors rest := by
  rcases spells_placed.mp hspells with ⟨hleast, hspells⟩ | hspells
  · exact hbare hleast hspells
  · exact leads_operand ((h bound (Nat.le_refl _)).operand e errors s tokens rest hs
      (hspells.mono (le_add_of_nonneg_left bot_le)) hrest)

/-- What stands in front of a continuation comes first. -/
theorem leads_left {least : Nat}
    (hbare : ∀ {s tokens rest}, level.above ≤ lhs.rank → s.Ahead errors tokens →
      Spells lhs.language tokens rest → Follows (Continuation.Loose lhs.limit) rest →
      Leads level bound s lhs errors rest)
    (hs : s.Ahead errors tokens) (hspells : Spells (placed least lhs.rank lhs.language) tokens middle)
    (hmark : Spells (mark c.mark) middle after) (hleast : c.least ≤ least)
    (htight : level.rank < c.precedence.rank) : Leads level bound s lhs errors middle := by
  refine leads_placed h (fun hle hwords => ?_) hs hspells (follows_of_mark hmark trivial)
  have hrank : c.least ≤ lhs.rank := Nat.le_trans hleast hle
  have habove : level.above ≤ lhs.rank :=
    calc level.above ≤ level.rank + 1 := Nat.min_le_left _ _
      _ ≤ c.precedence.rank := htight
      _ ≤ c.least := Nat.le_max_right _ _
      _ ≤ lhs.rank := hrank
  exact hbare habove hs hwords (follows_of_mark hmark (Expr.loose_mark hrank))

theorem Leads.call {node : Node} {callee : Expr} {args : List Expr} {beforeClose : List Token}
    (hfirst : Leads level bound s callee errors middle)
    (htight : level.rank < Continuation.call.precedence.rank)
    (hopen : Spells (mark .lparen) middle after)
    (hargs : Spells (commas (args.map Expr.whole)) after beforeClose)
    (hclose : Spells (mark .rparen) beforeClose rest) :
    Leads level bound s (.call node callee args) errors rest := by
  refine hfirst.longer (c := .call) hopen htight fun left b s₁ next post hb hleft h₁ hnext => ?_
  refine ((h b (Nat.le_of_lt hb)).exprs (by decide) (show ExprEnd .rparen from rfl) rfl args h₁ hargs
    (follows_of_mark hclose rfl)).bind fun read s₂ h₂ => ?_
  obtain ⟨h₂, hread⟩ := h₂
  refine (take_expect h₂.ahead hclose (by decide)).bind fun _ s₃ h₃ => .next rfl (.next rfl ?_)
  exact hnext _ _ (by simp [hleft, hread]) ⟨h₃.ahead, h₃.free⟩

theorem Leads.index {node : Node} {base index : Expr} {beforeClose : List Token}
    (hfirst : Leads level bound s base errors middle)
    (htight : level.rank < Continuation.index.precedence.rank)
    (hopen : Spells (mark .lbracket) middle after) (hindex : Spells index.whole after beforeClose)
    (hclose : Spells (mark .rbracket) beforeClose rest) :
    Leads level bound s (.index node base index) errors rest := by
  refine hfirst.longer (c := .index) hopen htight fun left b s₁ next post hb hleft h₁ hnext => ?_
  refine ((h b (Nat.le_of_lt hb)).whole index errors s₁ _ _ h₁.ahead hindex
    (follows_of_mark hclose rfl)).bind fun read s₂ h₂ => ?_
  obtain ⟨h₂, hread⟩ := h₂
  refine (take_expect h₂.ahead hclose (by decide)).bind fun _ s₃ h₃ => .next rfl (.next rfl ?_)
  exact hnext _ _ (by simp [hleft, hread]) ⟨h₃.ahead, h₃.free⟩

theorem Leads.binary {node : Node} {op : BinOp} {rhs : Expr}
    (hfirst : Leads level bound s lhs errors middle)
    (htight : level.rank < (Continuation.binary op).precedence.rank)
    (hmark : Spells (mark op.mark) middle after)
    (hrhs : Spells (placed (op.precedence.rank + 1) rhs.rank rhs.language) after rest)
    (hrest : Follows (Continuation.Loose op.precedence.rank) rest) :
    Leads level bound s (.binary node op lhs rhs) errors rest := by
  have hunary := op.precedence_lt_unary
  have hplaced : op.precedence.above = op.precedence.rank + 1 := Nat.min_eq_left hunary
  refine hfirst.longer (c := .binary op) hmark htight fun left b s₁ next post hb hleft h₁ hnext => ?_
  refine ((h b (Nat.le_of_lt hb)).expr op.precedence rhs (Nat.le_of_lt hunary) errors s₁ _ _
    h₁.ahead (hplaced ▸ hrhs) hrest).bind fun read s₂ h₂ => ?_
  obtain ⟨h₂, hread⟩ := h₂
  refine .next rfl ?_
  exact hnext _ _ (by simp [hleft, hread]) ⟨h₂.ahead, h₂.free⟩

theorem Leads.conditional {node : Node} {cond onTrue onFalse : Expr}
    {beforeColon afterColon : List Token} (hfirst : Leads level bound s cond errors middle)
    (htight : level.rank < Continuation.conditional.precedence.rank)
    (hmark : Spells (mark .question) middle after)
    (honTrue : Spells onTrue.whole after beforeColon)
    (hcolon : Spells (mark .colon) beforeColon afterColon)
    (honFalse : Spells onFalse.whole afterColon rest) (hrest : Follows ExprEnd rest) :
    Leads level bound s (.ternary node cond onTrue onFalse) errors rest := by
  refine hfirst.longer (c := .conditional) hmark htight fun left b s₁ next post hb hleft h₁ hnext => ?_
  have hwhole := (h b (Nat.le_of_lt hb)).whole
  refine (hwhole onTrue errors s₁ _ _ h₁.ahead honTrue (follows_of_mark hcolon rfl)).bind
    fun readTrue s₂ h₂ => ?_
  obtain ⟨h₂, hreadTrue⟩ := h₂
  refine (take_expect h₂.ahead hcolon (by decide)).bind fun _ s₃ h₃ => ?_
  refine (hwhole onFalse errors s₃ _ _ h₃.ahead honFalse hrest).bind
    fun readFalse s₄ h₄ => ?_
  obtain ⟨h₄, hreadFalse⟩ := h₄
  refine .next rfl ?_
  exact hnext _ _ (by simp [hleft, hreadTrue, hreadFalse]) ⟨h₄.ahead, h₄.free⟩

include hlevel

/-- Expressions of a level come first, whatever they consist of. -/
theorem leads : (e : Expr) → ∀ {s tokens rest}, level.above ≤ e.rank → s.Ahead errors tokens →
    Spells e.language tokens rest → Follows (Continuation.Loose e.limit) rest →
    Leads level bound s e errors rest
  | .literal _ _, _, _, _, _, hs, hspells, hrest =>
      leads_primary h rfl hs hspells (hrest.mono fun _ _ => trivial)
  | .ident _ _, _, _, _, _, hs, hspells, hrest =>
      leads_primary h rfl hs hspells (hrest.mono fun _ _ => trivial)
  | .array _ _, _, _, _, _, hs, hspells, hrest =>
      leads_primary h rfl hs hspells (hrest.mono fun _ _ => trivial)
  | .closure _ _ _, _, _, _, _, hs, hspells, hrest =>
      leads_primary h rfl hs hspells (hrest.mono fun _ _ => trivial)
  | .unary node op inner, s, tokens, rest, _, hs, hspells, hrest =>
      leads_operand ((h bound (Nat.le_refl _)).prefixed node op inner errors s tokens rest hs hspells
        hrest)
  | .member node object name, s, tokens, rest, _, hs, hspells, _ => by
      rw [Expr.language] at hspells
      obtain ⟨_, hfront, hname⟩ := spells_mul.mp hspells
      obtain ⟨_, hobject, hdot⟩ := spells_mul.mp hfront
      have htight : level.rank < Continuation.member.precedence.rank := Nat.lt_succ_of_le hlevel
      have hfirst := leads_left (c := .member) h (leads object) hs hobject hdot (Nat.le_refl _) htight
      exact hfirst.member htight hdot hname
  | .call node callee args, s, tokens, rest, _, hs, hspells, _ => by
      rw [Expr.language, Expr.languages_eq_map] at hspells
      obtain ⟨_, hfront, hclose⟩ := spells_mul.mp hspells
      obtain ⟨_, hfront, hargs⟩ := spells_mul.mp hfront
      obtain ⟨_, hcallee, hopen⟩ := spells_mul.mp hfront
      have htight : level.rank < Continuation.call.precedence.rank := Nat.lt_succ_of_le hlevel
      have hfirst := leads_left (c := .call) h (leads callee) hs hcallee hopen (Nat.le_refl _) htight
      exact hfirst.call h htight hopen hargs hclose
  | .index node base index, s, tokens, rest, _, hs, hspells, _ => by
      rw [Expr.language] at hspells
      obtain ⟨_, hfront, hclose⟩ := spells_mul.mp hspells
      obtain ⟨_, hfront, hindex⟩ := spells_mul.mp hfront
      obtain ⟨_, hbase, hopen⟩ := spells_mul.mp hfront
      have htight : level.rank < Continuation.index.precedence.rank := Nat.lt_succ_of_le hlevel
      have hfirst := leads_left (c := .index) h (leads base) hs hbase hopen (Nat.le_refl _) htight
      exact hfirst.index h htight hopen hindex hclose
  | .binary node op lhs rhs, s, tokens, rest, habove, hs, hspells, hrest => by
      rw [Expr.language] at hspells
      obtain ⟨_, hfront, hrhs⟩ := spells_mul.mp hspells
      obtain ⟨_, hlhs, hmark⟩ := spells_mul.mp hfront
      have hunary := op.precedence_lt_unary
      have hconditional := op.conditional_lt_precedence
      have htight : level.rank < (Continuation.binary op).precedence.rank := by
        have hrank : level.above ≤ op.precedence.rank := habove
        show level.rank < op.precedence.rank
        unfold Precedence.above at hrank
        omega
      have hlimit : (Expr.binary node op lhs rhs).limit = op.precedence.rank :=
        if_neg (Nat.ne_of_gt hconditional)
      have hleast : (Continuation.binary op).least ≤ op.precedence.rank :=
        Nat.max_le.mpr ⟨hconditional, Nat.le_refl _⟩
      have hfirst := leads_left (c := .binary op) h (leads lhs) hs hlhs hmark hleast htight
      exact hfirst.binary h htight hmark hrhs (hlimit ▸ hrest)
  | .ternary node cond onTrue onFalse, s, tokens, rest, habove, hs, hspells, hrest => by
      rw [Expr.language] at hspells
      obtain ⟨_, hfront, honFalse⟩ := spells_mul.mp hspells
      obtain ⟨_, hfront, hcolon⟩ := spells_mul.mp hfront
      obtain ⟨_, hfront, honTrue⟩ := spells_mul.mp hfront
      obtain ⟨_, hcond, hmark⟩ := spells_mul.mp hfront
      have htight : level.rank < Continuation.conditional.precedence.rank := by
        have hrank : level.above ≤ 1 := habove
        have heleven : Precedence.unary.rank = 11 := rfl
        show level.rank < 1
        unfold Precedence.above at hrank
        omega
      have hend : Follows ExprEnd rest := hrest.mono fun _ => Continuation.loose_zero_iff.mp
      have hfirst := leads_left (c := .conditional) h (leads cond) hs hcond hmark (Nat.le_refl _) htight
      exact hfirst.conditional h htight hmark honTrue hcolon honFalse hend

end Leads

/-! ## One level down -/

namespace TakesAt

theorem expr_succ (h : ∀ b ≤ bound, TakesAt b) (level : Precedence) (e : Expr)
    (hlevel : level.rank ≤ Precedence.unary.rank) :
    Takes (Parse.expr level (bound + 1)) (placed level.above e.rank e.language)
      (Continuation.Loose level.rank) fun read => read.bare = e.bare := by
  intro errors s tokens rest hs hspells hrest
  rw [Parse.expr]
  have hleads : Leads level bound s e errors rest := by
    refine leads_placed h (fun habove hwords => ?_) hs hspells (hrest.mono fun _ _ => trivial)
    exact leads h hlevel e habove hs hwords
      (hrest.mono fun _ hloose => hloose.mono (Expr.rank_le_limit hlevel habove))
  exact hleads _ fun left b s₁ _ hleft h₁ =>
    (ends_stopped h₁ hrest).mono fun read s₂ h₂ => ⟨h₂.1, h₂.2 ▸ hleft⟩

theorem prefixed_succ (h : TakesAt bound) (node : Node) (op : UnaryOp) (inner : Expr) :
    Takes (Parse.operand (bound + 1)) (Expr.unary node op inner).language
      (Continuation.Loose Precedence.unary.rank) fun read =>
        read.bare = (Expr.unary node op inner).bare := by
  intro errors s tokens rest hs hspells hrest
  rw [Expr.language] at hspells
  obtain ⟨middle, hmark, hinner⟩ := spells_mul.mp hspells
  obtain ⟨hkind, h₁⟩ := take_mark hs hmark (by cases op <;> decide)
  rw [Parse.operand]
  refine .next (kind_eq hkind) ?_
  rw [UnaryOp.ofToken_iff.mpr rfl]
  refine .next rfl ?_
  refine (h.expr .unary inner (Nat.le_refl _) errors _ _ _ h₁.ahead hinner hrest).bind
    fun read s₂ h₂ => ?_
  obtain ⟨h₂, hread⟩ := h₂
  exact .of_eq rfl ⟨⟨h₂.ahead, h₂.free⟩, by simp [hread]⟩

theorem operand_succ (h : TakesAt bound) (e : Expr) :
    Takes (Parse.operand (bound + 1)) e.primaryLanguage Anything fun read => read.bare = e.bare := by
  intro errors s tokens rest hs hspells hrest
  rw [Parse.operand]
  refine .next rfl ?_
  rw [kind_of_follows hs (e.begins_primary tokens rest hspells)]
  exact h.primary e errors s tokens rest hs hspells hrest

/-- A literal token has the value that it says. -/
theorem take_literal {value : Literal} (hs : s.Ahead errors tokens)
    (hspells : Spells value.language tokens rest) :
    (Parse.primary (bound + 1)).Ends succeeding s fun read s' =>
      s'.At errors rest ∧ read.bare = .literal .blank value := by
  have finish {s' : ParseState} {first : Span} (h : s'.At errors rest) : Ends succeeding (do
      newExpr (fun node => .literal node value) (first.merge (← previousSpan))) s' fun read s'' =>
        s''.At errors rest ∧ read.bare = .literal .blank value :=
    .next rfl (.of_eq rfl ⟨⟨h.ahead, h.free⟩, by rw [Expr.bare]⟩)
  have decoded {read : Except SyntaxError Literal} {span : Span} (h : s.advance.At errors rest)
      (hread : read.toOption = some value) : Ends succeeding (do
        let value ← literal read span
        newExpr (fun node => .literal node value) (span.merge (← previousSpan))) s.advance
        fun read s' => s'.At errors rest ∧ read.bare = .literal .blank value := by
    cases read with
    | error _ => simp [Except.toOption] at hread
    | ok v =>
        obtain rfl : v = value := by simpa [Except.toOption] using hread
        exact .next rfl (finish h)
  have said (hsaid : Spells (word (.literal value)) tokens rest) : Ends succeeding
      (Parse.primary (bound + 1)) s fun read s' =>
        s'.At errors rest ∧ read.bare = .literal .blank value := by
    obtain ⟨token, rfl, htoken⟩ := spells_word.mp hsaid
    have hword : s.current.word? = some (.literal value) := (hs token rest rfl).1 ▸ htoken
    have h₁ : s.advance.At errors rest := hs.advance htoken fun hhost => by
      simp [Token.word?, hhost] at htoken
    rw [Parse.primary]
    refine .next rfl ?_
    dsimp only
    rcases Token.literal_cases hword with ⟨hkind, hvalue⟩ | ⟨hkind, hvalue⟩ | ⟨hkind, hvalue⟩ |
      ⟨hkind, hvalue⟩
    · rw [hkind]
      exact .next rfl (decoded h₁ hvalue)
    · rw [hkind]
      exact .next rfl (hvalue ▸ finish h₁)
    · rw [hkind]
      exact .next rfl (decoded h₁ hvalue)
    · rw [hkind]
      exact .next rfl (decoded h₁ hvalue)
  cases value with
  | bool value =>
      cases value with
      | true =>
          obtain ⟨hkind, h₁⟩ := take_mark hs hspells (by decide)
          have hkind : s.current.kind = .kwTrue := hkind
          rw [Parse.primary]
          refine .next rfl ?_
          dsimp only
          rw [hkind]
          exact .next rfl (finish h₁)
      | false =>
          obtain ⟨hkind, h₁⟩ := take_mark hs hspells (by decide)
          have hkind : s.current.kind = .kwFalse := hkind
          rw [Parse.primary]
          refine .next rfl ?_
          dsimp only
          rw [hkind]
          exact .next rfl (finish h₁)
  | _ => exact said hspells

theorem primary_succ (h : TakesAt bound) (e : Expr) :
    Takes (Parse.primary (bound + 1)) e.primaryLanguage Anything fun read => read.bare = e.bare := by
  intro errors s tokens rest hs hspells hrest
  have finish {make : Node → Expr} {s' : ParseState} {first : Span} (h : s'.At errors rest)
      (hmake : ∀ node, (make node).bare = e.bare) : Ends succeeding (do
      newExpr make (first.merge (← previousSpan))) s' fun read s'' =>
        s''.At errors rest ∧ read.bare = e.bare :=
    .next rfl (.of_eq rfl ⟨⟨h.ahead, h.free⟩, hmake _⟩)
  rcases spells_add.mp hspells with hbare | henclosed
  · obtain ⟨hprimary, hwords⟩ := spells_given.mp hbare
    cases e with
    | literal node value =>
        rw [Expr.language] at hwords
        simpa only [Expr.bare] using take_literal hs hwords
    | ident node name =>
        rw [Expr.language] at hwords
        rw [Parse.primary]
        refine .next rfl ?_
        dsimp only
        rcases spells_add.mp hwords with hname | hself
        · have hkind : s.current.kind = .ident := kind_of_name hs hname
          rw [hkind]
          refine (take_ident hs hname).bind fun read s₁ h₁ => ?_
          exact finish h₁.1 fun node => by rw [Expr.bare, Expr.bare, h₁.2]
        · obtain ⟨rfl, hmark⟩ := spells_given.mp hself
          obtain ⟨hkind, h₁⟩ := take_mark hs hmark (by decide)
          have hkind : s.current.kind = .kwSelf := hkind
          rw [hkind]
          exact .next rfl (finish h₁ fun node => by rw [Expr.bare, Expr.bare])
    | array node elements =>
        rw [Expr.language, Expr.languages_eq_map] at hwords
        obtain ⟨beforeClose, hfront, hclose⟩ := spells_mul.mp hwords
        obtain ⟨afterOpen, hopen, helements⟩ := spells_mul.mp hfront
        obtain ⟨hkind, h₁⟩ := take_mark hs hopen (by decide)
        have hkind : s.current.kind = .lbracket := hkind
        rw [Parse.primary]
        refine .next rfl ?_
        dsimp only
        rw [hkind]
        refine .next rfl ((h.exprs (by decide) (show ExprEnd .rbracket from rfl) rfl elements h₁
          helements (follows_of_mark hclose rfl)).bind fun read s₂ h₂ => ?_)
        obtain ⟨h₂, hread⟩ := h₂
        exact (take_expect h₂.ahead hclose (by decide)).bind fun _ s₃ h₃ =>
          finish h₃ fun node => by rw [Expr.bare, Expr.bare, hread]
    | closure node sig body =>
        rw [Expr.language] at hwords
        obtain ⟨afterSig, hfront, hbody⟩ := spells_mul.mp hwords
        obtain ⟨afterFunc, hfunc, hsig⟩ := spells_mul.mp hfront
        obtain ⟨hkind, h₁⟩ := take_mark hs hfunc (by decide)
        have hkind : s.current.kind = .kwFunc := hkind
        have hopen : Follows TypeEnd afterSig :=
          (begins_block body _ _ hbody).mono fun kind hkind => hkind ▸ ⟨by decide, by decide⟩
        rw [Parse.primary]
        refine .next rfl ?_
        dsimp only
        rw [hkind]
        refine .next rfl ((take_signature bound sig errors _ _ _ h₁.ahead hsig hopen).bind
          fun readSig s₂ h₂ => ?_)
        obtain ⟨h₂, hreadSig⟩ := h₂
        refine (take_requiredBody (h.body body) errors s₂ _ rest h₂.ahead hbody hrest).bind
          fun readBody s₃ h₃ => ?_
        obtain ⟨h₃, hreadBody⟩ := h₃
        exact finish h₃ fun node => by rw [Expr.bare, Expr.bare, hreadSig, hreadBody]
    | _ => simp [Expr.isPrimary] at hprimary
  · obtain ⟨beforeClose, hfront, hclose⟩ := spells_mul.mp henclosed
    obtain ⟨afterOpen, hopen, hwhole⟩ := spells_mul.mp hfront
    obtain ⟨hkind, h₁⟩ := take_mark hs hopen (by decide)
    have hkind : s.current.kind = .lparen := hkind
    rw [Parse.primary]
    refine .next rfl ?_
    dsimp only
    rw [hkind]
    refine .next rfl ?_
    refine (h.whole e errors _ _ _ h₁.ahead hwhole (follows_of_mark hclose rfl)).bind
      fun read s₂ h₂ => ?_
    obtain ⟨h₂, hread⟩ := h₂
    exact (take_expect h₂.ahead hclose (by decide)).bind fun _ s₃ h₃ => .pure ⟨h₃, hread⟩

/-- A name follows the keyword of a function declaration. -/
theorem kind_of_funcDecl {decl : FuncDecl} (hs : s.Ahead errors tokens)
    (hspells : Spells decl.language tokens rest) :
    s.kind = .kwFunc ∧ checkNext .ident s = .ok true s := by
  obtain ⟨node, name, sig, body, kind, access⟩ := decl
  rw [FuncDecl.language] at hspells
  obtain ⟨_, hfront, -⟩ := spells_mul.mp hspells
  obtain ⟨_, hfront, -⟩ := spells_mul.mp hfront
  obtain ⟨_, hfunc, hname⟩ := spells_mul.mp hfront
  have hkind := (take_mark hs hfunc (by decide)).1
  obtain ⟨token, rfl, -⟩ := spells_word.mp hfunc
  obtain ⟨next, rfl, hword⟩ := spells_word.mp hname
  refine ⟨hkind, ?_⟩
  simp [checkNext, (hs token _ rfl).2.1, (Token.kind_of_name hword).1]

/-- What starts as an expression does is read as an expression. -/
theorem ends_exprStmt {stmt : Stmt} (hs : s.Ahead errors tokens) (hstart : ExprStart tokens)
    (h : (exprOrAssign (Parse.expr .lowest bound)).Ends succeeding s fun make s' =>
      s'.At errors rest ∧ ∀ node, (make node).bare = stmt.bare) :
    (Parse.stmt (bound + 1)).Ends succeeding s fun read s' =>
      s'.At errors rest ∧ read.bare = stmt.bare := by
  obtain ⟨token, later, rfl, hstarts, hclosure⟩ := hstart
  have hkind : s.kind = token.kind := hs.kind_eq
  rw [← hkind] at hstarts hclosure
  have assignment : Ends succeeding (do
      let make ← exprOrAssign (Parse.expr .lowest bound)
      newStmt make (s.current.span.merge (← previousSpan))) s fun read s' =>
        s'.At errors rest ∧ read.bare = stmt.bare :=
    h.bind fun make s₁ h₁ => .next rfl (.of_eq rfl ⟨⟨h₁.1.ahead, h₁.1.free⟩, h₁.2 _⟩)
  rw [Parse.stmt]
  refine .next rfl (.next rfl ?_)
  dsimp only
  split
  case h_9 hfunc =>
    -- A parenthesis follows, so this is no declaration.
    obtain ⟨next, others, rfl, hnext⟩ := hclosure hfunc
    have hunnamed : checkNext .ident s = .ok false s := by
      simp [checkNext, (hs token _ rfl).2.1, hnext]
    exact .next hunnamed assignment
  case h_10 => exact assignment
  all_goals next hother => simp [hother, TokenKind.startsExpr] at hstarts

theorem stmt_succ (h : TakesAt bound) (stmt : Stmt) (hs : s.At errors tokens)
    (hspells : Spells stmt.language tokens rest) (hrest : Follows (· ≠ .kwElse) rest) :
    (Parse.stmt (bound + 1)).Ends succeeding s fun read s' =>
      s'.At errors rest ∧ read.bare = stmt.bare := by
  have finish {make : Node → Stmt} {first : Span} {s' : ParseState} (h : s'.At errors rest)
      (hmake : ∀ node, (make node).bare = stmt.bare) : Ends succeeding (do
      newStmt make (first.merge (← previousSpan))) s' fun read s'' =>
        s''.At errors rest ∧ read.bare = stmt.bare :=
    .next rfl (.of_eq rfl ⟨⟨h.ahead, h.free⟩, hmake _⟩)
  have closed {make : Node → Stmt} {first : Span} {s' : ParseState} {tokens : List Token}
      (h : s'.At errors tokens) (hsemi : Spells (mark .semi) tokens rest)
      (hmake : ∀ node, (make node).bare = stmt.bare) : Ends succeeding (do
      let _ ← expect .semi
      newStmt make (first.merge (← previousSpan))) s' fun read s'' =>
        s''.At errors rest ∧ read.bare = stmt.bare :=
    (take_expect h.ahead hsemi (by decide)).bind fun _ s₂ h₂ => finish h₂ hmake
  have behind {P : TokenKind → Prop} {body : List Stmt} {tokens rest : List Token}
      (hspells : Spells (Stmt.blockLanguage body) tokens rest) (hP : P .lbrace) : Follows P tokens :=
    (begins_block body tokens rest hspells).mono fun kind hkind => hkind ▸ hP
  cases stmt with
  | expr node value =>
      rw [Stmt.language] at hspells
      refine ends_exprStmt hs.ahead (value.begins_whole.mul tokens rest hspells) ?_
      simpa only [Stmt.bare] using take_exprStmt (h.whole value) hs.ahead hspells
  | assign node target op value =>
      rw [Stmt.language] at hspells
      refine ends_exprStmt hs.ahead (target.begins_whole.mul.mul.mul tokens rest hspells) ?_
      simpa only [Stmt.bare] using take_assign (h.whole target) (h.whole value) hs.ahead hspells
  | bind node binding =>
      rw [Stmt.language] at hspells
      have hkind := kind_of_follows hs.ahead (binding.begins tokens rest hspells)
      have declared : Ends succeeding (do
          let read ← Parse.binding (Parse.expr .lowest bound) bound
          newStmt (fun node => .bind node read) (s.current.span.merge (← previousSpan))) s
          fun read s' => s'.At errors rest ∧ read.bare = (Stmt.bind node binding).bare :=
        (take_binding bound binding (fun init _ => h.whole init) errors s tokens rest hs.ahead hspells
          (hrest.mono fun _ _ => trivial)).bind fun read s₁ h₁ =>
            finish h₁.1 fun node => by rw [Stmt.bare, Stmt.bare, h₁.2]
      rw [Parse.stmt]
      refine .next rfl (.next rfl ?_)
      dsimp only
      rcases hkind with hkind | hkind
      · rw [hkind]
        exact declared
      · rw [hkind]
        exact declared
  | ifElse node cond onTrue onFalse =>
      have hkind : s.kind = .kwIf := kind_of_follows hs.ahead (begins_ifElse rfl _ _ hspells)
      rw [Parse.stmt]
      refine .next rfl (.next rfl ?_)
      dsimp only
      rw [hkind]
      exact h.ifElse (.ifElse node cond onTrue onFalse) rfl errors s tokens rest hs.ahead hspells hrest
  | whileLoop node cond body =>
      rw [Stmt.language] at hspells
      obtain ⟨afterCond, hfront, hbody⟩ := spells_mul.mp hspells
      obtain ⟨afterMark, hmark, hcond⟩ := spells_mul.mp hfront
      obtain ⟨hkind, h₁⟩ := take_mark hs.ahead hmark (by decide)
      rw [Parse.stmt]
      refine .next rfl (.next rfl ?_)
      dsimp only
      rw [hkind]
      refine .next rfl ((h.whole cond errors _ _ _ h₁.ahead hcond (behind hbody rfl)).bind
        fun readCond s₂ h₂ => ?_)
      obtain ⟨h₂, hreadCond⟩ := h₂
      refine (h.body body errors s₂ _ _ h₂.ahead hbody (hrest.mono fun _ _ => trivial)).bind
        fun readBody s₃ h₃ => ?_
      obtain ⟨h₃, hreadBody⟩ := h₃
      exact finish h₃ fun node => by rw [Stmt.bare, Stmt.bare, hreadCond, hreadBody]
  | ret node value =>
      rw [Stmt.language] at hspells
      obtain ⟨beforeSemi, hfront, hsemi⟩ := spells_mul.mp hspells
      obtain ⟨afterMark, hmark, hvalue⟩ := spells_mul.mp hfront
      obtain ⟨hkind, h₁⟩ := take_mark hs.ahead hmark (by decide)
      rw [Parse.stmt]
      refine .next rfl (.next rfl ?_)
      dsimp only
      rw [hkind]
      refine .next rfl ?_
      cases value with
      | none =>
          rw [Expr.optionLanguage] at hvalue
          obtain rfl := spells_one.mp hvalue
          refine .next (check_eq (take_mark h₁.ahead hsemi (by decide)).1) (.next rfl ?_)
          exact closed h₁ hsemi fun node => by rw [Stmt.bare, Stmt.bare]
      | some value =>
          rw [Expr.optionLanguage] at hvalue
          have hstarts := kind_of_follows h₁.ahead (value.begins_whole _ _ hvalue).follows
          have hother : s.advance.kind ≠ .semi := by
            intro hsemi
            simp [hsemi, TokenKind.startsExpr] at hstarts
          refine .next (check_ne hother) ?_
          refine (h.whole value errors _ _ _ h₁.ahead hvalue (follows_of_mark hsemi rfl)).bind
            fun read s₂ h₂ => ?_
          obtain ⟨h₂, hread⟩ := h₂
          refine .next rfl ?_
          exact closed h₂ hsemi fun node => by
            rw [Stmt.bare, Stmt.bare, Expr.optionBare, Expr.optionBare, hread]
  | breakLoop node =>
      rw [Stmt.language] at hspells
      obtain ⟨beforeSemi, hmark, hsemi⟩ := spells_mul.mp hspells
      obtain ⟨hkind, h₁⟩ := take_mark hs.ahead hmark (by decide)
      rw [Parse.stmt]
      refine .next rfl (.next rfl ?_)
      dsimp only
      rw [hkind]
      exact .next rfl (closed h₁ hsemi fun node => by rw [Stmt.bare, Stmt.bare])
  | continueLoop node =>
      rw [Stmt.language] at hspells
      obtain ⟨beforeSemi, hmark, hsemi⟩ := spells_mul.mp hspells
      obtain ⟨hkind, h₁⟩ := take_mark hs.ahead hmark (by decide)
      rw [Parse.stmt]
      refine .next rfl (.next rfl ?_)
      dsimp only
      rw [hkind]
      exact .next rfl (closed h₁ hsemi fun node => by rw [Stmt.bare, Stmt.bare])
  | block node body =>
      rw [Stmt.language] at hspells
      have hkind : s.kind = .lbrace := kind_of_follows hs.ahead (begins_block body _ _ hspells)
      rw [Parse.stmt]
      refine .next rfl (.next rfl ?_)
      dsimp only
      rw [hkind]
      refine (h.body body errors s _ _ hs.ahead hspells (hrest.mono fun _ _ => trivial)).bind
        fun read s₁ h₁ => ?_
      obtain ⟨h₁, hread⟩ := h₁
      exact finish h₁ fun node => by rw [Stmt.bare, Stmt.bare, hread]
  | func node decl =>
      rw [Stmt.language] at hspells
      obtain ⟨⟨hsome, hfree, heveryone⟩, hspells⟩ := spells_given.mp hspells
      obtain ⟨body, hbody⟩ := Option.isSome_iff_exists.mp hsome
      have hread := take_funcDecl bound decl hbody (h.body body) hs hspells
        (hrest.mono fun _ _ => trivial)
      rw [hfree, heveryone] at hread
      obtain ⟨hkind, hnamed⟩ := kind_of_funcDecl hs.ahead hspells
      rw [Parse.stmt]
      refine .next rfl (.next rfl ?_)
      dsimp only
      rw [hkind]
      refine .next hnamed (hread.bind fun read s₁ h₁ => ?_)
      obtain ⟨h₁, hread⟩ := h₁
      exact finish h₁ fun node => by rw [Stmt.bare, Stmt.bare, hread]

theorem ifElse_succ (h : TakesAt bound) (stmt : Stmt) (hconditional : stmt.isConditional) :
    Takes (Parse.ifElse (bound + 1)) stmt.language (· ≠ .kwElse) fun read =>
      read.bare = stmt.bare := by
  intro errors s tokens rest hs hspells hrest
  cases stmt with
  | ifElse node cond onTrue onFalse =>
      rw [Stmt.language] at hspells
      obtain ⟨afterTrue, hfront, helse⟩ := spells_mul.mp hspells
      obtain ⟨afterCond, hfront, honTrue⟩ := spells_mul.mp hfront
      obtain ⟨afterIf, hif, hcond⟩ := spells_mul.mp hfront
      have h₁ := (take_mark hs hif (by decide)).2
      have hopen : Follows ExprEnd afterCond :=
        (begins_block onTrue _ _ honTrue).mono fun kind hkind => hkind ▸ rfl
      have hnext : Follows Anything afterTrue := by
        cases onFalse with
        | none =>
            rw [Stmt.elseLanguage] at helse
            obtain rfl := spells_one.mp helse
            exact hrest.mono fun _ _ => trivial
        | some body =>
            rw [Stmt.elseLanguage] at helse
            exact (begins_mark (P := Anything) trivial).mul _ _ helse
      rw [Parse.ifElse]
      refine .next rfl ((h.whole cond errors _ _ _ h₁.ahead hcond hopen).bind
        fun readCond s₂ h₂ => ?_)
      obtain ⟨h₂, hreadCond⟩ := h₂
      refine (h.body onTrue errors s₂ _ _ h₂.ahead honTrue hnext).bind
        fun readTrue s₃ h₃ => ?_
      obtain ⟨h₃, hreadTrue⟩ := h₃
      have finish {readFalse : Option (List Stmt)} {first : Span} {s' : ParseState}
          (h : s'.At errors rest) (hread : Stmt.optionBare readFalse = Stmt.optionBare onFalse) :
          Ends succeeding (do
            let onFalse ← (Pure.pure readFalse : Parse (Option (List Stmt)))
            newStmt (fun node => .ifElse node readCond readTrue onFalse)
              (first.merge (← previousSpan))) s' fun read s'' =>
            s''.At errors rest ∧ read.bare = (Stmt.ifElse node cond onTrue onFalse).bare :=
        .next rfl (.next rfl (.of_eq rfl ⟨⟨h.ahead, h.free⟩, by
          rw [Stmt.bare, Stmt.bare, hreadCond, hreadTrue, hread]⟩))
      cases onFalse with
      | none =>
          rw [Stmt.elseLanguage] at helse
          obtain rfl := spells_one.mp helse
          refine .next (accept_ne (kind_of_follows h₃.ahead hrest)) ?_
          exact finish h₃ rfl
      | some body =>
          rw [Stmt.elseLanguage] at helse
          obtain ⟨afterElse, hmark, hbody⟩ := spells_mul.mp helse
          refine (take_accept h₃.ahead hmark (by decide)).bind fun found s₄ h₄ => ?_
          obtain ⟨hfound, h₄⟩ := h₄
          rw [hfound]
          rcases spells_add.mp hbody with hblock | hchained
          · have hkind : s₄.kind = .lbrace := kind_of_follows h₄.ahead (begins_block body _ _ hblock)
            refine .next (check_ne (by simp [hkind])) ?_
            refine (h.body body errors s₄ _ _ h₄.ahead hblock (hrest.mono fun _ _ => trivial)).bind
              fun read s₅ h₅ => ?_
            obtain ⟨h₅, hread⟩ := h₅
            exact finish h₅ (by rw [Stmt.optionBare, Stmt.optionBare, hread])
          · cases body with
            | nil =>
                rw [Stmt.chainedLanguage] at hchained
                exact absurd hchained not_spells_zero
            | cons first others =>
                rw [Stmt.chainedLanguage] at hchained
                obtain ⟨⟨hfirst, rfl⟩, hwords⟩ := spells_given.mp hchained
                have hkind : s₄.kind = .kwIf := kind_of_follows h₄.ahead (begins_ifElse hfirst _ _ hwords)
                refine .next (check_eq hkind) ?_
                refine (h.ifElse first hfirst errors s₄ _ _ h₄.ahead hwords hrest).bind
                  fun read s₅ h₅ => ?_
                obtain ⟨h₅, hread⟩ := h₅
                exact finish h₅ (by simp only [Stmt.optionBare, Stmt.listBare, hread])
  | _ => simp [Stmt.isConditional] at hconditional

end TakesAt

/-- Without a step left nothing is missed. -/
theorem takesAt_zero : TakesAt 0 where
  expr level e _ errors s tokens rest _ _ _ := by
    rw [Parse.expr]
    exact ends_spent trivial
  operand e errors s tokens rest _ _ _ := by
    rw [Parse.operand]
    exact ends_spent trivial
  prefixed node op inner errors s tokens rest _ _ _ := by
    rw [Parse.operand]
    exact ends_spent trivial
  primary e errors s tokens rest _ _ _ := by
    rw [Parse.primary]
    exact ends_spent trivial
  stmt stmt errors s tokens rest _ _ _ := by
    rw [Parse.stmt]
    exact ends_spent trivial
  ifElse stmt _ errors s tokens rest _ _ _ := by
    rw [Parse.ifElse]
    exact ends_spent trivial

theorem takesAt (bound : Nat) : TakesAt bound := by
  induction bound using Nat.strongRecOn with
  | ind bound ih =>
      cases bound with
      | zero => exact takesAt_zero
      | succ bound =>
          have h := ih bound (Nat.lt_succ_self _)
          exact ⟨TakesAt.expr_succ fun b hb => ih b (Nat.lt_succ_of_le hb), h.operand_succ,
            h.prefixed_succ, h.primary_succ, fun stmt _ _ _ _ => h.stmt_succ stmt, h.ifElse_succ⟩

/-- A step that neither fails nor runs out of its bound. -/
theorem Ends.succeeds {α : Type} {p : Parse α} {post : α → ParseState → Prop}
    (h : p.Ends succeeding s post) (hspent : p s ≠ .spent) : ∃ a s', p s = .ok a s' ∧ post a s' := by
  unfold Ends at h
  cases hp : p s with
  | ok a s' =>
      rw [hp] at h
      exact ⟨a, s', rfl, h⟩
  | failed s' =>
      rw [hp] at h
      exact h.elim
  | spent => exact absurd hp hspent

/-- In front of tokens that spell an expression and one that does not go on with it, the expression
is read, and nothing behind it. -/
theorem expr_spelled {next : Token} (hs : s.current :: s.ahead = tokens)
    (hspells : Spells e.whole tokens (next :: rest)) (hnext : Continuation.ofToken next.kind = none)
    (hbound : s.stepBound ≤ bound) :
    ∃ read s', Parse.expr .lowest bound s = .ok read s' ∧ read.bare = e.bare ∧
      s'.current = next ∧ s'.ahead = rest ∧ (next.IsValid → s'.errors = s.errors) := by
  have hahead : s.Ahead s.errors tokens := by
    rintro token later rfl
    obtain ⟨hcurrent, hlater⟩ := List.cons.inj hs
    exact ⟨hcurrent, hlater, fun _ => rfl⟩
  have hends := (takesAt bound).whole e s.errors s tokens (next :: rest) hahead hspells
    ⟨next, rest, rfl, hnext⟩
  obtain ⟨read, s', hrun, h', hread⟩ := hends.succeeds (expr_ne_spent .lowest hbound)
  exact ⟨read, s', hrun, hread, h'.ahead next rest rfl⟩

end Parse

/-- Parsing undoes writing. An expression that the grammar denotes can be written in its own words,
and an expression step in front of any tokens that say them, with a token behind them that does not
go on with an expression, reads exactly these tokens and builds the expression, up to numbers and
places. -/
theorem parsing_undoes_writing (e : Expr) (hdenoted : e.Denotable) :
    (∃ tokens : List Token, tokens.map Token.word? = e.words.map some) ∧
    ∀ (s : ParseState) (tokens rest : List Token) (next : Token) (bound : Nat),
      tokens.map Token.word? = e.words.map some →
      s.current :: s.ahead = tokens ++ next :: rest →
      Continuation.ofToken next.kind = none → s.stepBound ≤ bound →
      ∃ read s', Parse.expr .lowest bound s = .ok read s' ∧ read.bare = e.bare ∧
        s'.current = next ∧ s'.ahead = rest ∧ (next.IsValid → s'.errors = s.errors) := by
  obtain ⟨hwords, hsaid⟩ := e.writes.unplaced hdenoted
  constructor
  · exact exists_tokens hsaid
  · intro s tokens rest next bound htokens hs hnext hbound
    have hspells : Spells e.whole (tokens ++ next :: rest) (next :: rest) :=
      ⟨tokens, e.words, rfl, htokens, hwords⟩
    exact Parse.expr_spelled hs hspells hnext hbound

theorem parsing_undoes_writing_negated_sum :
    (Expr.unary .blank .neg (.binary .blank .add (.ident .blank "a") (.ident .blank "b"))).Denotable ∧
    ∃ read s',
      Parse.expr .lowest 64 (.start [⟨.minus, "-", .dummy⟩, ⟨.lparen, "(", .dummy⟩,
        ⟨.ident, "a", .dummy⟩, ⟨.plus, "+", .dummy⟩, ⟨.ident, "b", .dummy⟩, ⟨.rparen, ")", .dummy⟩,
        ⟨.semi, ";", .dummy⟩] {}) = .ok read s' ∧
      read.bare =
        .unary .blank .neg (.binary .blank .add (.ident .blank "a") (.ident .blank "b")) ∧
      s'.current = ⟨.semi, ";", .dummy⟩ ∧ s'.ahead = [] ∧ s'.errors = [] := by
  have hdenoted : (Expr.unary .blank .neg
      (.binary .blank .add (.ident .blank "a") (.ident .blank "b"))).Denotable := by
    refine ⟨[.mark .minus, .mark .lparen, .name "a", .mark .plus, .name "b", .mark .rparen], ?_, ?_⟩
    · have hname (name : String) : [Word.name name] ∈ (Expr.ident .blank name).language := by
        rw [Expr.language]
        exact .inl rfl
      have hsum : [.name "a"] ++ [.mark .plus] ++ [.name "b"] ∈
          (Expr.binary .blank .add (.ident .blank "a") (.ident .blank "b")).language := by
        rw [Expr.language]
        exact Language.append_mem_mul (Language.append_mem_mul (le_placed (by decide) (hname "a"))
          (mem_mark.mpr rfl)) (le_placed (by decide) (hname "b"))
      refine le_placed (Nat.zero_le _) ?_
      rw [Expr.language]
      exact Language.append_mem_mul (a := [.mark .minus]) (mem_mark.mpr rfl)
        (Fits.enclosed (Fits.bare (Nat.zero_le _) hsum))
    · simp only [List.forall_mem_cons]
      exact ⟨isSaid_mark rfl, isSaid_mark rfl, ⟨⟨.ident, "a", .dummy⟩, rfl⟩, isSaid_mark rfl,
        ⟨⟨.ident, "b", .dummy⟩, rfl⟩, isSaid_mark rfl, by simp⟩
  obtain ⟨read, s', hrun, hread, hcurrent, hahead, herrors⟩ := (parsing_undoes_writing _ hdenoted).2
    (.start [⟨.minus, "-", .dummy⟩, ⟨.lparen, "(", .dummy⟩, ⟨.ident, "a", .dummy⟩,
      ⟨.plus, "+", .dummy⟩, ⟨.ident, "b", .dummy⟩, ⟨.rparen, ")", .dummy⟩, ⟨.semi, ";", .dummy⟩] {})
    [⟨.minus, "-", .dummy⟩, ⟨.lparen, "(", .dummy⟩, ⟨.ident, "a", .dummy⟩,
      ⟨.plus, "+", .dummy⟩, ⟨.ident, "b", .dummy⟩, ⟨.rparen, ")", .dummy⟩] []
    ⟨.semi, ";", .dummy⟩ 64
    (by simp [Expr.words, fitted, Expr.rank, Expr.precedence, Token.word?, UnaryOp.mark, BinOp.mark,
      Precedence.rank, BinOp.precedence, Continuation.precedence]) rfl rfl (by decide)
  refine ⟨hdenoted, read, s', hrun, ?_, hcurrent, hahead, herrors ⟨by decide, by decide⟩⟩
  rw [hread]
  simp only [Expr.bare]

end Stela
