import Mathlib.Algebra.Group.Nat.Defs
import Stela.Proofs.Syntax.Occurrences
import Stela.Proofs.Syntax.Outcomes
import Stela.Types.Table

/-!
# Parameters and integers as they are read

A parameter is mutable if it is written with `var` or passed by reference, so
wherever the parser reads the parameters of a function or closure, those that
are passed by reference are mutable. The number of an integer literal fits the
bits of the type that its suffix names, and nothing is asked about its sign.
-/

namespace Stela

/-- The parameters that are variables in the body of a closure or function. -/
def Occurrence.params : Occurrence → List Param
  | .expr (.closure _ sig _) => sig.params
  | .func decl => match decl.body with
    | some _ => decl.sig.params
    | none => []
  | .expr _ => []

/-- Parameters that are passed by reference are mutable. -/
def Passing (params : List Param) : Prop :=
  ∀ param ∈ params, param.passing = .reference → param.mutability = .mutable

theorem passing_nil : Passing [] := fun _ hparam => nomatch hparam

/-- In all closures and functions, parameters that are passed by reference are mutable. -/
def AllPassing (items : List Occurrence) : Prop := ∀ item ∈ items, Passing item.params

/-- The type that the suffix of an integer literal names. -/
def IntSuffix.type : IntSuffix → Builtin
  | .plain => .sint
  | .uint => .uint
  | .byte => .byte

/-- The type that a literal has by its form. -/
def Literal.ty : Literal → Ty
  | .int _ suffix => .builtin suffix.type
  | .real _ => .builtin .real
  | .char _ => .builtin .char
  | .bool _ => .builtin .bool
  | .str _ => .array Builtin.char.typeId

/-- The number of an integer fits, without a sign, the bits of its type. -/
def Literal.InRange : Literal → Prop
  | .int n suffix => n.toNat < 2 ^ (8 * suffix.type.size.toNat)
  | _ => True

/-- Only a byte has less than 64 bits. -/
theorem Literal.inRange_int {n : UInt64} {suffix : IntSuffix}
    (hbyte : suffix = .byte → n.toNat < 256) : (Literal.int n suffix).InRange := by
  cases suffix with
  | plain | uint => exact n.toNat_lt
  | byte => exact hbyte rfl

theorem Literal.inRange_ofInteger {text : String} {value : Literal} (h : ofInteger text = .ok value) :
    value.InRange := by
  unfold ofInteger at h
  dsimp only at h
  split at h
  · cases h
  · split at h
    · cases h
    · next n _ hsize =>
      split at h
      · cases h
      · next hbyte =>
        cases h
        have hn : (UInt64.ofNat n).toNat = n := UInt64.toNat_ofNat_of_lt (Nat.not_le.mp hsize)
        exact inRange_int fun heq => hn.symm ▸ Nat.not_le.mp fun hle => hbyte ⟨heq, hle⟩

theorem Literal.inRange_ofCharacter {text : String} {value : Literal}
    (h : ofCharacter text = .ok value) : value.InRange := by
  unfold ofCharacter at h
  split at h <;> cases h
  trivial

theorem Literal.inRange_ofString {text : String} {value : Literal} (h : ofString text = .ok value) :
    value.InRange := by
  unfold ofString at h
  split at h <;> cases h
  trivial

/-- An expression or function with the integer that it is, or the parameters that it has, as they are
read. -/
def Occurrence.WellFormed : Occurrence → Prop
  | .expr (.literal _ value) => value.InRange
  | item => Passing item.params

theorem Occurrence.WellFormed.passing {item : Occurrence} (h : item.WellFormed) :
    Passing item.params := by
  unfold Occurrence.WellFormed at h
  split at h
  · exact passing_nil
  · exact h

/-- All integers are in range, and all parameters that are passed by reference are mutable. -/
def AllFormed (items : List Occurrence) : Prop := ∀ item ∈ items, item.WellFormed

namespace AllFormed

variable {items items' : List Occurrence} {e : Expr}

theorem nil : AllFormed [] := List.forall_mem_nil _

theorem append (h : AllFormed items) (h' : AllFormed items') :
    AllFormed (items ++ items') :=
  List.forall_mem_append.mpr ⟨h, h'⟩

theorem push (h : AllFormed items) (he : (Occurrence.expr e).WellFormed) :
    AllFormed (items ++ [.expr e]) :=
  h.append (List.forall_mem_singleton.mpr he)

theorem passing (h : AllFormed items) : AllPassing items := fun item hitem => (h item hitem).passing

end AllFormed

theorem Expr.formed_listItems {exprs : List Expr} (h : ∀ e ∈ exprs, AllFormed e.items) :
    AllFormed (Expr.listItems exprs) := by
  induction exprs with
  | nil => exact .nil
  | cons first rest ih =>
      obtain ⟨hfirst, hrest⟩ := List.forall_mem_cons.mp h
      exact hfirst.append (ih hrest)

theorem Expr.formed_optionItems {expr : Option Expr} (h : ∀ e ∈ expr, AllFormed e.items) :
    AllFormed (Expr.optionItems expr) := by
  cases expr with
  | none => exact .nil
  | some e => exact h e rfl

theorem Stmt.formed_listItems {stmts : List Stmt} (h : ∀ stmt ∈ stmts, AllFormed stmt.items) :
    AllFormed (Stmt.listItems stmts) := by
  induction stmts with
  | nil => exact .nil
  | cons first rest ih =>
      obtain ⟨hfirst, hrest⟩ := List.forall_mem_cons.mp h
      exact hfirst.append (ih hrest)

theorem Stmt.formed_optionItems {body : Option (List Stmt)}
    (h : ∀ stmts ∈ body, ∀ stmt ∈ stmts, AllFormed stmt.items) :
    AllFormed (Stmt.optionItems body) := by
  cases body with
  | none => exact .nil
  | some stmts => exact Stmt.formed_listItems (h stmts rfl)

theorem FuncDecl.formed_items {decl : FuncDecl} (hsig : Passing decl.sig.params)
    (hbody : ∀ stmts ∈ decl.body, ∀ stmt ∈ stmts, AllFormed stmt.items) : AllFormed decl.items := by
  rw [FuncDecl.items_eq]
  refine (Stmt.formed_optionItems hbody).append (List.forall_mem_singleton.mpr ?_)
  cases hsome : decl.body with
  | none => simp [Occurrence.WellFormed, Occurrence.params, hsome, passing_nil]
  | some stmts => simpa only [Occurrence.WellFormed, Occurrence.params, hsome] using hsig

/-- What a struct declares, by its members. -/
def Member.items : Member → List Occurrence
  | .func decl => decl.items
  | .field _ => []

theorem Decl.formed_structType {node : Node} {name : Ident} {members : List Member}
    (h : ∀ member ∈ members, AllFormed member.items) :
    AllFormed (Decl.structType node name members).items := by
  intro item hitem
  obtain ⟨member, hmember, hitem⟩ := List.mem_flatMap.mp hitem
  refine h member hmember item ?_
  cases member <;> exact hitem

namespace Parse

variable {α β : Type} {p : Parse α} {f : α → Parse β} {P : α → Prop} {Q : β → Prop}

/-! ## What a step reads -/

/-- Whatever the step reads with success is as `post` says. -/
def Reads (p : Parse α) (post : α → Prop) : Prop := ∀ s a s', p s = .ok a s' → post a

theorem reads_pure {a : α} (h : P a) : Reads (pure a) P := by
  intro s a' s' heq
  cases heq
  exact h

theorem Reads.bind (h : Reads p P) (hf : ∀ a, P a → Reads (f a) Q) : Reads (p >>= f) Q := by
  intro s b s' heq
  change Parse.bind p f s = .ok b s' at heq
  unfold Parse.bind at heq
  cases hp : p s with
  | ok a s₁ =>
      rw [hp] at heq
      exact hf a (h s a s₁ hp) s₁ b s' heq
  | failed s₁ =>
      rw [hp] at heq
      cases heq
  | spent =>
      rw [hp] at heq
      cases heq

/-- A value that is at hand is what the next step gets. -/
theorem Reads.pure_bind {a : α} (h : Reads (f a) Q) : Reads ((pure a : Parse α) >>= f) Q := h

/-- A step after one that reads nothing of interest. -/
theorem Reads.after (hf : ∀ a, Reads (f a) Q) : Reads (p >>= f) Q :=
  Reads.bind (P := fun _ => True) (fun _ _ _ _ => trivial) fun a _ => hf a

theorem reads_failAt {error : SyntaxError} {span : Span} : Reads (failAt error span : Parse α) P := by
  intro s a s' heq
  cases heq

theorem reads_failHere {error : TokenKind → SyntaxError} : Reads (failHere error : Parse α) P := by
  intro s a s' heq
  cases heq

theorem reads_spent : Reads (spent : Parse α) P := by
  intro s a s' heq
  cases heq

theorem reads_literal {value : Except SyntaxError α} {span : Span} (h : ∀ a, value = .ok a → P a) :
    Reads (literal value span) P := by
  intro s a s' heq
  cases value with
  | ok a => exact reads_pure (h a rfl) s _ s' heq
  | error error => cases heq

theorem reads_newExpr {make : Node → Expr} {span : Span} {post : Expr → Prop}
    (h : ∀ node, post (make node)) : Reads (newExpr make span) post := by
  intro s a s' heq
  cases heq
  exact h _

theorem reads_newStmt {make : Node → Stmt} {span : Span} {post : Stmt → Prop}
    (h : ∀ node, post (make node)) : Reads (newStmt make span) post := by
  intro s a s' heq
  cases heq
  exact h _

theorem reads_newDecl {entry : α → Decl} {make : Node → α} {span : Span} (h : ∀ node, P (make node)) :
    Reads (newDecl entry make span) P := by
  intro s a s' heq
  cases heq
  exact h _

/-! ## Lists and options -/

theorem reads_commaList {close : TokenKind} (hp : Reads p P) (bound : Nat) :
    Reads (commaList close p bound) fun items => ∀ a ∈ items, P a := by
  induction bound with
  | zero => exact reads_spent
  | succ bound ih =>
      refine .after fun closed => ?_
      split
      · exact reads_pure (List.forall_mem_nil _)
      · refine hp.bind fun first hfirst => .after fun more => ?_
        split
        · exact ih.bind fun rest hrest => reads_pure (List.forall_mem_cons.mpr ⟨hfirst, hrest⟩)
        · exact reads_pure (List.forall_mem_singleton.mpr hfirst)

theorem reads_optionalAfter {mark : TokenKind} (hp : Reads p P) :
    Reads (optionalAfter mark p) fun value => ∀ a ∈ value, P a := by
  refine .after fun marked => ?_
  split
  · exact hp.bind fun value hvalue => reads_pure (by simpa using hvalue)
  · exact reads_pure (by simp)

theorem reads_attempt (hp : Reads p P) : Reads (attempt p) fun value => ∀ a ∈ value, P a := by
  intro s value s' heq
  unfold attempt at heq
  split at heq
  · next a s₁ hrun =>
    obtain ⟨rfl, rfl⟩ := ParseResult.ok.inj heq
    simpa using hp s a _ hrun
  · cases heq
    simp
  · cases heq

/-! ## Expressions, statements and declarations -/

/-- Only `ref` marks a parameter that is passed by reference, and it makes it mutable. -/
theorem reads_param (bound : Nat) :
    Reads (param bound) fun param => param.passing = .reference → param.mutability = .mutable := by
  refine .after fun first => .after fun byRef => ?_
  have finish {mode : Mutability × RefKind} (h : mode.2 = .reference → mode.1 = .mutable) : Reads (do
      let mode ← (Pure.pure mode : Parse (Mutability × RefKind))
      let name ← ident
      let _ ← expect .colon
      let type ← typeExpr bound
      return (⟨name, mode.1, mode.2, type, first.merge (← previousSpan)⟩ : Param))
      fun param => param.passing = .reference → param.mutability = .mutable :=
    .pure_bind <| .after fun name => .after fun _ => .after fun type => .after fun last =>
      reads_pure h
  dsimp only
  split
  · exact finish fun _ => rfl
  · refine .after fun isVar => ?_
    split
    · exact finish fun h => absurd h (by simp)
    · exact finish fun h => absurd h (by simp)

theorem reads_signature (bound : Nat) : Reads (signature bound) fun sig => Passing sig.params :=
  .after fun _ => (reads_commaList (reads_param bound) bound).bind fun _ hparams => .after fun _ =>
    .after fun _ => reads_pure hparams

theorem reads_binding {e : Parse Expr} (he : Reads e fun e => AllFormed e.items) (bound : Nat) :
    Reads (binding e bound) fun binding => AllFormed binding.items := by
  refine .after fun token => .after fun name => .after fun type =>
    (reads_optionalAfter he).bind fun init hinit => ?_
  split
  · exact reads_failAt
  · refine .after fun _ => reads_pure ?_
    rw [Binding.items_eq]
    exact Expr.formed_optionItems hinit

theorem reads_stmts {stmt : Parse Stmt} (hstmt : Reads stmt fun stmt => AllFormed stmt.items)
    (bound : Nat) : Reads (stmts stmt bound) fun body => ∀ stmt ∈ body, AllFormed stmt.items := by
  induction bound with
  | zero => exact reads_spent
  | succ bound ih =>
      refine .after fun start => ?_
      split
      · exact reads_pure (List.forall_mem_nil _)
      · refine (reads_attempt hstmt).bind fun first hfirst => ?_
        split
        · exact ih.bind fun rest hrest =>
            reads_pure (List.forall_mem_cons.mpr ⟨hfirst _ rfl, hrest⟩)
        · refine .after fun span => ?_
          split
          · exact .after fun _ => ih
          · exact ih

theorem reads_block {stmt : Parse Stmt} (hstmt : Reads stmt fun stmt => AllFormed stmt.items)
    (bound : Nat) : Reads (block stmt bound) fun body => ∀ stmt ∈ body, AllFormed stmt.items :=
  .after fun _ => (reads_stmts hstmt bound).bind fun _ hbody => .after fun _ => reads_pure hbody

theorem reads_requiredBody {block : Parse (List Stmt)} {post : List Stmt → Prop}
    (hblock : Reads block post) : Reads (requiredBody block) post := by
  refine .after fun found => ?_
  split
  · exact hblock
  · exact reads_failHere

theorem reads_funcDecl {block : Parse (List Stmt)}
    (hblock : Reads block fun body => ∀ stmt ∈ body, AllFormed stmt.items) (bound : Nat)
    (funcKind : FuncKind) (access : Access) :
    Reads (funcDecl block bound funcKind access) fun decl => AllFormed decl.items := by
  refine .after fun start => .after fun _ => .after fun name =>
    (reads_signature bound).bind fun sig hsig => ?_
  have finish (body : Option (List Stmt)) (span : Span)
      (hbody : ∀ stmts ∈ body, ∀ stmt ∈ stmts, AllFormed stmt.items) : Reads (do
      let body ← (Pure.pure body : Parse (Option (List Stmt)))
      newDecl .func (fun node => FuncDecl.mk node name sig body funcKind access)
        (span.merge (← previousSpan))) fun decl => AllFormed decl.items :=
    .pure_bind <| .after fun last =>
      reads_newDecl fun node => FuncDecl.formed_items hsig hbody
  dsimp only
  split
  · exact .after fun _ => finish none _ (by simp)
  · exact (reads_requiredBody hblock).bind fun body hbody => finish (some body) _ (by simpa using hbody)

theorem reads_exprOrAssign {e : Parse Expr} (he : Reads e fun e => AllFormed e.items) :
    Reads (exprOrAssign e) fun make => ∀ node, AllFormed (make node).items := by
  refine he.bind fun target htarget => .after fun isPlain => ?_
  have finish {make : Node → Stmt} (hmake : ∀ node, AllFormed (make node).items) : Reads (do
      let make ← (Pure.pure make : Parse (Node → Stmt))
      let _ ← expect .semi
      return make) fun make => ∀ node, AllFormed (make node).items :=
    .pure_bind <| .after fun _ => reads_pure hmake
  have assign (op : Option BinOp) : Reads (do
      let value ← e
      let make ← (Pure.pure fun node => Stmt.assign node target op value : Parse (Node → Stmt))
      let _ ← expect .semi
      return make) fun make => ∀ node, AllFormed (make node).items :=
    he.bind fun value hvalue => finish fun node => htarget.append hvalue
  dsimp only
  split
  · exact assign none
  · refine .after fun kind => ?_
    split
    · exact .after fun _ => assign _
    · exact finish fun node => htarget

/-- What the steps that descend into expressions and statements read, down to a bound. -/
structure ReadsAt (bound : Nat) : Prop where
  expr : ∀ level, Reads (expr level bound) fun e => AllFormed e.items
  exprRest : ∀ level left, AllFormed left.items →
    Reads (exprRest level left bound) fun e => AllFormed e.items
  operand : Reads (operand bound) fun e => AllFormed e.items
  primary : Reads (primary bound) fun e => AllFormed e.items
  stmt : Reads (stmt bound) fun stmt => AllFormed stmt.items
  ifElse : Reads (ifElse bound) fun stmt => AllFormed stmt.items

namespace ReadsAt

variable {bound : Nat} (h : ReadsAt bound)

include h

theorem exprRest_succ (level : Precedence) (left : Expr) (hleft : AllFormed left.items) :
    Reads (Parse.exprRest level left (bound + 1)) fun e => AllFormed e.items := by
  rw [Parse.exprRest]
  refine .after fun kind => ?_
  have finish {make : Node → Expr} {span : Span} (hmake : ∀ node, AllFormed (make node).items) :
      Reads (do
        let longer ← newExpr make span
        Parse.exprRest level longer bound) fun e => AllFormed e.items :=
    (reads_newExpr hmake).bind fun longer hlonger => h.exprRest level longer hlonger
  split
  · exact reads_pure hleft
  · split
    · exact reads_pure hleft
    · refine .after fun _ => ?_
      dsimp only
      split
      · refine (reads_commaList (h.expr .lowest) bound).bind fun args hargs => .after fun _ =>
          .after fun last => finish fun node => ?_
        exact ((Expr.formed_listItems hargs).append hleft).push passing_nil
      · exact (h.expr .lowest).bind fun index hindex => .after fun _ => .after fun last =>
          finish fun node => (hleft.append hindex).push passing_nil
      · exact .after fun name => finish fun node => hleft.push passing_nil
      · exact (h.expr .lowest).bind fun onTrue hOnTrue => .after fun _ =>
          (h.expr .lowest).bind fun onFalse hOnFalse =>
            finish fun node => ((hleft.append hOnTrue).append hOnFalse).push passing_nil
      · exact (h.expr _).bind fun right hright => finish fun node => (hleft.append hright).push passing_nil

theorem expr_succ (level : Precedence) :
    Reads (Parse.expr level (bound + 1)) fun e => AllFormed e.items := by
  rw [Parse.expr]
  exact h.operand.bind fun left hleft => h.exprRest level left hleft

theorem operand_succ : Reads (Parse.operand (bound + 1)) fun e => AllFormed e.items := by
  rw [Parse.operand]
  refine .after fun kind => ?_
  split
  · exact .after fun first => (h.expr .unary).bind fun inner hinner =>
      reads_newExpr fun node => hinner.push passing_nil
  · exact h.primary

/-- The statements in a body, one level down. -/
theorem body : Reads (block (Parse.stmt bound) bound) fun body =>
    ∀ stmt ∈ body, AllFormed stmt.items := reads_block h.stmt bound

theorem primary_succ : Reads (Parse.primary (bound + 1)) fun e => AllFormed e.items := by
  rw [Parse.primary]
  refine .after fun start => ?_
  have finish {make : Node → Expr} {first : Span} (hmake : ∀ node, AllFormed (make node).items) :
      Reads (do newExpr make (first.merge (← previousSpan))) fun e => AllFormed e.items :=
    .after fun last => reads_newExpr hmake
  have leaf {value : Literal} {first : Span} (hvalue : value.InRange) :
      Reads (do newExpr (.literal · value) (first.merge (← previousSpan)))
        fun e => AllFormed e.items :=
    finish fun node => AllFormed.nil.push hvalue
  have name {name : String} {first : Span} :
      Reads (do newExpr (.ident · name) (first.merge (← previousSpan)))
        fun e => AllFormed e.items :=
    finish fun node => AllFormed.nil.push passing_nil
  dsimp only
  split
  · exact .after fun _ => (reads_literal fun _ => Literal.inRange_ofInteger).bind fun _ => leaf
  · exact .after fun _ => leaf trivial
  · exact .after fun _ => (reads_literal fun _ => Literal.inRange_ofCharacter).bind fun _ => leaf
  · exact .after fun _ => (reads_literal fun _ => Literal.inRange_ofString).bind fun _ => leaf
  · exact .after fun _ => leaf trivial
  · exact .after fun _ => leaf trivial
  · exact .after fun _ => name
  · exact .after fun _ => name
  · exact .after fun _ => (h.expr .lowest).bind fun inner hinner => .after fun _ => reads_pure hinner
  · exact .after fun _ => (reads_commaList (h.expr .lowest) bound).bind fun elements helements =>
      .after fun _ => finish fun node => (Expr.formed_listItems helements).push passing_nil
  · refine .after fun _ => (reads_signature bound).bind fun sig hsig =>
      (reads_requiredBody h.body).bind fun body hbody => finish fun node => ?_
    exact (Stmt.formed_listItems hbody).append (List.forall_mem_singleton.mpr hsig)
  · exact reads_failHere

theorem ifElse_succ : Reads (Parse.ifElse (bound + 1)) fun stmt => AllFormed stmt.items := by
  rw [Parse.ifElse]
  refine .after fun first => (h.expr .lowest).bind fun cond hcond =>
    h.body.bind fun onTrue hOnTrue => ?_
  have finish {first : Span} (onFalse : Option (List Stmt))
      (hOnFalse : ∀ stmts ∈ onFalse, ∀ stmt ∈ stmts, AllFormed stmt.items) : Reads (do
      let onFalse ← (Pure.pure onFalse : Parse (Option (List Stmt)))
      newStmt (fun node => .ifElse node cond onTrue onFalse) (first.merge (← previousSpan)))
      fun stmt => AllFormed stmt.items :=
    .pure_bind <| .after fun last => reads_newStmt fun node =>
      (hcond.append (Stmt.formed_listItems hOnTrue)).append (Stmt.formed_optionItems hOnFalse)
  refine .after fun hasElse => ?_
  split
  · refine .after fun isIf => ?_
    split
    · exact h.ifElse.bind fun chained hchained => finish (some [chained]) (by simpa using hchained)
    · exact h.body.bind fun body hbody => finish (some body) (by simpa using hbody)
  · exact finish none (by simp)

theorem stmt_succ : Reads (Parse.stmt (bound + 1)) fun stmt => AllFormed stmt.items := by
  rw [Parse.stmt]
  refine .after fun first => .after fun kind => ?_
  have finish {make : Node → Stmt} (hmake : ∀ node, AllFormed (make node).items) : Reads (do
      newStmt make (first.merge (← previousSpan))) fun stmt => AllFormed stmt.items :=
    .after fun last => reads_newStmt hmake
  have assignment : Reads (do
      let make ← exprOrAssign (Parse.expr .lowest bound)
      newStmt make (first.merge (← previousSpan))) fun stmt => AllFormed stmt.items :=
    (reads_exprOrAssign (h.expr .lowest)).bind fun make hmake => finish hmake
  split
  · exact (reads_binding (h.expr .lowest) bound).bind fun binding hbinding =>
      finish fun node => hbinding
  · exact (reads_binding (h.expr .lowest) bound).bind fun binding hbinding =>
      finish fun node => hbinding
  · exact h.ifElse
  · exact .after fun _ => (h.expr .lowest).bind fun cond hcond => h.body.bind fun body hbody =>
      finish fun node => hcond.append (Stmt.formed_listItems hbody)
  · refine .after fun _ => .after fun bare => ?_
    have last {value : Option Expr} (hvalue : ∀ e ∈ value, AllFormed e.items) : Reads (do
        let value ← (Pure.pure value : Parse (Option Expr))
        let _ ← expect .semi
        newStmt (fun node => .ret node value) (first.merge (← previousSpan)))
        fun stmt => AllFormed stmt.items :=
      .pure_bind <| .after fun _ => finish fun node => Expr.formed_optionItems hvalue
    split
    · exact last (by simp)
    · exact (h.expr .lowest).bind fun value hvalue => last (by simpa using hvalue)
  · exact .after fun _ => .after fun _ => finish fun node => .nil
  · exact .after fun _ => .after fun _ => finish fun node => .nil
  · exact h.body.bind fun body hbody => finish fun node => Stmt.formed_listItems hbody
  · refine .after fun named => ?_
    split
    · exact (reads_funcDecl h.body bound .free .everyone).bind fun decl hdecl =>
        finish fun node => hdecl
    · exact assignment
  · exact assignment

end ReadsAt

theorem readsAt (bound : Nat) : ReadsAt bound := by
  induction bound with
  | zero =>
      exact ⟨fun _ => reads_spent, fun _ _ _ => reads_spent, reads_spent, reads_spent, reads_spent,
        reads_spent⟩
  | succ bound ih =>
      exact ⟨ih.expr_succ, ih.exprRest_succ, ih.operand_succ, ih.primary_succ, ih.stmt_succ,
        ih.ifElse_succ⟩

/-! ## Modules -/

theorem reads_member (bound : Nat) : Reads (member bound) fun member => AllFormed member.items := by
  refine .after fun isPrivate => ?_
  have finish (funcKind : FuncKind) (access : Access) : Reads (do
      let decl ← funcDecl (body bound) bound funcKind access
      return (.func decl : Member)) fun member => AllFormed member.items :=
    (reads_funcDecl (readsAt bound).body bound funcKind access).bind fun decl hdecl =>
      reads_pure hdecl
  refine .after fun kind => ?_
  split
  · exact .after fun _ => finish _ _
  · exact finish _ _
  · exact .after fun decl => reads_pure .nil
  · refine .after fun isFunc => ?_
    split
    · exact .after fun _ => finish _ _
    · exact reads_failHere
  · exact reads_failHere

theorem reads_members (bound n : Nat) :
    Reads (members bound n) fun members => ∀ member ∈ members, AllFormed member.items := by
  induction n with
  | zero => exact reads_spent
  | succ n ih =>
      refine .after fun start => ?_
      split
      · exact reads_pure (List.forall_mem_nil _)
      · exact (reads_member bound).bind fun first hfirst => ih.bind fun rest hrest =>
          reads_pure (List.forall_mem_cons.mpr ⟨hfirst, hrest⟩)

theorem reads_declaration (bound : Nat) :
    Reads (declaration bound) fun decl => AllFormed decl.items := by
  refine .after fun kind => ?_
  have func : Reads (do
      let decl ← funcDecl (body bound) bound .free .everyone
      return (.func decl : Decl)) fun decl => AllFormed decl.items :=
    (reads_funcDecl (readsAt bound).body bound .free .everyone).bind fun decl hdecl =>
      reads_pure hdecl
  have global : Reads (do
      let first ← currentSpan
      let global ← binding (expr .lowest bound) bound
      newDecl id (fun node => Decl.global node global) (first.merge (← previousSpan)))
      fun decl => AllFormed decl.items :=
    .after fun first => (reads_binding ((readsAt bound).expr .lowest) bound).bind
      fun binding hbinding => .after fun last => reads_newDecl fun node => hbinding
  split
  · exact func
  · refine .after fun _ => .after fun isFunc => ?_
    split
    · exact func
    · exact reads_failHere
  · exact .after fun first => .after fun name => .after fun _ =>
      (reads_members bound bound).bind fun members hmembers => .after fun _ => .after fun last =>
        reads_newDecl fun node => Decl.formed_structType hmembers
  · exact .after fun first => .after fun name => .after fun _ => .after fun cases => .after fun _ =>
      .after fun last => reads_newDecl fun node => .nil
  · exact .after fun first => .after fun name => .after fun weak => .after fun target =>
      .after fun _ => .after fun last => reads_newDecl fun node => .nil
  · exact global
  · exact global
  · exact reads_failHere
  · exact reads_failHere

theorem reads_declarations (bound n : Nat) :
    Reads (declarations bound n) fun decls => ∀ decl ∈ decls, AllFormed decl.items := by
  induction n with
  | zero => exact reads_spent
  | succ n ih =>
      refine .after fun start => ?_
      split
      · exact reads_pure (List.forall_mem_nil _)
      · refine (reads_attempt (reads_declaration bound)).bind fun first hfirst =>
          .after fun current => ?_
        split
        · exact .after fun _ => ih
        · split
          · exact ih.bind fun rest hrest =>
              reads_pure (List.forall_mem_cons.mpr ⟨hfirst _ rfl, hrest⟩)
          · exact .after fun _ => ih

theorem reads_moduleDecl (file : FileId) (defaultName : String) (bound : Nat) :
    Reads (moduleDecl file defaultName bound) fun m => AllFormed m.items :=
  .after fun name => .after fun imports => (reads_declarations bound bound).bind fun decls hdecls =>
    reads_pure fun item hitem => by
      obtain ⟨decl, hdecl, hitem⟩ := List.mem_flatMap.mp hitem
      exact hdecls decl hdecl item hitem

end Parse

/-- In a module that was read, integers are in range and parameters that are passed by reference are
mutable. -/
theorem formed_parseModule {source : String} {file : FileId} {defaultName : String}
    {nodes : NodeCount} {m : Module} (h : (parseModule source file defaultName nodes).1 = .ok m) :
    AllFormed m.items := by
  rw [parseModule, runParse_eq] at h
  dsimp only at h
  split at h
  · next value s hrun =>
    dsimp only at h
    split at h
    · cases h
      exact Parse.reads_moduleDecl file defaultName _ _ _ _ hrun
    · cases h
  · cases h
  · cases h

end Stela
