import Stela.Proofs.Syntax.Words
import Stela.Syntax.Module

/-!
# How trees are written

The language of a tree holds the sequences of words that write it. An expression
needs parentheses where it binds looser than its position requires, and may have
more of them. A list may end in a comma, and the other branch of a conditional
that is a conditional again may do without braces. A tree of no source, such as
a variable with neither type nor value, has no words.
-/

namespace Stela

namespace Phrase

/-- The language if the condition holds, and no words otherwise. -/
def given (condition : Prop) (L : Language Word) : Language Word := fun ws => condition ∧ ws ∈ L

@[simp] theorem mem_given {condition : Prop} {L : Language Word} {ws : List Word} :
    ws ∈ given condition L ↔ condition ∧ ws ∈ L := Iff.rfl

/-- How words that bind as tightly as `rank` may stand where `least` is required. -/
inductive Fits (rank : Nat) (L : Language Word) : Nat → List Word → Prop
  | bare {least : Nat} {ws : List Word} : least ≤ rank → ws ∈ L → Fits rank L least ws
  | enclosed {least : Nat} {ws : List Word} : Fits rank L 0 ws →
      Fits rank L least (.mark .lparen :: ws ++ [.mark .rparen])

/-- Words that bind as tightly as `rank`, with the parentheses that `least` requires and any more. -/
def placed (least rank : Nat) (L : Language Word) : Language Word := fun ws => Fits rank L least ws

variable {least least' rank : Nat} {L M : Language Word}

theorem given_of {condition : Prop} (h : condition) : given condition L = L := by
  ext ws
  simp [h]

theorem spells_given {condition : Prop} {tokens rest : List Token} :
    Spells (given condition L) tokens rest ↔ condition ∧ Spells L tokens rest := by
  constructor
  · rintro ⟨read, ws, htokens, hread, hcondition, hws⟩
    exact ⟨hcondition, read, ws, htokens, hread, hws⟩
  · rintro ⟨hcondition, read, ws, htokens, hread, hws⟩
    exact ⟨read, ws, htokens, hread, hcondition, hws⟩

theorem given_mono {condition condition' : Prop} (h : condition → condition') (hle : L ≤ M) :
    given condition L ≤ given condition' M := fun _ hws => ⟨h hws.1, hle hws.2⟩

theorem le_placed (h : least ≤ rank) : L ≤ placed least rank L := fun _ hws => .bare h hws

/-- Where less is required the same words do. -/
theorem placed_mono (h : least ≤ least') : placed least' rank L ≤ placed least rank L := by
  intro ws hws
  cases hws with
  | bare hrank hws => exact .bare (Nat.le_trans h hrank) hws
  | enclosed hws => exact .enclosed hws

/-- Words in parentheses do everywhere. -/
theorem parens_le_placed :
    mark .lparen * placed 0 rank L * mark .rparen ≤ placed least rank L := by
  intro ws hws
  obtain ⟨before, hbefore, last, hlast, rfl⟩ := Language.mem_mul.mp hws
  obtain ⟨first, hfirst, inner, hinner, rfl⟩ := Language.mem_mul.mp hbefore
  rw [mem_mark.mp hfirst, mem_mark.mp hlast]
  exact .enclosed hinner

/-- Words are placed as they are or in parentheses. -/
theorem spells_placed {tokens rest : List Token} :
    Spells (placed least rank L) tokens rest ↔
      least ≤ rank ∧ Spells L tokens rest ∨
        Spells (mark .lparen * placed 0 rank L * mark .rparen) tokens rest := by
  constructor
  · rintro ⟨read, ws, htokens, hread, hws⟩
    cases hws with
    | bare hrank hws => exact .inl ⟨hrank, read, ws, htokens, hread, hws⟩
    | @enclosed _ inner hinner =>
        refine .inr ⟨read, _, htokens, hread, Language.append_mem_mul ?_ rfl⟩
        exact Language.append_mem_mul (mem_mark.mpr rfl) hinner
  · rintro (⟨hrank, hspells⟩ | hspells)
    · exact hspells.mono (le_placed hrank)
    · exact hspells.mono parens_le_placed

end Phrase

open Phrase

/-! ## Marks of operators -/

namespace BinOp

/-- The mark of an operator between its operands. -/
def mark : BinOp → TokenKind
  | .add => .plus
  | .sub => .minus
  | .mul => .star
  | .div => .slash
  | .rem => .percent
  | .bitAnd => .amp
  | .bitOr => .bar
  | .bitXor => .caret
  | .shl => .shl
  | .shr => .shr
  | .and => .andAnd
  | .or => .orOr
  | .eq => .eqEq
  | .ne => .notEq
  | .lt => .lt
  | .le => .ltEq
  | .gt => .gt
  | .ge => .gtEq

/-- The mark of an assignment that combines by the operator. -/
def assignmentMark? : BinOp → Option TokenKind
  | .add => some .plusEq
  | .sub => some .minusEq
  | .mul => some .starEq
  | .div => some .slashEq
  | .rem => some .percentEq
  | .bitAnd => some .ampEq
  | .bitOr => some .barEq
  | .bitXor => some .caretEq
  | .shl => some .shlEq
  | .shr => some .shrEq
  | .and | .or | .eq | .ne | .lt | .le | .gt | .ge => none

/-- How tightly the operator binds. -/
def precedence (op : BinOp) : Precedence := (Continuation.binary op).precedence

theorem conditional_lt_precedence (op : BinOp) :
    Precedence.conditional.rank < op.precedence.rank := by
  cases op <;> decide

theorem precedence_lt_unary (op : BinOp) : op.precedence.rank < Precedence.unary.rank := by
  cases op <;> decide

theorem ofAssignment_iff {kind : TokenKind} {op : BinOp} :
    ofAssignment kind = some op ↔ op.assignmentMark? = some kind := by
  constructor
  · intro h
    cases kind <;> cases h <;> rfl
  · intro h
    cases op <;> cases h <;> rfl

end BinOp

/-- The mark of a prefix operator. -/
def UnaryOp.mark : UnaryOp → TokenKind
  | .neg => .minus
  | .not => .bang
  | .bitNot => .tilde

theorem UnaryOp.ofToken_iff {kind : TokenKind} {op : UnaryOp} :
    ofToken kind = some op ↔ op.mark = kind := by
  constructor
  · intro h
    cases kind <;> cases h <;> rfl
  · intro h
    cases op <;> cases h <;> rfl

/-- The rank of the expressions that are read with operators that bind tighter than a level. Behind
a prefix operator stands an operand that may have a prefix operator as well. -/
def Precedence.above (level : Precedence) : Nat := min (level.rank + 1) Precedence.unary.rank

namespace Continuation

/-- The mark that starts a continuation. -/
def mark : Continuation → TokenKind
  | .call => .lparen
  | .index => .lbracket
  | .member => .dot
  | .conditional => .question
  | .binary op => op.mark

/-- How tightly what stands in front of a continuation has to bind. -/
def least (continuation : Continuation) : Nat :=
  max (Precedence.conditional.rank + 1) continuation.precedence.rank

theorem ofToken_iff {kind : TokenKind} {continuation : Continuation} :
    ofToken kind = some continuation ↔ continuation.mark = kind := by
  constructor
  · intro h
    cases kind <;> cases h <;> rfl
  · intro h
    cases continuation with
    | binary op => cases op <;> cases h <;> rfl
    | _ =>
        cases h
        rfl

theorem isMark_mark (continuation : Continuation) : continuation.mark.isMark = true := by
  cases continuation with
  | binary op => cases op <;> rfl
  | _ => rfl

theorem mark_ne_extern (continuation : Continuation) : continuation.mark ≠ .kwExtern := by
  cases continuation with
  | binary op => cases op <;> decide
  | _ => decide

theorem precedence_pos (continuation : Continuation) : 0 < continuation.precedence.rank := by
  cases continuation with
  | binary op => exact Nat.zero_lt_of_lt op.conditional_lt_precedence
  | _ => decide

theorem least_le_call (continuation : Continuation) :
    continuation.least ≤ Precedence.call.rank := by
  cases continuation with
  | binary op => cases op <;> decide
  | _ => decide

/-- No operator that binds tighter than `rank` starts so. -/
def Loose (rank : Nat) (kind : TokenKind) : Prop :=
  ∀ continuation, ofToken kind = some continuation → continuation.precedence.rank ≤ rank

theorem Loose.mono {rank rank' : Nat} {kind : TokenKind} (h : Loose rank kind) (hle : rank ≤ rank') :
    Loose rank' kind := fun continuation hnext => Nat.le_trans (h continuation hnext) hle

/-- All operators bind tighter than the lowest rank. -/
theorem loose_zero_iff {kind : TokenKind} : Loose 0 kind ↔ ofToken kind = none := by
  constructor
  · intro h
    cases hnext : ofToken kind with
    | none => rfl
    | some continuation =>
        have hzero := h continuation hnext
        have hpos := continuation.precedence_pos
        omega
  · intro hnone continuation hnext
    simp [hnone] at hnext

end Continuation

/-! ## Types and parameters -/

def RefKind.language : RefKind → Language Word
  | .value => 1
  | .reference => mark .kwRef

mutual

def TypeExpr.language : TypeExpr → Language Word
  | .named _ none name => word (.name name.name)
  | .named _ (some qualifier) name =>
    word (.name qualifier.name) * mark .dot * word (.name name.name)
  | .array _ element => mark .lbracket * element.language * mark .rbracket
  | .func _ params ret =>
    mark .kwFunc * mark .lparen * commas (TypeParam.languages params) *
      mark .rparen * behind .arrow (TypeExpr.optionLanguage ret)

def TypeExpr.optionLanguage : Option TypeExpr → Option (Language Word)
  | none => none
  | some type => some type.language

def TypeParam.language : TypeParam → Language Word
  | ⟨passing, type⟩ => passing.language * type.language

def TypeParam.languages : List TypeParam → List (Language Word)
  | [] => []
  | first :: rest => first.language :: TypeParam.languages rest

end

theorem TypeExpr.optionLanguage_eq_map (type : Option TypeExpr) :
    TypeExpr.optionLanguage type = type.map TypeExpr.language := by
  cases type <;> rfl

theorem TypeParam.languages_eq_map (params : List TypeParam) :
    TypeParam.languages params = params.map TypeParam.language := by
  induction params with
  | nil => rfl
  | cons first rest ih => rw [TypeParam.languages, ih, List.map_cons]

/-- The mark in front of a parameter. A parameter that is passed by reference is mutable. -/
def Param.modeLanguage : Mutability × RefKind → Language Word
  | (.mutable, .reference) => mark .kwRef
  | (.mutable, .value) => mark .kwVar
  | (.fixed, .value) => 1
  | (.fixed, .reference) => 0

def Param.language (param : Param) : Language Word :=
  Param.modeLanguage (param.mutability, param.passing) * word (.name param.name.name) *
    mark .colon * param.type.language

def Signature.language (sig : Signature) : Language Word :=
  mark .lparen * commas (sig.params.map Param.language) * mark .rparen *
    behind .arrow (sig.ret.map TypeExpr.language)

/-! ## Expressions and statements -/

def Literal.language : Literal → Language Word
  | .bool true => mark .kwTrue
  | .bool false => mark .kwFalse
  | value => word (.literal value)

/-- Truth values are marks, so no token says one as a literal. -/
theorem Token.word?_ne_bool (t : Token) (value : Bool) : t.word? ≠ some (.literal (.bool value)) := by
  intro h
  unfold Token.word? at h
  split at h
  · cases h
  · unfold Literal.ofInteger at h
    dsimp only at h
    split at h
    · cases h
    · split at h
      · cases h
      · split at h <;> cases h
  · cases h
  · unfold Literal.ofCharacter at h
    split at h <;> cases h
  · unfold Literal.ofString at h
    split at h <;> cases h
  · cases h
  · cases h
  · cases h
  · cases h

theorem Literal.language_of_word? {t : Token} {value : Literal}
    (h : t.word? = some (.literal value)) : value.language = word (.literal value) := by
  cases value with
  | bool value => exact absurd h (t.word?_ne_bool value)
  | _ => rfl

def Mutability.language : Mutability → Language Word
  | .fixed => mark .kwLet
  | .mutable => mark .kwVar

/-- The mark of an assignment. -/
def assignmentLanguage : Option BinOp → Language Word
  | none => mark .eq
  | some op =>
    match op.assignmentMark? with
    | some kind => mark kind
    | none => 0

def Expr.precedence : Expr → Precedence
  | .ternary .. => .conditional
  | .binary _ op .. => op.precedence
  | .unary .. => .unary
  | _ => .call

/-- How tightly an expression binds. -/
def Expr.rank (e : Expr) : Nat := e.precedence.rank

def Stmt.isConditional : Stmt → Bool
  | .ifElse .. => true
  | _ => false

mutual

/-- The words of an expression without parentheses around it. -/
def Expr.language : Expr → Language Word
  | .literal _ value => value.language
  | .ident _ name => word (.name name) + given (name = "self") (mark .kwSelf)
  | .member _ object name =>
    placed Precedence.call.rank object.rank object.language * mark .dot *
      word (.name name.name)
  | .call _ callee args =>
    placed Precedence.call.rank callee.rank callee.language * mark .lparen *
      commas (Expr.languages args) * mark .rparen
  | .index _ base index =>
    placed Precedence.call.rank base.rank base.language * mark .lbracket *
      placed 0 index.rank index.language * mark .rbracket
  | .unary _ op operand =>
    mark op.mark * placed Precedence.unary.rank operand.rank operand.language
  | .binary _ op lhs rhs =>
    placed op.precedence.rank lhs.rank lhs.language * mark op.mark *
      placed (op.precedence.rank + 1) rhs.rank rhs.language
  | .ternary _ cond onTrue onFalse =>
    placed (Precedence.conditional.rank + 1) cond.rank cond.language * mark .question *
      placed 0 onTrue.rank onTrue.language * mark .colon *
      placed 0 onFalse.rank onFalse.language
  | .array _ elements =>
    mark .lbracket * commas (Expr.languages elements) * mark .rbracket
  | .closure _ sig body => mark .kwFunc * sig.language * Stmt.blockLanguage body

/-- Expressions where any may stand. -/
def Expr.languages : List Expr → List (Language Word)
  | [] => []
  | first :: rest => placed 0 first.rank first.language :: Expr.languages rest

def Expr.optionLanguage : Option Expr → Option (Language Word)
  | none => none
  | some e => some (placed 0 e.rank e.language)

def Stmt.language : Stmt → Language Word
  | .bind _ binding => binding.language
  | .assign _ target op value =>
    placed 0 target.rank target.language * assignmentLanguage op *
      placed 0 value.rank value.language * mark .semi
  | .expr _ value => placed 0 value.rank value.language * mark .semi
  | .ifElse _ cond onTrue onFalse =>
    mark .kwIf * placed 0 cond.rank cond.language * Stmt.blockLanguage onTrue *
      Stmt.elseLanguage onFalse
  | .whileLoop _ cond body =>
    mark .kwWhile * placed 0 cond.rank cond.language * Stmt.blockLanguage body
  | .ret _ value =>
    mark .kwReturn * (Expr.optionLanguage value).getD 1 * mark .semi
  | .breakLoop _ => mark .kwBreak * mark .semi
  | .continueLoop _ => mark .kwContinue * mark .semi
  | .block _ body => Stmt.blockLanguage body
  | .func _ decl =>
    given (decl.body.isSome ∧ decl.kind = .free ∧ decl.access = .everyone) decl.language

def Stmt.sequence : List Stmt → Language Word
  | [] => 1
  | first :: rest => first.language * Stmt.sequence rest

def Stmt.blockLanguage (body : List Stmt) : Language Word :=
  mark .lbrace * Stmt.sequence body * mark .rbrace

def Stmt.elseLanguage : Option (List Stmt) → Language Word
  | none => 1
  | some body =>
    mark .kwElse * (Stmt.blockLanguage body + Stmt.chainedLanguage body)

/-- A conditional alone, without braces. -/
def Stmt.chainedLanguage : List Stmt → Language Word
  | [] => 0
  | first :: rest => given (first.isConditional ∧ rest = []) first.language

def Binding.language : Binding → Language Word
  | ⟨mutability, name, type, init⟩ =>
    given (type.isSome ∨ init.isSome) (mutability.language * word (.name name.name) *
      behind .colon (type.map TypeExpr.language) * behind .eq (Expr.optionLanguage init) *
      mark .semi)

/-- A function without the keywords in front of it; one without body is provided by the host. -/
def FuncDecl.language : FuncDecl → Language Word
  | ⟨_, name, sig, body, _, _⟩ =>
    mark .kwFunc * word (.name name.name) * sig.language * Stmt.optionLanguage body

def Stmt.optionLanguage : Option (List Stmt) → Language Word
  | none => mark .semi
  | some body => Stmt.blockLanguage body

end

/-- The words of an expression where any may stand. -/
def Expr.whole (e : Expr) : Language Word := placed 0 e.rank e.language

theorem Expr.languages_eq_map (exprs : List Expr) :
    Expr.languages exprs = exprs.map Expr.whole := by
  induction exprs with
  | nil => rw [Expr.languages, List.map_nil]
  | cons first rest ih => rw [Expr.languages, ih, List.map_cons, Expr.whole]

theorem Expr.optionLanguage_eq_map (expr : Option Expr) :
    Expr.optionLanguage expr = expr.map Expr.whole := by
  cases expr <;> rw [Expr.optionLanguage] <;> rfl

/-! ## Declarations and modules -/

def Access.language : Access → Language Word
  | .everyone => 1
  | .ownerOnly => mark .kwPrivate

def FieldDecl.language (decl : FieldDecl) : Language Word :=
  decl.access.language * word (.name decl.name.name) * mark .colon * decl.type.language *
    mark .semi

/-- The mark of a member function. -/
def FuncKind.language : FuncKind → Language Word
  | .free => 0
  | .static => mark .kwStatic
  | .method .fixed => 1
  | .method .mutable => mark .kwVar

def Member.language : Member → Language Word
  | .field decl => decl.language
  | .func decl =>
    decl.access.language * decl.kind.language * given decl.body.isSome decl.language

/-- The number of an enum case. Zero may have a minus. -/
def EnumCase.valueLanguage (value : Int64) : Language Word :=
  (given (0 ≤ value.toInt) 1 + given (value.toInt ≤ 0) (mark .minus)) *
    word (.literal (.int (UInt64.ofNat value.toInt.natAbs) .plain))

def EnumCase.language (enumCase : EnumCase) : Language Word :=
  word (.name enumCase.name.name) * behind .eq (enumCase.value.map EnumCase.valueLanguage)

def Decl.language : Decl → Language Word
  | .func decl =>
    (if decl.body.isSome then 1 else mark .kwExtern) *
      given (decl.kind = .free ∧ decl.access = .everyone) decl.language
  | .structType _ name members =>
    mark .kwStruct * word (.name name.name) * mark .lbrace *
      (members.map Member.language).prod * mark .rbrace
  | .enumType _ name cases =>
    mark .kwEnum * word (.name name.name) * mark .lbrace *
      commas (cases.map EnumCase.language) * mark .rbrace
  | .aliasType _ name target strong =>
    mark .kwType * word (.name name.name) * (if strong then 1 else mark .eq) *
      target.language * mark .semi
  | .global _ binding => binding.language
  | .hostType .. => 0

def importLanguage (name : Ident) : Language Word :=
  mark .kwImport * word (.name name.name) * mark .semi

/-- The words of a module. A module named `unnamed` may do without a header. -/
def Module.language (unnamed : Ident) (m : Module) : Language Word :=
  (given (m.name = unnamed) 1 +
      mark .kwModule * word (.name m.name.name) * mark .semi) *
    (m.imports.map importLanguage).prod * (m.decls.map Decl.language).prod

end Stela
