import Stela.Syntax.Parse
import Stela.Syntax.Literal

/-!
# Types, expressions and statements

Expressions are read by operator precedence: `expr bound level` reads the
longest expression whose operators bind tighter than `level`. Binary operators
group to the left, the conditional operator to the right. Each parsing step
takes a bound on the depth of the descent.
-/

namespace Stela

/-- How tightly an operator binds, loosest first. -/
inductive Precedence where
  | lowest | conditional | or | and | comparison | bitOr | bitXor | bitAnd
  | shift | term | factor | unary | call
deriving Repr, DecidableEq

namespace Precedence

def rank : Precedence → Nat
  | .lowest => 0
  | .conditional => 1
  | .or => 2
  | .and => 3
  | .comparison => 4
  | .bitOr => 5
  | .bitXor => 6
  | .bitAnd => 7
  | .shift => 8
  | .term => 9
  | .factor => 10
  | .unary => 11
  | .call => 12

end Precedence

/-- How a token continues an expression that stands before it. -/
inductive Continuation where
  | call | index | member | conditional
  | binary (op : BinOp)
deriving Repr, DecidableEq

namespace Continuation

/-- The continuation that a token starts. -/
def ofToken : TokenKind → Option Continuation
  | .lparen => some .call
  | .lbracket => some .index
  | .dot => some .member
  | .question => some .conditional
  | .plus => some (.binary .add)
  | .minus => some (.binary .sub)
  | .star => some (.binary .mul)
  | .slash => some (.binary .div)
  | .percent => some (.binary .rem)
  | .eqEq => some (.binary .eq)
  | .notEq => some (.binary .ne)
  | .lt => some (.binary .lt)
  | .ltEq => some (.binary .le)
  | .gt => some (.binary .gt)
  | .gtEq => some (.binary .ge)
  | .andAnd => some (.binary .and)
  | .orOr => some (.binary .or)
  | .amp => some (.binary .bitAnd)
  | .bar => some (.binary .bitOr)
  | .caret => some (.binary .bitXor)
  | .shl => some (.binary .shl)
  | .shr => some (.binary .shr)
  | _ => none

def precedence : Continuation → Precedence
  | .call | .index | .member => .call
  | .conditional => .conditional
  | .binary op =>
    match op with
    | .or => .or
    | .and => .and
    | .eq | .ne | .lt | .le | .gt | .ge => .comparison
    | .bitOr => .bitOr
    | .bitXor => .bitXor
    | .bitAnd => .bitAnd
    | .shl | .shr => .shift
    | .add | .sub => .term
    | .mul | .div | .rem => .factor

end Continuation

/-- The operator of an assignment that combines the old and the new value. -/
def BinOp.ofAssignment : TokenKind → Option BinOp
  | .plusEq => some .add
  | .minusEq => some .sub
  | .starEq => some .mul
  | .slashEq => some .div
  | .percentEq => some .rem
  | .ampEq => some .bitAnd
  | .barEq => some .bitOr
  | .caretEq => some .bitXor
  | .shlEq => some .shl
  | .shrEq => some .shr
  | _ => none

def UnaryOp.ofToken : TokenKind → Option UnaryOp
  | .minus => some .neg
  | .bang => some .not
  | .tilde => some .bitNot
  | _ => none

namespace Parse

/-- A name, a qualified name, an array type or a function type. -/
def typeExpr : Nat → Parse TypeExpr
  | 0 => spent
  | bound + 1 => do
    let first ← currentSpan
    let make ← match ← kind with
      | .ident => do
        let name ← ident
        if ← accept .dot then
          let inner ← ident
          pure fun node => TypeExpr.named node (some name) inner
        else pure fun node => TypeExpr.named node none name
      | .lbracket => do
        let _ ← advance
        let element ← typeExpr bound
        let _ ← expect .rbracket
        pure fun node => TypeExpr.array node element
      | .kwFunc => do
        let _ ← advance
        let _ ← expect .lparen
        let param : Parse TypeParam := do
          let byRef ← accept .kwRef
          let type ← typeExpr bound
          return ⟨if byRef then .reference else .value, type⟩
        let params ← commaList .rparen param bound
        let _ ← expect .rparen
        let ret ← optionalAfter .arrow (typeExpr bound)
        pure fun node => TypeExpr.func node params ret
      | _ => failHere .expectedType
    newType make (first.merge (← previousSpan))

/-- A parameter with its type. -/
def param (bound : Nat) : Parse Param := do
  let first ← currentSpan
  let mode ←
    if ← accept .kwRef then pure (Mutability.mutable, RefKind.reference)
    else do
      if ← accept .kwVar then pure (Mutability.mutable, RefKind.value)
      else pure (Mutability.fixed, RefKind.value)
  let name ← ident
  let _ ← expect .colon
  let type ← typeExpr bound
  return ⟨name, mode.1, mode.2, type, first.merge (← previousSpan)⟩

/-- Parameters in parentheses and an optional result type. -/
def signature (bound : Nat) : Parse Signature := do
  let _ ← expect .lparen
  let params ← commaList .rparen (param bound) bound
  let _ ← expect .rparen
  let ret ← optionalAfter .arrow (typeExpr bound)
  return ⟨params, ret⟩

/-- The body of a function, read by `block`; it cannot be left out. -/
def requiredBody (block : Parse (List Stmt)) : Parse (List Stmt) := do
  if ← check .lbrace then block else failHere fun _ => .missingFunctionBody

/-- A function declaration. After `extern` it has no body. -/
def funcDecl (block : Parse (List Stmt)) (bound : Nat) (funcKind : FuncKind) (access : Access) :
    Parse FuncDecl := do
  let s ← state
  let hosted := s.previous.kind == .kwExtern
  let first := if hosted then s.previous.span else s.current.span
  let _ ← expect .kwFunc
  let name ← ident
  let sig ← signature bound
  let body ←
    if hosted then do
      let _ ← expect .semi
      pure none
    else do
      let body ← requiredBody block
      pure (some body)
  newDecl .func (fun node => FuncDecl.mk node name sig body funcKind access)
    (first.merge (← previousSpan))

/-- A variable declaration; the current token is `let` or `var`. -/
def binding (expr : Parse Expr) (bound : Nat) : Parse Binding := do
  let mutability := if (← advance).kind == .kwVar then Mutability.mutable else .fixed
  let name ← ident
  let type ← optionalAfter .colon (typeExpr bound)
  let init ← optionalAfter .eq expr
  if type.isNone && init.isNone then failAt .untypedVariable name.span
  else
    let _ ← expect .semi
    return ⟨mutability, name, type, init⟩

/-- Statements up to a closing brace, which is not read. A statement that fails
is left out, and at least one token is passed for it. -/
def stmts (stmt : Parse Stmt) : Nat → Parse (List Stmt)
  | 0 => spent
  | bound + 1 => do
    let s ← state
    if s.kind == .rbrace || s.atEnd then return []
    match ← attempt stmt with
    | some first =>
      let rest ← stmts stmt bound
      return first :: rest
    | none =>
      if (← currentSpan).start == s.current.span.start then
        let _ ← advance
        stmts stmt bound
      else stmts stmt bound

/-- Statements in braces. -/
def block (stmt : Parse Stmt) (bound : Nat) : Parse (List Stmt) := do
  let _ ← expect .lbrace
  let body ← stmts stmt bound
  let _ ← expect .rbrace
  return body

/-- An expression used as a statement, or the target of an assignment. -/
def exprOrAssign (expr : Parse Expr) : Parse (Node → Stmt) := do
  let target ← expr
  let make ←
    if ← accept .eq then do
      let value ← expr
      pure fun node => Stmt.assign node target none value
    else
      match BinOp.ofAssignment (← kind) with
      | some op => do
        let _ ← advance
        let value ← expr
        pure fun node => Stmt.assign node target (some op) value
      | none => pure fun node => Stmt.expr node target
  let _ ← expect .semi
  return make

mutual

/-- An expression whose operators bind tighter than `level`. -/
def expr (level : Precedence) : Nat → Parse Expr
  | 0 => spent
  | bound + 1 => do
    let left ← operand bound
    exprRest level left bound

/-- Continues `left` by operators that bind tighter than `level`. -/
def exprRest (level : Precedence) (left : Expr) : Nat → Parse Expr
  | 0 => spent
  | bound + 1 => do
    match Continuation.ofToken (← kind) with
    | none => return left
    | some continuation =>
      if continuation.precedence.rank ≤ level.rank then return left
      else
        let _ ← advance
        let longer ← match continuation with
          | .call => do
            let args ← commaList .rparen (expr .lowest bound) bound
            let _ ← expect .rparen
            newExpr (fun node => .call node left args) (left.span.merge (← previousSpan))
          | .index => do
            let index ← expr .lowest bound
            let _ ← expect .rbracket
            newExpr (fun node => .index node left index) (left.span.merge (← previousSpan))
          | .member => do
            let name ← ident
            newExpr (fun node => .member node left name) (left.span.merge name.span)
          | .conditional => do
            let onTrue ← expr .lowest bound
            let _ ← expect .colon
            let onFalse ← expr .lowest bound
            newExpr (fun node => .ternary node left onTrue onFalse)
              (left.span.merge onFalse.span)
          | .binary op => do
            let right ← expr continuation.precedence bound
            newExpr (fun node => .binary node op left right) (left.span.merge right.span)
        exprRest level longer bound

/-- Prefix operators before a primary expression. -/
def operand : Nat → Parse Expr
  | 0 => spent
  | bound + 1 => do
    match UnaryOp.ofToken (← kind) with
    | some op =>
      let first ← advance
      let inner ← expr .unary bound
      newExpr (fun node => .unary node op inner) (first.span.merge inner.span)
    | none => primary bound

/-- A literal, a name, an array, a closure or an expression in parentheses. -/
def primary : Nat → Parse Expr
  | 0 => spent
  | bound + 1 => do
    let token := (← state).current
    let finish (make : Node → Expr) : Parse Expr := do
      newExpr make (token.span.merge (← previousSpan))
    match token.kind with
    | .intLit =>
      let _ ← advance
      let value ← literal (Literal.ofInteger token.text) token.span
      finish fun node => .literal node value
    | .realLit =>
      let _ ← advance
      finish fun node => .literal node (.real token.text)
    | .charLit =>
      let _ ← advance
      let value ← literal (Literal.ofCharacter token.text) token.span
      finish fun node => .literal node value
    | .stringLit =>
      let _ ← advance
      let value ← literal (Literal.ofString token.text) token.span
      finish fun node => .literal node value
    | .kwTrue =>
      let _ ← advance
      finish fun node => .literal node (.bool true)
    | .kwFalse =>
      let _ ← advance
      finish fun node => .literal node (.bool false)
    | .ident =>
      let name ← ident
      finish fun node => .ident node name.name
    | .kwSelf =>
      let _ ← advance
      finish fun node => .ident node "self"
    | .lparen =>
      let _ ← advance
      let inner ← expr .lowest bound
      let _ ← expect .rparen
      return inner
    | .lbracket =>
      let _ ← advance
      let elements ← commaList .rbracket (expr .lowest bound) bound
      let _ ← expect .rbracket
      finish fun node => .array node elements
    | .kwFunc =>
      let _ ← advance
      let sig ← signature bound
      let body ← requiredBody (block (stmt bound) bound)
      finish fun node => .closure node sig body
    | _ => failHere .expectedExpression

def stmt : Nat → Parse Stmt
  | 0 => spent
  | bound + 1 => do
    let first ← currentSpan
    let finish (make : Node → Stmt) : Parse Stmt := do
      newStmt make (first.merge (← previousSpan))
    match ← kind with
    | .kwLet | .kwVar =>
      let local' ← binding (expr .lowest bound) bound
      finish fun node => .bind node local'
    | .kwIf => ifElse bound
    | .kwWhile =>
      let _ ← advance
      let cond ← expr .lowest bound
      let body ← block (stmt bound) bound
      finish fun node => .whileLoop node cond body
    | .kwReturn =>
      let _ ← advance
      let value ←
        if ← check .semi then pure none
        else do
          let value ← expr .lowest bound
          pure (some value)
      let _ ← expect .semi
      finish fun node => .ret node value
    | .kwBreak =>
      let _ ← advance
      let _ ← expect .semi
      finish fun node => .breakLoop node
    | .kwContinue =>
      let _ ← advance
      let _ ← expect .semi
      finish fun node => .continueLoop node
    | .lbrace =>
      let body ← block (stmt bound) bound
      finish fun node => .block node body
    | .kwFunc =>
      -- With a name it is a declaration, without one a closure.
      if ← checkNext .ident then
        let decl ← funcDecl (block (stmt bound) bound) bound .free .everyone
        finish fun node => .func node decl
      else
        let make ← exprOrAssign (expr .lowest bound)
        finish make
    | _ =>
      let make ← exprOrAssign (expr .lowest bound)
      finish make

/-- A conditional; the current token is `if`. A chained conditional is the only
statement of the other branch. -/
def ifElse : Nat → Parse Stmt
  | 0 => spent
  | bound + 1 => do
    let first ← advance
    let cond ← expr .lowest bound
    let onTrue ← block (stmt bound) bound
    let onFalse ←
      if ← accept .kwElse then
        if ← check .kwIf then do
          let chained ← ifElse bound
          pure (some [chained])
        else do
          let body ← block (stmt bound) bound
          pure (some body)
      else pure none
    newStmt (fun node => .ifElse node cond onTrue onFalse)
      (first.span.merge (← previousSpan))

end

end Parse

end Stela
