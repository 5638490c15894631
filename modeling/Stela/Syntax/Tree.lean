import Stela.Source.Span

/-!
# Syntax trees

Modules, declarations, statements, expressions and type expressions as written.
Nodes of the four kinds that later stages speak about are numbered in the order
in which they were completed, each kind from zero on and on across all sources
of a session, so a subtree always has smaller numbers than the tree around it.
-/

namespace Stela

structure Ident where
  name : String
  span : Span
deriving Repr, DecidableEq, Inhabited

/-- The number and place of a node. -/
structure Node where
  id : Nat
  span : Span
deriving Repr, DecidableEq, Inhabited

/-- How many nodes of each kind exist. -/
structure NodeCount where
  exprs : Nat := 0
  stmts : Nat := 0
  decls : Nat := 0
  types : Nat := 0
deriving Repr, DecidableEq, Inhabited

/-- Whether a binding may be written through: `fixed` for `let`, `mutable` for `var`. -/
inductive Mutability where
  | fixed | mutable
deriving Repr, DecidableEq

/-- Whether something is a fresh value or denotes existing storage. -/
inductive RefKind where
  | value | reference
deriving Repr, DecidableEq

/-- Who may use a struct member. -/
inductive Access where
  | everyone | ownerOnly
deriving Repr, DecidableEq

inductive BinOp where
  | add | sub | mul | div | rem
  | bitAnd | bitOr | bitXor | shl | shr
  | and | or
  | eq | ne | lt | le | gt | ge
deriving Repr, DecidableEq

inductive UnaryOp where
  | neg | not | bitNot
deriving Repr, DecidableEq

inductive IntSuffix where
  | plain | uint | byte
deriving Repr, DecidableEq

inductive Literal where
  | int (value : UInt64) (suffix : IntSuffix)
  /-- A real literal, kept as it was written. -/
  | real (text : String)
  | char (value : Char)
  | bool (value : Bool)
  | str (value : String)
deriving Repr, DecidableEq

mutual

/-- A type as written. -/
inductive TypeExpr where
  /-- A name, possibly qualified by a module. -/
  | named (node : Node) (qualifier : Option Ident) (name : Ident)
  | array (node : Node) (element : TypeExpr)
  /-- A function type; without a result type it returns `void`. -/
  | func (node : Node) (params : List TypeParam) (ret : Option TypeExpr)

structure TypeParam where
  passing : RefKind
  type : TypeExpr

end

deriving instance Repr for TypeExpr, TypeParam

def TypeExpr.node : TypeExpr → Node
  | .named node .. => node
  | .array node .. => node
  | .func node .. => node

/-- A parameter of a function or closure. -/
structure Param where
  name : Ident
  mutability : Mutability
  passing : RefKind
  type : TypeExpr
  span : Span
deriving Repr

/-- Parameters and the annotated result type of a function or closure. -/
structure Signature where
  params : List Param
  ret : Option TypeExpr
deriving Repr

/-- How a function relates to an enclosing struct. -/
inductive FuncKind where
  | free
  /-- A member reached through the type name. -/
  | static
  /-- A member reached through a value, which it sees as `self`. -/
  | method (receiver : Mutability)
deriving Repr, DecidableEq

mutual

inductive Expr where
  | literal (node : Node) (value : Literal)
  | ident (node : Node) (name : String)
  | member (node : Node) (object : Expr) (name : Ident)
  | call (node : Node) (callee : Expr) (args : List Expr)
  | index (node : Node) (base : Expr) (index : Expr)
  | unary (node : Node) (op : UnaryOp) (operand : Expr)
  | binary (node : Node) (op : BinOp) (lhs : Expr) (rhs : Expr)
  | ternary (node : Node) (cond : Expr) (onTrue : Expr) (onFalse : Expr)
  | array (node : Node) (elements : List Expr)
  | closure (node : Node) (sig : Signature) (body : List Stmt)

inductive Stmt where
  | bind (node : Node) (binding : Binding)
  /-- A plain assignment, or one combined with an operator. -/
  | assign (node : Node) (target : Expr) (op : Option BinOp) (value : Expr)
  | expr (node : Node) (value : Expr)
  | ifElse (node : Node) (cond : Expr) (onTrue : List Stmt) (onFalse : Option (List Stmt))
  | whileLoop (node : Node) (cond : Expr) (body : List Stmt)
  | ret (node : Node) (value : Option Expr)
  | breakLoop (node : Node)
  | continueLoop (node : Node)
  | block (node : Node) (body : List Stmt)
  /-- A named function declared inside a body. -/
  | func (node : Node) (decl : FuncDecl)

/-- A variable declaration, in a body or at module level. -/
structure Binding where
  mutability : Mutability
  name : Ident
  type : Option TypeExpr
  init : Option Expr

structure FuncDecl where
  node : Node
  name : Ident
  sig : Signature
  /-- Absent for functions that the host provides. -/
  body : Option (List Stmt)
  kind : FuncKind
  access : Access

end

deriving instance Repr for Expr, Stmt, Binding, FuncDecl

def Expr.node : Expr → Node
  | .literal node .. => node
  | .ident node .. => node
  | .member node .. => node
  | .call node .. => node
  | .index node .. => node
  | .unary node .. => node
  | .binary node .. => node
  | .ternary node .. => node
  | .array node .. => node
  | .closure node .. => node

def Expr.id (e : Expr) : Nat := e.node.id

def Expr.span (e : Expr) : Span := e.node.span

def Stmt.node : Stmt → Node
  | .bind node .. => node
  | .assign node .. => node
  | .expr node .. => node
  | .ifElse node .. => node
  | .whileLoop node .. => node
  | .ret node .. => node
  | .breakLoop node => node
  | .continueLoop node => node
  | .block node .. => node
  | .func node .. => node

structure FieldDecl where
  name : Ident
  type : TypeExpr
  access : Access
  span : Span
deriving Repr

inductive Member where
  | field (decl : FieldDecl)
  | func (decl : FuncDecl)
deriving Repr

structure EnumCase where
  name : Ident
  value : Option Int64
deriving Repr

/-- A field of a host type at its byte offset. -/
structure HostField where
  name : Ident
  type : TypeExpr
  offset : UInt64
deriving Repr

inductive Decl where
  | func (decl : FuncDecl)
  | structType (node : Node) (name : Ident) (members : List Member)
  | enumType (node : Node) (name : Ident) (cases : List EnumCase)
  /-- Another name for a type; a strong one is a type of its own. -/
  | aliasType (node : Node) (name : Ident) (target : TypeExpr) (strong : Bool)
  | global (node : Node) (binding : Binding)
  /-- A type of the host with a fixed layout. -/
  | hostType (node : Node) (name : Ident) (size align : UInt64) (fields : List HostField)
deriving Repr

def Decl.node : Decl → Node
  | .func decl => decl.node
  | .structType node .. => node
  | .enumType node .. => node
  | .aliasType node .. => node
  | .global node .. => node
  | .hostType node .. => node

def Decl.name : Decl → Ident
  | .func decl => decl.name
  | .structType _ name _ => name
  | .enumType _ name _ => name
  | .aliasType _ name .. => name
  | .global _ binding => binding.name
  | .hostType _ name .. => name

structure Module where
  name : Ident
  imports : List Ident
  decls : List Decl
  file : FileId
deriving Repr

/-- A node of one of the kinds that are numbered. -/
inductive ArenaNode where
  | expr (expr : Expr)
  | stmt (stmt : Stmt)
  | decl (decl : Decl)
  | type (type : TypeExpr)
deriving Repr

/-! ## Spelling -/

def Mutability.keyword : Mutability → String
  | .fixed => "let"
  | .mutable => "var"

def RefKind.keyword : RefKind → String
  | .value => "val"
  | .reference => "ref"

def BinOp.spelling : BinOp → String
  | .add => "+"
  | .sub => "-"
  | .mul => "*"
  | .div => "/"
  | .rem => "%"
  | .bitAnd => "&"
  | .bitOr => "|"
  | .bitXor => "^"
  | .shl => "<<"
  | .shr => ">>"
  | .and => "&&"
  | .or => "||"
  | .eq => "=="
  | .ne => "!="
  | .lt => "<"
  | .le => "<="
  | .gt => ">"
  | .ge => ">="

def UnaryOp.spelling : UnaryOp → String
  | .neg => "-"
  | .not => "!"
  | .bitNot => "~"

end Stela
