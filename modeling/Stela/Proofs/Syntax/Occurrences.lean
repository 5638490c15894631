import Stela.Syntax.Tree
import Mathlib.Data.List.Perm.Basic
import Mathlib.Data.List.Nodup
import Mathlib.Data.List.Pairwise

/-!
# Expressions and functions in a tree

The expressions and named functions that occur in a syntax tree, at any depth
and also in the bodies of closures and functions. They are listed in the order
in which the analysis is done with them: the arguments of a call before the
callee, and the parts of an expression before the expression.
-/

namespace Stela

/-- An expression or a named function at some place of a tree. -/
inductive Occurrence where
  | expr (e : Expr)
  | func (decl : FuncDecl)

mutual

/-- The expressions and functions in an expression, which is the last of them. -/
def Expr.items : Expr → List Occurrence
  | .literal node value => [.expr (.literal node value)]
  | .ident node name => [.expr (.ident node name)]
  | .member node object name => object.items ++ [.expr (.member node object name)]
  | .call node callee args => Expr.listItems args ++ callee.items ++ [.expr (.call node callee args)]
  | .index node base index => base.items ++ index.items ++ [.expr (.index node base index)]
  | .unary node op operand => operand.items ++ [.expr (.unary node op operand)]
  | .binary node op lhs rhs => lhs.items ++ rhs.items ++ [.expr (.binary node op lhs rhs)]
  | .ternary node cond onTrue onFalse =>
    cond.items ++ onTrue.items ++ onFalse.items ++ [.expr (.ternary node cond onTrue onFalse)]
  | .array node elements => Expr.listItems elements ++ [.expr (.array node elements)]
  | .closure node sig body => Stmt.listItems body ++ [.expr (.closure node sig body)]

def Expr.listItems : List Expr → List Occurrence
  | [] => []
  | expr :: rest => expr.items ++ Expr.listItems rest

def Expr.optionItems : Option Expr → List Occurrence
  | none => []
  | some expr => expr.items

def Stmt.items : Stmt → List Occurrence
  | .bind _ binding => binding.items
  | .assign _ target _ value => target.items ++ value.items
  | .expr _ value => value.items
  | .ifElse _ cond onTrue onFalse =>
    cond.items ++ Stmt.listItems onTrue ++ Stmt.optionItems onFalse
  | .whileLoop _ cond body => cond.items ++ Stmt.listItems body
  | .ret _ value => Expr.optionItems value
  | .breakLoop _ => []
  | .continueLoop _ => []
  | .block _ body => Stmt.listItems body
  | .func _ decl => decl.items

def Stmt.listItems : List Stmt → List Occurrence
  | [] => []
  | stmt :: rest => stmt.items ++ Stmt.listItems rest

def Stmt.optionItems : Option (List Stmt) → List Occurrence
  | none => []
  | some body => Stmt.listItems body

def Binding.items : Binding → List Occurrence
  | ⟨_, _, _, init⟩ => Expr.optionItems init

/-- The expressions and functions in a function, which is the last of them. -/
def FuncDecl.items : FuncDecl → List Occurrence
  | ⟨node, name, sig, body, kind, access⟩ =>
    Stmt.optionItems body ++ [.func ⟨node, name, sig, body, kind, access⟩]

end

mutual

/-- The values that are returned by a statement, but not by a closure or function in it. -/
def Stmt.returned : Stmt → List (Option Expr)
  | .ifElse _ _ onTrue onFalse => Stmt.listReturned onTrue ++ Stmt.optionReturned onFalse
  | .whileLoop _ _ body => Stmt.listReturned body
  | .ret _ value => [value]
  | .block _ body => Stmt.listReturned body
  | .bind .. | .assign .. | .expr .. | .breakLoop _ | .continueLoop _ | .func .. => []

def Stmt.listReturned : List Stmt → List (Option Expr)
  | [] => []
  | stmt :: rest => stmt.returned ++ Stmt.listReturned rest

def Stmt.optionReturned : Option (List Stmt) → List (Option Expr)
  | none => []
  | some body => Stmt.listReturned body

end

mutual

/-- A statement and those in its blocks, but not those in a closure or function in it. -/
def Stmt.parts : Stmt → List Stmt
  | .ifElse node cond onTrue onFalse =>
    .ifElse node cond onTrue onFalse :: (Stmt.listParts onTrue ++ Stmt.optionParts onFalse)
  | .whileLoop node cond body => .whileLoop node cond body :: Stmt.listParts body
  | .block node body => .block node body :: Stmt.listParts body
  | .bind node binding => [.bind node binding]
  | .assign node target op value => [.assign node target op value]
  | .expr node value => [.expr node value]
  | .ret node value => [.ret node value]
  | .breakLoop node => [.breakLoop node]
  | .continueLoop node => [.continueLoop node]
  | .func node decl => [.func node decl]

def Stmt.listParts : List Stmt → List Stmt
  | [] => []
  | stmt :: rest => stmt.parts ++ Stmt.listParts rest

def Stmt.optionParts : Option (List Stmt) → List Stmt
  | none => []
  | some body => Stmt.listParts body

end

/-- The parts of an expression that it uses for their values: not a callee, nor what a member is
reached through, which may be a type or a module. -/
def Expr.operands : Expr → List Expr
  | .call _ _ args => args
  | .index _ base subscript => [base, subscript]
  | .unary _ _ operand => [operand]
  | .binary _ _ lhs rhs => [lhs, rhs]
  | .ternary _ cond onTrue onFalse => [cond, onTrue, onFalse]
  | .array _ elements => elements
  | .literal .. | .ident .. | .member .. | .closure .. => []

/-- The expressions that a statement uses for their values, but not those of statements in it. -/
def Stmt.operands : Stmt → List Expr
  | .bind _ binding => binding.init.toList
  | .assign _ target _ value => [target, value]
  | .expr _ value => [value]
  | .ifElse _ cond _ _ => [cond]
  | .whileLoop _ cond _ => [cond]
  | .ret _ value => value.toList
  | .breakLoop _ | .continueLoop _ | .block .. | .func .. => []

/-- What a statement assigns to. -/
def Stmt.targets : Stmt → List Expr
  | .assign _ target _ _ => [target]
  | _ => []

theorem FuncDecl.items_eq (decl : FuncDecl) :
    decl.items = Stmt.optionItems decl.body ++ [.func decl] := by
  cases decl
  rw [FuncDecl.items]

theorem Binding.items_eq (binding : Binding) : binding.items = Expr.optionItems binding.init := by
  cases binding
  rw [Binding.items]

/-- The expressions and functions that a declaration of a module holds. -/
def Decl.items : Decl → List Occurrence
  | .func decl => decl.items
  | .structType _ _ members => members.flatMap fun
    | .func decl => decl.items
    | .field _ => []
  | .global _ binding => binding.items
  | .enumType .. | .aliasType .. | .hostType .. => []

def Module.items (m : Module) : List Occurrence := m.decls.flatMap Decl.items

/-- The first value of a variable of a module. -/
def Decl.values : Decl → List Expr
  | .global _ binding => binding.init.toList
  | _ => []

def Module.values (m : Module) : List Expr := m.decls.flatMap Decl.values

namespace Occurrence

/-- The parts of an expression that it uses for their values. -/
def operands : Occurrence → List Expr
  | .expr e => e.operands
  | .func _ => []

/-- The statements of the body of a closure or function, but not those of closures or functions in
it. -/
def stmts : Occurrence → List Stmt
  | .expr (.closure _ _ body) => Stmt.listParts body
  | .func decl => Stmt.optionParts decl.body
  | .expr _ => []

/-- The number of an expression. -/
def id? : Occurrence → Option Nat
  | .expr e => some e.id
  | .func _ => none

/-- The numbers of the expressions among the given items. -/
def ids (items : List Occurrence) : List Nat := items.filterMap id?

@[simp] theorem ids_nil : ids [] = [] := rfl

@[simp] theorem ids_append (items items' : List Occurrence) :
    ids (items ++ items') = ids items ++ ids items' := List.filterMap_append

@[simp] theorem ids_expr (e : Expr) : ids [.expr e] = [e.id] := rfl

@[simp] theorem ids_func (decl : FuncDecl) : ids [.func decl] = [] := rfl

theorem mem_ids {items : List Occurrence} {id : Nat} :
    id ∈ ids items ↔ ∃ e, .expr e ∈ items ∧ e.id = id := by
  simp only [ids, List.mem_filterMap]
  constructor
  · rintro ⟨item, hitem, hid⟩
    cases item with
    | expr e => exact ⟨e, hitem, Option.some.inj hid⟩
    | func decl => simp [id?] at hid
  · rintro ⟨e, he, rfl⟩
    exact ⟨_, he, rfl⟩

/-- Expressions that are numbered differently are told apart by their numbers. -/
theorem eq_of_id_eq {items : List Occurrence} (hdistinct : (ids items).Nodup) {e e' : Expr}
    (he : .expr e ∈ items) (he' : .expr e' ∈ items) (hid : e.id = e'.id) : e = e' := by
  have hpairs := List.pairwise_filterMap.mp hdistinct
  have : Std.Symm fun a a' : Occurrence => ∀ b, a.id? = some b → ∀ b', a'.id? = some b' → b ≠ b' :=
    ⟨fun _ _ h b hb b' hb' heq => h b' hb' b hb heq.symm⟩
  by_contra hne
  exact hpairs.forall he he' (fun heq => hne (Occurrence.expr.inj heq)) e.id rfl e'.id rfl hid

end Occurrence

end Stela
