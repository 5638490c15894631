import Stela.Proofs.Syntax.Occurrences

/-!
# Expressions inside closures

Every expression of a tree together with the innermost closure around it. The
expressions are listed in the order of `Expr.items`, and a function that is
declared in a closure belongs to that closure.
-/

namespace Stela

/-- An expression at some place of a tree. -/
structure Site where
  expr : Expr
  /-- The number of the innermost closure around the expression. -/
  closure : Option Nat

/-- Whether the expression is a name on its own. -/
def Expr.isIdent : Expr → Bool
  | .ident .. => true
  | _ => false

/-- A place in a closure, whose number is given. -/
def Site.inside (closure : Nat) (site : Site) : Site :=
  { site with closure := site.closure.or (some closure) }

mutual

def Expr.sites : Expr → List Site
  | .literal node value => [⟨.literal node value, none⟩]
  | .ident node name => [⟨.ident node name, none⟩]
  | .member node object name => object.sites ++ [⟨.member node object name, none⟩]
  | .call node callee args => Expr.listSites args ++ callee.sites ++ [⟨.call node callee args, none⟩]
  | .index node base index => base.sites ++ index.sites ++ [⟨.index node base index, none⟩]
  | .unary node op operand => operand.sites ++ [⟨.unary node op operand, none⟩]
  | .binary node op lhs rhs => lhs.sites ++ rhs.sites ++ [⟨.binary node op lhs rhs, none⟩]
  | .ternary node cond onTrue onFalse =>
    cond.sites ++ onTrue.sites ++ onFalse.sites ++ [⟨.ternary node cond onTrue onFalse, none⟩]
  | .array node elements => Expr.listSites elements ++ [⟨.array node elements, none⟩]
  | .closure node sig body =>
    (Stmt.listSites body).map (Site.inside node.id) ++ [⟨.closure node sig body, none⟩]

def Expr.listSites : List Expr → List Site
  | [] => []
  | expr :: rest => expr.sites ++ Expr.listSites rest

def Expr.optionSites : Option Expr → List Site
  | none => []
  | some expr => expr.sites

def Stmt.sites : Stmt → List Site
  | .bind _ binding => binding.sites
  | .assign _ target _ value => target.sites ++ value.sites
  | .expr _ value => value.sites
  | .ifElse _ cond onTrue onFalse =>
    cond.sites ++ Stmt.listSites onTrue ++ Stmt.optionSites onFalse
  | .whileLoop _ cond body => cond.sites ++ Stmt.listSites body
  | .ret _ value => Expr.optionSites value
  | .breakLoop _ => []
  | .continueLoop _ => []
  | .block _ body => Stmt.listSites body
  | .func _ decl => decl.sites

def Stmt.listSites : List Stmt → List Site
  | [] => []
  | stmt :: rest => stmt.sites ++ Stmt.listSites rest

def Stmt.optionSites : Option (List Stmt) → List Site
  | none => []
  | some body => Stmt.listSites body

def Binding.sites : Binding → List Site
  | ⟨_, _, _, init⟩ => Expr.optionSites init

def FuncDecl.sites : FuncDecl → List Site
  | ⟨_, _, _, body, _, _⟩ => Stmt.optionSites body

end

theorem FuncDecl.sites_eq (decl : FuncDecl) : decl.sites = Stmt.optionSites decl.body := by
  cases decl
  rw [FuncDecl.sites]

theorem Binding.sites_eq (binding : Binding) : binding.sites = Expr.optionSites binding.init := by
  cases binding
  rw [Binding.sites]

/-- The expressions of a declaration of a module. -/
def Decl.sites : Decl → List Site
  | .func decl => decl.sites
  | .structType _ _ members => members.flatMap fun
    | .func decl => decl.sites
    | .field _ => []
  | .global _ binding => binding.sites
  | .enumType .. | .aliasType .. | .hostType .. => []

def Module.sites (m : Module) : List Site := m.decls.flatMap Decl.sites

namespace Site

def id (site : Site) : Nat := site.expr.id

@[simp] theorem id_inside (closure : Nat) (site : Site) : (site.inside closure).id = site.id := rfl

theorem map_id_inside (closure : Nat) (sites : List Site) :
    (sites.map (inside closure)).map id = sites.map id := by
  rw [List.map_map]
  rfl

end Site

/-! ## Numbers -/

mutual

theorem Expr.ids_sites : ∀ e : Expr, e.sites.map Site.id = Occurrence.ids e.items
  | .literal .. => rfl
  | .ident .. => rfl
  | .member node object name => by
      simp [Expr.sites, Expr.items, object.ids_sites, Site.id]
  | .call node callee args => by
      simp [Expr.sites, Expr.items, callee.ids_sites, Expr.ids_listSites args, Site.id]
  | .index node base index => by
      simp [Expr.sites, Expr.items, base.ids_sites, index.ids_sites, Site.id]
  | .unary node op operand => by
      simp [Expr.sites, Expr.items, operand.ids_sites, Site.id]
  | .binary node op lhs rhs => by
      simp [Expr.sites, Expr.items, lhs.ids_sites, rhs.ids_sites, Site.id]
  | .ternary node cond onTrue onFalse => by
      simp [Expr.sites, Expr.items, cond.ids_sites, onTrue.ids_sites, onFalse.ids_sites, Site.id]
  | .array node elements => by
      simp [Expr.sites, Expr.items, Expr.ids_listSites elements, Site.id]
  | .closure node sig body => by
      rw [Expr.sites, Expr.items, List.map_append, Site.map_id_inside, Stmt.ids_listSites body,
        Occurrence.ids_append]
      rfl

theorem Expr.ids_listSites : ∀ exprs : List Expr,
    (Expr.listSites exprs).map Site.id = Occurrence.ids (Expr.listItems exprs)
  | [] => rfl
  | expr :: rest => by
      simp [Expr.listSites, Expr.listItems, expr.ids_sites, Expr.ids_listSites rest]

theorem Expr.ids_optionSites : ∀ expr : Option Expr,
    (Expr.optionSites expr).map Site.id = Occurrence.ids (Expr.optionItems expr)
  | none => rfl
  | some expr => by simp [Expr.optionSites, Expr.optionItems, expr.ids_sites]

theorem Stmt.ids_sites : ∀ stmt : Stmt, stmt.sites.map Site.id = Occurrence.ids stmt.items
  | .bind node binding => by simp [Stmt.sites, Stmt.items, binding.ids_sites]
  | .assign node target op value => by
      simp [Stmt.sites, Stmt.items, target.ids_sites, value.ids_sites]
  | .expr node value => by simp [Stmt.sites, Stmt.items, value.ids_sites]
  | .ifElse node cond onTrue onFalse => by
      simp [Stmt.sites, Stmt.items, cond.ids_sites, Stmt.ids_listSites onTrue,
        Stmt.ids_optionSites onFalse]
  | .whileLoop node cond body => by
      simp [Stmt.sites, Stmt.items, cond.ids_sites, Stmt.ids_listSites body]
  | .ret node value => by simp [Stmt.sites, Stmt.items, Expr.ids_optionSites value]
  | .breakLoop .. => by rfl
  | .continueLoop .. => by rfl
  | .block node body => by simp [Stmt.sites, Stmt.items, Stmt.ids_listSites body]
  | .func node decl => by simp [Stmt.sites, Stmt.items, decl.ids_sites]

theorem Stmt.ids_listSites : ∀ stmts : List Stmt,
    (Stmt.listSites stmts).map Site.id = Occurrence.ids (Stmt.listItems stmts)
  | [] => rfl
  | stmt :: rest => by
      simp [Stmt.listSites, Stmt.listItems, stmt.ids_sites, Stmt.ids_listSites rest]

theorem Stmt.ids_optionSites : ∀ body : Option (List Stmt),
    (Stmt.optionSites body).map Site.id = Occurrence.ids (Stmt.optionItems body)
  | none => rfl
  | some body => by simp [Stmt.optionSites, Stmt.optionItems, Stmt.ids_listSites body]

theorem Binding.ids_sites : ∀ binding : Binding,
    binding.sites.map Site.id = Occurrence.ids binding.items
  | ⟨_, _, _, init⟩ => by simp [Binding.sites, Binding.items, Expr.ids_optionSites init]

theorem FuncDecl.ids_sites : ∀ decl : FuncDecl, decl.sites.map Site.id = Occurrence.ids decl.items
  | ⟨_, _, _, body, _, _⟩ => by
      simp [FuncDecl.sites, FuncDecl.items, Stmt.ids_optionSites body]

end

theorem Decl.ids_sites (decl : Decl) : decl.sites.map Site.id = Occurrence.ids decl.items := by
  cases decl with
  | func decl => exact decl.ids_sites
  | structType node name members =>
      simp only [Decl.sites, Decl.items]
      induction members with
      | nil => rfl
      | cons member rest ih =>
          cases member with
          | func decl => simp [decl.ids_sites, ih]
          | field field => simpa using ih
  | global node binding => exact binding.ids_sites
  | _ => rfl

/-- The numbers of the expressions of a module. -/
theorem Module.ids_sites (m : Module) : m.sites.map Site.id = Occurrence.ids m.items := by
  rw [Module.sites, Module.items, List.map_flatMap, Occurrence.ids, List.filterMap_flatMap]
  exact congrArg (fun f => m.decls.flatMap f) (funext Decl.ids_sites)

end Stela
