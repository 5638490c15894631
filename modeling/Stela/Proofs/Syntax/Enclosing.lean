import Stela.Proofs.Syntax.Occurrences

/-!
# What encloses an expression

An expression that occurs in a tree is used by the expression, the statement or
the variable that it stands in. What occurs in a function occurs wherever the
function does.
-/

namespace Stela

/-- What an expression calls. -/
def Expr.callees : Expr → List Expr
  | .call _ callee _ => [callee]
  | _ => []

/-- What a member is reached through. -/
def Expr.objects : Expr → List Expr
  | .member _ object _ => [object]
  | _ => []

/-- All parts of an expression, or of the statements in the body of a closure or function. -/
def Occurrence.uses (item : Occurrence) : List Expr :=
  match item with
  | .expr e => e.operands ++ e.callees ++ e.objects ++ item.stmts.flatMap Stmt.operands
  | .func _ => item.stmts.flatMap Stmt.operands

/-- Among the items only the roots are not used by another one, and with a function there is all that
is in it. -/
structure Enclosed (roots : List Expr) (items : List Occurrence) : Prop where
  exprs : ∀ e, .expr e ∈ items → e ∈ roots ∨ ∃ item ∈ items, e ∈ item.uses
  funcs : ∀ decl, .func decl ∈ items → decl.items ⊆ items

namespace Enclosed

variable {roots roots' : List Expr} {items items' : List Occurrence}

theorem nil : Enclosed [] [] := ⟨by simp, by simp⟩

theorem append (h : Enclosed roots items) (h' : Enclosed roots' items') :
    Enclosed (roots ++ roots') (items ++ items') := by
  refine ⟨fun e he => ?_, fun decl hdecl => ?_⟩
  · rcases List.mem_append.mp he with he | he
    · rcases h.exprs e he with hroot | ⟨item, hitem, huse⟩
      · exact .inl (List.mem_append_left _ hroot)
      · exact .inr ⟨item, List.mem_append_left _ hitem, huse⟩
    · rcases h'.exprs e he with hroot | ⟨item, hitem, huse⟩
      · exact .inl (List.mem_append_right _ hroot)
      · exact .inr ⟨item, List.mem_append_right _ hitem, huse⟩
  · rcases List.mem_append.mp hdecl with hdecl | hdecl
    · exact List.Subset.trans (h.funcs decl hdecl) (List.subset_append_left _ _)
    · exact List.Subset.trans (h'.funcs decl hdecl) (List.subset_append_right _ _)

/-- An expression that uses the roots encloses them. -/
theorem expr (h : Enclosed roots items) {e : Expr} (huses : roots ⊆ (Occurrence.expr e).uses) :
    Enclosed [e] (items ++ [.expr e]) := by
  refine ⟨fun e' he' => ?_, fun decl hdecl => ?_⟩
  · rcases List.mem_append.mp he' with he' | he'
    · rcases h.exprs e' he' with hroot | ⟨item, hitem, huse⟩
      · exact .inr ⟨.expr e, by simp, huses hroot⟩
      · exact .inr ⟨item, List.mem_append_left _ hitem, huse⟩
    · simp at he'
      simp [he']
  · have hdecl : .func decl ∈ items := by simpa using hdecl
    exact List.Subset.trans (h.funcs decl hdecl) (List.subset_append_left _ _)

/-- A function encloses what its body uses. -/
theorem func {decl : FuncDecl} (h : Enclosed ((Stmt.optionParts decl.body).flatMap Stmt.operands)
    (Stmt.optionItems decl.body)) : Enclosed [] decl.items := by
  refine ⟨fun e he => .inr ?_, fun other hother => ?_⟩
  · rw [FuncDecl.items_eq] at he ⊢
    rcases h.exprs e (by simpa using he) with hroot | ⟨item, hitem, huse⟩
    · exact ⟨.func decl, by simp, hroot⟩
    · exact ⟨item, List.mem_append_left _ hitem, huse⟩
  · rw [FuncDecl.items_eq] at hother
    rcases List.mem_append.mp hother with hother | hother
    · rw [FuncDecl.items_eq decl]
      exact List.Subset.trans (h.funcs other hother) (List.subset_append_left _ _)
    · obtain rfl : other = decl := by simpa using hother
      exact List.Subset.refl _

theorem flatMap {α : Type} {all : List α} {roots : α → List Expr} {items : α → List Occurrence}
    (h : ∀ a ∈ all, Enclosed (roots a) (items a)) :
    Enclosed (all.flatMap roots) (all.flatMap items) := by
  induction all with
  | nil => exact .nil
  | cons a rest ih =>
      rw [List.flatMap_cons, List.flatMap_cons]
      exact (h a List.mem_cons_self).append (ih fun b hb => h b (List.mem_cons_of_mem _ hb))

end Enclosed

/-! ## Trees -/

mutual

theorem Expr.enclosed : ∀ e : Expr, Enclosed [e] e.items
  | .literal .. => Enclosed.nil.expr (List.nil_subset _)
  | .ident .. => Enclosed.nil.expr (List.nil_subset _)
  | .member _ object _ => object.enclosed.expr (by simp [Occurrence.uses, Expr.objects])
  | .call _ callee args => by
      refine ((Expr.listEnclosed args).append callee.enclosed).expr ?_
      simp [Occurrence.uses, Expr.callees, Expr.operands]
  | .index _ base subscript => by
      refine (base.enclosed.append subscript.enclosed).expr ?_
      simp [Occurrence.uses, Expr.operands]
  | .unary _ _ operand => operand.enclosed.expr (by simp [Occurrence.uses, Expr.operands])
  | .binary _ _ lhs rhs => by
      refine (lhs.enclosed.append rhs.enclosed).expr ?_
      simp [Occurrence.uses, Expr.operands]
  | .ternary _ cond onTrue onFalse => by
      refine ((cond.enclosed.append onTrue.enclosed).append onFalse.enclosed).expr ?_
      simp [Occurrence.uses, Expr.operands]
  | .array _ elements => by
      refine (Expr.listEnclosed elements).expr ?_
      simp [Occurrence.uses, Expr.operands]
  | .closure _ _ body => (Stmt.listEnclosed body).expr (List.subset_append_right _ _)

theorem Expr.listEnclosed : ∀ exprs : List Expr, Enclosed exprs (Expr.listItems exprs)
  | [] => .nil
  | expr :: rest => expr.enclosed.append (Expr.listEnclosed rest)

theorem Expr.optionEnclosed : ∀ expr : Option Expr, Enclosed expr.toList (Expr.optionItems expr)
  | none => .nil
  | some expr => expr.enclosed

theorem Stmt.enclosed : ∀ stmt : Stmt, Enclosed (stmt.parts.flatMap Stmt.operands) stmt.items
  | .bind _ binding => by
      simpa [Stmt.parts, Stmt.operands, Stmt.items] using binding.enclosed
  | .assign _ target _ value => by
      simpa [Stmt.parts, Stmt.operands, Stmt.items] using target.enclosed.append value.enclosed
  | .expr _ value => by simpa [Stmt.parts, Stmt.operands, Stmt.items] using value.enclosed
  | .ifElse _ cond onTrue onFalse => by
      simpa [Stmt.parts, Stmt.operands, Stmt.items] using
        (cond.enclosed.append (Stmt.listEnclosed onTrue)).append (Stmt.optionEnclosed onFalse)
  | .whileLoop _ cond body => by
      simpa [Stmt.parts, Stmt.operands, Stmt.items] using cond.enclosed.append (Stmt.listEnclosed body)
  | .ret _ value => by
      simpa [Stmt.parts, Stmt.operands, Stmt.items] using Expr.optionEnclosed value
  | .breakLoop _ => .nil
  | .continueLoop _ => .nil
  | .block _ body => by
      simpa [Stmt.parts, Stmt.operands, Stmt.items] using Stmt.listEnclosed body
  | .func _ decl => by simpa [Stmt.parts, Stmt.operands, Stmt.items] using decl.enclosed

theorem Stmt.listEnclosed : ∀ body : List Stmt,
    Enclosed ((Stmt.listParts body).flatMap Stmt.operands) (Stmt.listItems body)
  | [] => .nil
  | stmt :: rest => by
      simpa [Stmt.listParts, Stmt.listItems] using stmt.enclosed.append (Stmt.listEnclosed rest)

theorem Stmt.optionEnclosed : ∀ body : Option (List Stmt),
    Enclosed ((Stmt.optionParts body).flatMap Stmt.operands) (Stmt.optionItems body)
  | none => .nil
  | some body => Stmt.listEnclosed body

theorem Binding.enclosed : ∀ binding : Binding, Enclosed binding.init.toList binding.items
  | ⟨_, _, _, init⟩ => Expr.optionEnclosed init

theorem FuncDecl.enclosed : ∀ decl : FuncDecl, Enclosed [] decl.items
  | ⟨_, _, _, body, _, _⟩ => Enclosed.func (Stmt.optionEnclosed body)

end

/-- The expressions that no other one encloses are the first values of variables. -/
theorem Decl.enclosed (decl : Decl) : Enclosed decl.values decl.items := by
  cases decl with
  | func decl => exact decl.enclosed
  | structType node name members =>
      have hmembers : Enclosed (members.flatMap fun _ => []) (Decl.structType node name members).items :=
        Enclosed.flatMap fun member _ => by
          cases member with
          | func decl => exact decl.enclosed
          | field field => exact .nil
      rwa [List.flatMap_eq_nil_iff.mpr fun _ _ => rfl] at hmembers
  | global node binding => exact binding.enclosed
  | enumType | aliasType | hostType => exact .nil

theorem Module.enclosed (m : Module) : Enclosed m.values m.items :=
  Enclosed.flatMap fun decl _ => decl.enclosed

end Stela
