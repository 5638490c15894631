import Stela.Proofs.Safety.Functions
import Stela.Proofs.Safety.Paths

/-!
# Expressions, statements and bodies

Expressions and statements whose nodes are free are safe to analyze if the
bodies are that are analyzed on demand. A body is begun once, so the bodies
under analysis are no more than there are functions, and each of them is safe.
-/

namespace Stela

theorem ExprContext.Inside.value {e : Extent} : ExprContext.Inside e .value := fun _ h => by cases h

theorem ExprContext.Inside.condition {e : Extent} : ExprContext.Inside e .condition :=
  fun _ h => by cases h

namespace Check

open CheckState

variable {n bound : Nat} {own a : List NodeKey} {s s' : CheckState}

theorem safe_describePlace {target : Expr} {place : ExprType} :
    Safe n bound [] (describePlace target place) s fun _ _ => True := by
  unfold describePlace
  split
  · exact Safe.pure fun _ => trivial
  · split
    · exact Safe.step safe_objectMeant fun _ _ _ _ => Safe.pure fun _ => trivial
    · exact Safe.pure fun _ => trivial

/-- The type of an expression is noted when it is known. -/
theorem safe_recorded {p : Check ExprType} {node : Node} {context : ExprContext}
    (hp : Safe n bound own p s fun type s' => type.type < s'.tables.types.size) :
    Safe n bound own (p >>= record node context) s fun type s' =>
      type.type < s'.tables.types.size :=
  Safe.bind hp (List.Subset.refl _) fun _ _ _ htype => (safe_record htype).widen (List.nil_subset _)

/-! ## Scopes and functions in bodies -/

theorem Fares.scoped {β : Type} {kind : ScopeKind} {p : Check Unit} {f : Unit → Check β}
    {R : β → CheckState → Prop}
    (hp : ∀ s₁, Finishes n [] s s₁ → Safe n bound a p s₁ fun _ _ => True) (hsub : a ⊆ own)
    (hf : ∀ s₁, Finishes n a s s₁ → Fares n bound own (f ()) s₁ R) :
    Fares n bound own (enterScope kind none >>= fun _ => p >>= fun _ => leaveScope >>= f) s R := by
  refine Fares.bind (safe_enterScope (by simp)) (List.nil_subset _) ?_
  rintro scope s₁ h ⟨hbalanced, -⟩
  refine Fares.bind (hp s₁ ⟨h, hbalanced⟩) hsub ?_
  rintro _ s₂ h' ⟨hbalanced', -⟩
  refine Fares.bind safe_leaveScope (List.nil_subset _) ?_
  rintro _ s₃ h'' ⟨hbalanced'', -⟩
  exact hf s₃ ⟨(h.widen (List.nil_subset _)).trans (h'.trans (h''.widen (List.nil_subset _))),
    hbalanced.trans (hbalanced'.trans hbalanced'')⟩

theorem Safe.scoped {β : Type} {kind : ScopeKind} {p : Check Unit} {f : Unit → Check β}
    {R : β → CheckState → Prop}
    (hp : ∀ s₁, Finishes n [] s s₁ → Safe n bound a p s₁ fun _ _ => True) (hsub : a ⊆ own)
    (hf : ∀ s₁, Finishes n a s s₁ → Safe n bound own (f ()) s₁ R) :
    Safe n bound own (enterScope kind none >>= fun _ => p >>= fun _ => leaveScope >>= f) s R :=
  Fares.scoped hp hsub fun s₁ h => Fares.imp (hf s₁ h) fun _ _ _ hthen =>
    ⟨h.balanced.trans hthen.1, hthen.2⟩

theorem safe_scoped {kind : ScopeKind} {p : Check Unit}
    (hp : ∀ s₁, Finishes n [] s s₁ → Safe n bound own p s₁ fun _ _ => True) :
    Safe n bound own (enterScope kind none >>= fun _ => p >>= fun _ => leaveScope) s fun _ _ => True :=
  Safe.step (safe_enterScope (by simp)) fun _ s₁ h _ => Safe.bind (hp s₁ h) (List.Subset.refl _)
    fun _ _ _ _ => Safe.imp (safe_leaveScope.widen (List.nil_subset _)) fun _ _ _ _ => trivial

/-- A function in a body is analyzed where it is declared. -/
theorem safe_declareFunc {analyze : SymbolId → Check Unit} (hanalyze : Analyzes n bound analyze)
    {decl : FuncDecl} (hfree : s.Free n decl.keys) :
    Safe n bound decl.keys (declareFunc decl none >>= analyze) s fun _ _ => True := by
  refine Fares.bind (fares_declareFunc hfree (by simp)) (List.Subset.refl _) ?_
  rintro func s₁ - ⟨hfunc, hbodies, howing⟩
  refine Fares.widen (Fares.imp (hanalyze s₁ func hfunc) ?_) (List.nil_subset _)
  rintro _ s₂ - ⟨hbalanced, hbegun⟩
  refine ⟨⟨hbalanced.bodies.trans hbodies, fun id duty hduty => ?_⟩, trivial⟩
  rcases howing id duty (hbalanced.duties id duty hduty) with hold | ⟨rfl, hdecl⟩
  · exact hold
  · cases hduty.symm.trans (hbegun duty (hbalanced.duties id duty hduty) hdecl)

/-- The keys of a closure in the order in which they get their meaning. -/
theorem perm_closureKeys (node : Node) (sig : Signature) (body : List Stmt) :
    (Expr.closure node sig body).keys.Perm
      ((sig.typeKeys ++ ([.node .expr node.id] ++ sig.paramKeys)) ++ Stmt.listKeys body) := by
  rw [Expr.keys, List.append_assoc, List.append_assoc, List.append_assoc]
  refine List.Perm.append_left _ ?_
  rw [← List.append_assoc]
  exact List.perm_append_comm.trans (by rw [List.append_assoc])

/-- A closure is safe to visit if its body is safe to analyze. -/
theorem safe_closure {p : Check Unit} {node : Node} {sig : Signature} {body : List Stmt}
    {context : ExprContext} (hfree : s.Free n (Expr.closure node sig body).keys)
    (hbody : ∀ s₁, s₁.Free n (Stmt.listKeys body) →
      Safe n bound (Stmt.listKeys body) p s₁ fun _ _ => True) :
    Safe n bound (Expr.closure node sig body).keys (openClosure node sig >>= fun _ => p >>= fun _ =>
      closeClosure node body >>= record node context) s fun type s' =>
        type.type < s'.tables.types.size := by
  have hperm := perm_closureKeys node sig body
  have hfree := hfree.perm hperm
  refine Fares.widen ?_ hperm.symm.subset
  refine Fares.bind (fares_openClosure hfree.left) (List.subset_append_left _ _) ?_
  rintro _ s₁ h henters
  obtain ⟨symbol, scope, hbodies⟩ := henters.bodies
  refine Fares.bind (hbody s₁ (hfree.right h.toFollows)) (List.subset_append_right _ _) ?_
  rintro _ s₂ - ⟨hbalanced, -⟩
  refine Fares.bind (fares_closeClosure (hbalanced.bodies.trans hbodies)) (List.nil_subset _) ?_
  rintro type s₃ - ⟨htype, hshifts⟩
  refine Fares.widen (Fares.imp (safe_record htype) ?_) (List.nil_subset _)
  exact fun type s₄ _ h' => ⟨(hshifts.balanced henters.duties hbalanced).trans h'.1, h'.2⟩

/-! ## Expressions and statements -/

section

variable {analyze : SymbolId → Check Unit} (hanalyze : Analyzes n bound analyze)

include hanalyze

set_option linter.unusedSectionVars false in
mutual

/-- Visiting an expression is safe if it has no meaning yet. -/
theorem safe_visit (context : ExprContext) (expected : Option TypeId) : ∀ (e : Expr) (s : CheckState),
    context.Inside s.extent → s.extent.Known expected → s.Fresh n e →
    Safe n bound e.keys (visit analyze context expected e) s fun type s' =>
      type.type < s'.tables.types.size
  | .literal node value, s, _, _, _ => by
      rw [visit]
      exact Safe.widen (Safe.step safe_literalType fun type s₁ _ htype => safe_record htype)
        (List.nil_subset _)
  | .ident node name, s, hcontext, _, hfresh => by
      rw [visit]
      exact safe_recorded (safe_visitIdent hanalyze hcontext
        (hfresh.free (by simp [Expr.spine, Expr.id])))
  | .member node object name, s, hcontext, _, hfresh => by
      rw [visit]
      have hlast := hfresh.last
      have hapart : ∀ key ∈ [NodeKey.node .expr node.id], key ∉ object.keys := by
        have hnodup := hfresh.nodup
        rw [Expr.keys] at hnodup
        exact fun key hkey hmem => List.disjoint_of_nodup_append hnodup hmem hkey
      rw [Expr.keys]
      refine Safe.bind (safe_staticPath hfresh.toTraced.object) (List.subset_append_left _ _) ?_
      rintro found s₁ h ⟨rfl, hresembles, htraced, -⟩
      have hcontext := hcontext.mono h.extent
      have hlast := hlast.after h.toFollows hapart
      split
      · next target htarget =>
        obtain ⟨kind, hkind, hqualifies⟩ := qualifies_of_path? htarget
        rw [← hresembles.kinds] at hkind
        refine Safe.widen (safe_recorded (safe_staticMember hanalyze
          (SymbolTable.lt_size_of_kind? hkind) (fun kind' hkind' => ?_) hcontext hlast))
          (List.subset_append_right _ _)
        obtain rfl := Option.some.inj (hkind.symm.trans hkind')
        cases kind with
        | moduleSpace scope => exact .inl ⟨scope, rfl⟩
        | _ => exact .inr hqualifies
      · next hnone =>
        have hobject := htraced.fresh ((hresembles.path? object).trans hnone)
        refine Safe.bind (safe_known (safe_visit .value none object s₁ .value
          .none hobject)) (List.subset_append_left _ _) fun type s₂ h' htype => ?_
        exact Safe.widen (safe_recorded (safe_instanceMember hanalyze htype
          (hcontext.mono h'.extent) (hlast.after h'.toFollows hapart))) (List.subset_append_right _ _)
  | .call node callee args, s, _, _, hfresh => by
      have hfree := hfresh.free (by simp [Expr.spine])
      rw [visit]
      rw [Expr.keys] at hfree ⊢
      refine Safe.widen ?_ (List.subset_append_left _ _)
      refine Safe.bind (safe_visitArgs args s hfree.left.left) (List.subset_append_left _ _)
        fun argTypes s₁ h hargs => ?_
      refine Safe.bind (safe_visit _ none callee s₁ (fun args heq => ?_) .none
        (hfree.left.right h.toFollows).fresh) (List.subset_append_right _ _)
        fun calleeType s₂ h' hcallee => Safe.widen (safe_recorded (safe_finishCall hcallee
          (hargs.mono h'.extent))) (List.nil_subset _)
      exact ExprContext.callee.inj heq ▸ hargs
  | .index node base index, s, _, _, hfresh => by
      have hfree := hfresh.free (by simp [Expr.spine])
      rw [visit]
      rw [Expr.keys] at hfree ⊢
      refine Safe.widen ?_ (List.subset_append_left _ _)
      refine Safe.bind (safe_known (safe_visit .value none base s .value .none
        hfree.left.left.fresh)) (List.subset_append_left _ _) fun array s₁ h harray => ?_
      refine Safe.step (safe_arrayElement harray) fun element s₂ h' helement => ?_
      refine Safe.bind (safe_known (safe_visit .value none index s₂ .value
        .none ((hfree.left.right h.toFollows).still h'.toFollows).fresh))
        (List.subset_append_right _ _) fun subscript s₃ h'' hsubscript => ?_
      have harray := h''.type_lt (h'.type_lt harray)
      refine Safe.step (safe_checkSubscript harray hsubscript) fun _ s₄ h₄ _ =>
        Safe.widen (safe_record ?_) (List.nil_subset _)
      exact h₄.type_lt (h''.type_lt helement)
  | .unary node op operand, s, _, _, hfresh => by
      have hfree := hfresh.free (by simp [Expr.spine])
      rw [visit]
      rw [Expr.keys] at hfree ⊢
      refine Safe.widen ?_ (List.subset_append_left _ _)
      exact Safe.bind (safe_known (safe_visit .value none operand s .value
        .none hfree.left.fresh)) (List.Subset.refl _) fun value s₁ _ hvalue =>
          Safe.widen (safe_recorded (safe_checkUnary hvalue)) (List.nil_subset _)
  | .binary node op lhs rhs, s, _, _, hfresh => by
      have hfree := hfresh.free (by simp [Expr.spine])
      rw [visit]
      rw [Expr.keys] at hfree ⊢
      refine Safe.widen ?_ (List.subset_append_left _ _)
      refine Safe.bind (safe_visit .value none lhs s .value .none
        hfree.left.left.fresh) (List.subset_append_left _ _) fun left s₁ h hleft => ?_
      refine Safe.bind (safe_visit .value none rhs s₁ .value .none
        (hfree.left.right h.toFollows).fresh) (List.subset_append_right _ _)
        fun right s₂ h' hright => ?_
      exact Safe.widen (safe_recorded (safe_finishBinary (h'.type_lt hleft) hright))
        (List.nil_subset _)
  | .ternary node cond onTrue onFalse, s, _, _, hfresh => by
      have hfree := hfresh.free (by simp [Expr.spine])
      rw [visit]
      rw [Expr.keys] at hfree ⊢
      refine Safe.widen ?_ (List.subset_append_left _ _)
      have hfree := hfree.left
      rw [List.append_assoc] at hfree ⊢
      refine Safe.bind (safe_visit .condition none cond s .condition .none
        hfree.left.fresh) (List.subset_append_left _ _) fun _ s₁ h _ => ?_
      have hfree := hfree.right h.toFollows
      refine Safe.widen ?_ (List.subset_append_right _ _)
      refine Safe.bind (safe_visit .value none onTrue s₁ .value .none
        hfree.left.fresh) (List.subset_append_left _ _) fun left s₂ h₂ hleft => ?_
      refine Safe.bind (safe_visit .value none onFalse s₂ .value .none
        (hfree.right h₂.toFollows).fresh) (List.subset_append_right _ _)
        fun right s₃ h₃ hright => ?_
      refine Safe.step (safe_settlePending (h₃.type_lt hleft) hright) ?_
      rintro ⟨left, right⟩ s₄ h₄ ⟨hleft, hright⟩
      refine Fares.same hleft hright ?_
      dsimp only
      split
      · exact Fares.mismatch_bind hleft hright
      · exact Safe.widen (safe_record hleft) (List.nil_subset _)
  | .array node [], s, _, hexpected, _ => by
      rw [visit]
      exact Safe.widen (safe_recorded (safe_emptyArray hexpected)) (List.nil_subset _)
  | .array node (first :: rest), s, _, hexpected, hfresh => by
      have hfree := hfresh.free (by simp [Expr.spine])
      rw [visit]
      rw [Expr.keys] at hfree ⊢
      refine Safe.widen ?_ (List.subset_append_left _ _)
      have hfree := hfree.left
      rw [Expr.listKeys] at hfree ⊢
      refine Safe.step (safe_expectedElement hexpected) ?_
      rintro expected _ - ⟨rfl, hexpected⟩
      refine Safe.bind (safe_known (safe_visit .value expected first s .value hexpected
        hfree.left.fresh)) (List.subset_append_left _ _) fun element s₁ h helement => ?_
      refine Safe.step (safe_recordTransfer helement) fun _ s₂ h₂ _ => ?_
      have helement := h₂.type_lt helement
      refine Safe.bind (safe_visitElements element.type rest s₂ helement
        ((hfree.right h.toFollows).still h₂.toFollows)) (List.subset_append_right _ _)
        fun _ s₃ h₃ _ => ?_
      refine Safe.step (safe_intern _ (h₃.type_lt helement)) fun type s₄ _ htype => ?_
      exact Safe.widen (safe_record htype) (List.nil_subset _)
  | .closure node sig body, s, _, _, hfresh => by
      rw [visit]
      exact safe_closure (hfresh.free (by simp [Expr.spine])) (safe_checkStmts body)

theorem safe_visitArgs : ∀ (es : List Expr) (s : CheckState), s.Free n (Expr.listKeys es) →
    Safe n bound (Expr.listKeys es) (visitArgs analyze es) s fun types s' =>
      s'.extent.Exprs (types.map fun p => p.2)
  | [], s, _ => by
      rw [visitArgs]
      exact Safe.pure fun _ => by simp [Extent.Exprs]
  | e :: rest, s, hfree => by
      rw [visitArgs]
      rw [Expr.listKeys] at hfree ⊢
      refine Safe.bind (safe_known (safe_visit .value none e s .value .none
        hfree.left.fresh)) (List.subset_append_left _ _) fun type s₁ h htype => ?_
      refine Safe.bind (safe_visitArgs rest s₁ (hfree.right h.toFollows))
        (List.subset_append_right _ _) fun types s₂ h' htypes => Safe.pure fun _ => ?_
      exact List.forall_mem_cons.mpr ⟨h'.type_lt htype, htypes⟩

theorem safe_visitElements (element : TypeId) : ∀ (es : List Expr) (s : CheckState),
    element < s.tables.types.size → s.Free n (Expr.listKeys es) →
    Safe n bound (Expr.listKeys es) (visitElements analyze element es) s fun _ _ => True
  | [], s, _, _ => by
      rw [visitElements]
      exact Safe.pure fun _ => trivial
  | e :: rest, s, helement, hfree => by
      rw [visitElements]
      rw [Expr.listKeys] at hfree ⊢
      refine Safe.bind (safe_known (safe_visit .value (some element) e s .value
        (.some helement) hfree.left.fresh))
        (List.subset_append_left _ _) fun type s₁ h htype => ?_
      have helement := h.type_lt helement
      refine Fares.same helement htype ?_
      dsimp only
      split
      · exact Fares.mismatch_bind helement htype
      · refine Safe.step (safe_recordTransfer helement) fun _ s₂ h' _ => ?_
        exact Safe.widen (safe_visitElements element rest s₂ (h'.type_lt helement)
          ((hfree.right h.toFollows).still h'.toFollows)) (List.subset_append_right _ _)

theorem safe_checkStmt : ∀ (stmt : Stmt) (s : CheckState), s.Free n stmt.keys →
    Safe n bound stmt.keys (checkStmt analyze stmt) s fun _ _ => True
  | .bind node binding, s, hfree => by
      rw [checkStmt]
      rw [Stmt.keys] at hfree ⊢
      exact safe_checkBinding (.stmt node.id) binding s hfree
  | .assign node target op value, s, hfree => by
      rw [checkStmt]
      rw [Stmt.keys] at hfree ⊢
      refine Safe.bind (safe_known (safe_visit .value none target s .value
        .none hfree.left.fresh)) (List.subset_append_left _ _) fun place s₁ h hplace => ?_
      dsimp only
      split
      · exact Safe.step safe_describePlace fun _ _ _ _ => Fares.raise_bind
      · refine Safe.bind (safe_known (safe_visit .value _ value s₁ .value
          (.some hplace) (hfree.right h.toFollows).fresh))
          (List.subset_append_right _ _) fun assigned s₂ h' hassigned => ?_
        exact Safe.widen (safe_finishAssign (h'.type_lt hplace) hassigned) (List.nil_subset _)
  | .expr node value, s, hfree => by
      rw [checkStmt]
      rw [Stmt.keys] at hfree ⊢
      exact Safe.bind (safe_visit .value none value s .value .none hfree.fresh)
        (List.Subset.refl _) fun _ _ _ _ => Safe.pure fun _ => trivial
  | .ifElse node cond onTrue none, s, hfree => by
      rw [checkStmt]
      rw [Stmt.keys, Stmt.optionKeys, List.append_nil] at hfree ⊢
      refine Safe.bind (safe_visit .condition none cond s .condition .none hfree.left.fresh)
        (List.subset_append_left _ _) fun _ s₁ h _ => ?_
      have hfree := hfree.right h.toFollows
      exact Safe.scoped (fun s₂ h' => safe_checkStmts onTrue s₂ (hfree.still h'.toFollows))
        (List.subset_append_right _ _) fun _ _ => Safe.pure fun _ => trivial
  | .ifElse node cond onTrue (some onFalse), s, hfree => by
      rw [checkStmt]
      rw [Stmt.keys, Stmt.optionKeys, List.append_assoc] at hfree ⊢
      refine Safe.bind (safe_visit .condition none cond s .condition .none hfree.left.fresh)
        (List.subset_append_left _ _) fun _ s₁ h _ => ?_
      have hfree := hfree.right h.toFollows
      refine Safe.widen ?_ (List.subset_append_right _ _)
      refine Safe.scoped (fun s₂ h' => safe_checkStmts onTrue s₂ (hfree.left.still h'.toFollows))
        (List.subset_append_left _ _) fun s₂ h' => ?_
      have hfree := hfree.right h'.toFollows
      exact Safe.widen (safe_scoped fun s₃ h'' => safe_checkStmts onFalse s₃
        (hfree.still h''.toFollows)) (List.subset_append_right _ _)
  | .whileLoop node cond body, s, hfree => by
      rw [checkStmt]
      rw [Stmt.keys] at hfree ⊢
      refine Safe.bind (safe_visit .condition none cond s .condition .none hfree.left.fresh)
        (List.subset_append_left _ _) fun _ s₁ h _ => ?_
      have hfree := hfree.right h.toFollows
      refine Fares.bind fares_enterLoop (List.nil_subset _) fun _ s₂ h' henters => ?_
      have hfree := hfree.still h'.toFollows
      refine Fares.scoped (fun s₃ h'' => safe_checkStmts body s₃ (hfree.still h''.toFollows))
        (List.subset_append_right _ _) fun s₃ h'' => ?_
      refine Fares.widen (Fares.imp (fares_leaveLoop (h''.balanced.bodies.trans henters.bodies)) ?_)
        (List.nil_subset _)
      exact fun _ s₄ _ hleaves => ⟨hleaves.balanced henters.duties h''.balanced, trivial⟩
  | .ret node none, s, _ => by
      rw [checkStmt]
      refine .of_ready fun hs => .frame? ?_
      split
      · exact Fares.raise
      · next frame hframe =>
        exact safe_checkBareReturn (hs.closed.frames frame (List.mem_of_mem_head? hframe))
  | .ret node (some value), s, hfree => by
      rw [checkStmt]
      rw [Stmt.keys, Expr.optionKeys] at hfree ⊢
      refine .of_ready fun hs => .frame? ?_
      split
      · exact Fares.raise
      · next frame hframe =>
        have hframe := hs.closed.frames frame (List.mem_of_mem_head? hframe)
        refine Safe.bind (safe_visit .value _ value s .value hframe.2.2.2.1 hfree.fresh)
          (List.Subset.refl _) fun returned s₁ h hreturned => ?_
        exact Safe.widen (safe_checkReturned (hframe.mono h.extent) hreturned) (List.nil_subset _)
  | .breakLoop node, s, _ => by
      rw [checkStmt]
      exact safe_checkLoopControl.widen (List.nil_subset _)
  | .continueLoop node, s, _ => by
      rw [checkStmt]
      exact safe_checkLoopControl.widen (List.nil_subset _)
  | .block node body, s, hfree => by
      rw [checkStmt]
      rw [Stmt.keys] at hfree ⊢
      exact safe_scoped fun s₁ h => safe_checkStmts body s₁ (hfree.still h.toFollows)
  | .func node decl, s, hfree => by
      rw [checkStmt]
      rw [Stmt.keys] at hfree ⊢
      exact safe_declareFunc hanalyze hfree

theorem safe_checkStmts : ∀ (stmts : List Stmt) (s : CheckState), s.Free n (Stmt.listKeys stmts) →
    Safe n bound (Stmt.listKeys stmts) (checkStmts analyze stmts) s fun _ _ => True
  | [], s, _ => by
      rw [checkStmts]
      exact Safe.pure fun _ => trivial
  | stmt :: rest, s, hfree => by
      rw [checkStmts]
      rw [Stmt.listKeys] at hfree ⊢
      refine Safe.bind (safe_checkStmt stmt s hfree.left) (List.subset_append_left _ _)
        fun _ s₁ h _ => ?_
      exact Safe.widen (safe_checkStmts rest s₁ (hfree.right h.toFollows))
        (List.subset_append_right _ _)

theorem safe_checkBinding (place : BindingPlace) : ∀ (binding : Binding) (s : CheckState),
    s.Free n (binding.keys ++ [place.key]) →
    Safe n bound (binding.keys ++ [place.key]) (checkBinding analyze place binding) s fun _ _ => True
  | ⟨mutability, name, type, init⟩, s, hfree => by
      rw [checkBinding]
      rw [Binding.keys, List.append_assoc] at hfree ⊢
      refine Safe.bind (safe_lowerOptional hfree.left) (List.subset_append_left _ _)
        fun declared s₁ h hdeclared => Safe.widen ?_ (List.subset_append_right _ _)
      have hfree := hfree.right h.toFollows
      extract_lets finish
      cases init with
      | none =>
          refine .pure_bind (Safe.widen (safe_finishBinding hdeclared (by simp) ?_)
            (List.subset_append_right _ _))
          exact hfree
      | some init =>
          refine Safe.bind (safe_known (safe_visit .value declared init s₁ .value hdeclared
            hfree.left.fresh)) (List.subset_append_left _ _) fun value s₂ h' hvalue => .pure_bind ?_
          refine Safe.widen (safe_finishBinding (hdeclared.mono h'.extent) (fun p heq => ?_)
            (hfree.right h'.toFollows)) (List.subset_append_right _ _)
          exact Option.some.inj heq ▸ hvalue

end

end

/-! ## Analyzing bodies -/

/-- The duty of a function is left when the function is. -/
theorem duty?_of_func? {info : FuncInfo} {func : SymbolId} (hinfo : s.tables.symbols.func? func = some info) :
    s.duty? func = (SymbolKind.func info).duty? :=
  SymbolTable.duty?_of_kind? (SymbolTable.func?_eq_some.mp hinfo)

/-- Only functions have the duty to analyze a body. -/
theorem func?_of_duty? {func : SymbolId} {duty : Duty} (hduty : s.duty? func = some duty)
    (hdecl : duty.decl.isSome) : ∃ info, s.tables.symbols.func? func = some info ∧
      info.state = .unchecked ∧ duty = ⟨some info.decl.node.id, info.decl.bodyKeys⟩ := by
  obtain ⟨kind, hkind, hduty⟩ := Option.bind_eq_some_iff.mp hduty
  unfold SymbolKind.duty? at hduty
  split at hduty
  · next info =>
    obtain ⟨hstate, hduty⟩ := Option.ite_none_right_eq_some.mp hduty
    exact ⟨info, SymbolTable.func?_eq_some.mpr hkind, hstate, (Option.some.inj hduty).symm⟩
  · obtain rfl := Option.some.inj hduty
    cases hdecl
  · cases hduty

/-- A function whose body is begun or done has no duty any more. -/
theorem safe_setBodyState {func : SymbolId} {state : BodyState} (hfunc : func < s.tables.symbols.size)
    (hstate : state ≠ .unchecked) :
    Safe n bound [] (setBodyState func state) s fun _ s' => s'.meanings = s.meanings ∧
      ∀ info, s.tables.symbols.func? func = some info → s'.duty? func = none := by
  refine Safe.imp (safe_modifyFunc hfunc fun info _ hinside =>
    ⟨hinside, rfl, fun h => absurd h hstate⟩) ?_
  rintro _ _ - rfl
  refine ⟨rfl, fun info hinfo => ?_⟩
  refine (SymbolTable.duty?_of_kind? (SymbolTable.kind?_modifyKind_of
    (SymbolTable.func?_eq_some.mp hinfo))).trans ?_
  exact if_neg hstate

section

variable {analyze : SymbolId → Check Unit} {func : SymbolId} {info : FuncInfo} {body : List Stmt}

/-- The body of a function that was begun. -/
theorem safe_runBody (hanalyze : Analyzes n bound analyze) (hfunc : func < s.tables.symbols.size)
    (hinfo : info.Inside s.extent) (hfree : s.Free n (info.decl.sig.paramKeys ++ Stmt.listKeys body)) :
    Safe n bound (info.decl.sig.paramKeys ++ Stmt.listKeys body) (openBody func info >>= fun _ =>
      checkStmts analyze body >>= fun _ => closeBody info.decl body) s fun ret s' =>
        ret < s'.tables.types.size := by
  refine Fares.bind (fares_openBody hfunc hinfo hfree.left) (List.subset_append_left _ _) ?_
  rintro _ s₁ h henters
  obtain ⟨symbol, scope, hbodies⟩ := henters.bodies
  refine Fares.bind (safe_checkStmts hanalyze body s₁ (hfree.right h.toFollows))
    (List.subset_append_right _ _) ?_
  rintro _ s₂ - ⟨hbalanced, -⟩
  refine Fares.widen (Fares.imp (fares_closeBody (hbalanced.bodies.trans hbodies)) ?_) (List.nil_subset _)
  exact fun ret s₃ _ h' => ⟨h'.2.balanced henters.duties hbalanced, h'.1⟩

end

/-- A body is analyzed once. Those that it needs are then analyzed among fewer. -/
theorem analyzes_checkBody : ∀ bound, Analyzes n bound (checkBody bound) := by
  intro bound
  induction bound with
  | zero => exact fun s func _ hs => absurd hs.enough (Nat.not_lt_zero _)
  | succ bound ih =>
      intro s func hfunc
      unfold checkBody
      refine .of_ready fun hs => .funcOf hfunc ?_
      split
      · next hnone =>
        refine Safe.pure fun _ duty hduty hdecl => ?_
        obtain ⟨info, hinfo, -⟩ := func?_of_duty? hduty hdecl
        cases hnone.symm.trans hinfo
      · next info hinfo =>
        dsimp only
        split
        · next hstate =>
          refine Safe.pure fun _ duty hduty hdecl => ?_
          rw [duty?_of_func? hinfo]
          exact if_neg (by simpa using hstate)
        · next hstate =>
          split
          · refine Safe.imp (safe_setBodyState hfunc (by decide)) ?_
            rintro _ s₁ - ⟨-, htaken⟩ _ _ _
            exact htaken info hinfo
          · next body hbody =>
            have hduty : s.duty? func = some ⟨some info.decl.node.id, info.decl.bodyKeys⟩ := by
              rw [duty?_of_func? hinfo]
              exact if_pos (by simpa using hstate)
            have hready (s₁ : CheckState) (hs : s.Ready n (bound + 1)) (h : Finishes n [] s s₁)
                (htaken : s₁.duty? func = none) : s₁.Ready n bound := by
              have := hs.dutiful.idle_lt hs.closed h.toFollows hduty rfl htaken
              exact ⟨h.closed, h.dutiful, by have := hs.enough; omega⟩
            refine Safe.discharge hduty (Safe.imp (safe_setBodyState hfunc (by decide)) fun _ s₁ _ h =>
              ⟨h.1, h.2 info hinfo⟩) hready fun _ s₁ h htaken hfree => ?_
            have hfunc₁ := h.symbol_lt hfunc
            have hinside := (func_inside hs.closed hinfo).mono h.extent
            simp only [FuncDecl.bodyKeys, hbody, Stmt.optionKeys] at hfree ⊢
            refine .of_ready fun hs₁ => .symbol hfunc₁ fun entry hentry => ?_
            refine Safe.bind (P := fun ret s' => ret < s'.tables.types.size)
              (Safe.withCursor (hs₁.closed.symbols func entry hentry).2 fun s₂ h₂ =>
                safe_runBody ih (h₂.symbol_lt hfunc₁) (hinside.mono h₂.extent)
                  (hfree.still h₂.toFollows)) (List.Subset.refl _) fun ret s₃ h₃ hret => ?_
            refine Safe.widen (Safe.imp (safe_modifyFunc (h₃.symbol_lt hfunc₁) fun info _ hinside =>
              ⟨⟨hinside.1, .some hret, hinside.2.2⟩, rfl, by simp⟩) ?_) (List.nil_subset _)
            rintro _ s₄ h₄ - _ _ _
            exact h₄.duty?_eq_none (h₃.symbol_lt hfunc₁) (h₃.duty?_eq_none hfunc₁ htaken)

end Check

end Stela
