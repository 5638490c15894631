import Stela.Proofs.Check.Capturing

/-!
# Opening and closing of bodies

The body of a closure is opened where the closure stands, that of a function
where the function was declared. While a body is open the cursor lies directly
in it: in its scope, or in a block inside of that.
-/

namespace Stela

/-- The kind of scope that a body has. -/
def FrameKind.scopeKind : FrameKind → ScopeKind
  | .function => .function
  | .closure => .closure

namespace CheckState

variable {s s' s'' : CheckState} {within : Nat → Nat → Prop} {symbol : SymbolId} {kind : FrameKind}
  {scope : ScopeId}

/-- The cursor lies directly in the innermost body. -/
def Located (s : CheckState) : Prop := ∀ symbol kind scope, s.top? = some (symbol, kind, scope) →
  s.scopes.Locally scope s.scopes.cursor ∧ s.scopes.kind? scope = some kind.scopeKind

theorem kind?_of_grows {g g' : ScopeGraph} (h : g.Grows g') {kind : ScopeKind}
    (hkind : g.kind? scope = some kind) : g'.kind? scope = some kind := by
  obtain ⟨entry, hentry, -⟩ := Option.map_eq_some_iff.mp hkind
  rw [h.kinds scope (ScopeGraph.lt_size_of_get? hentry), hkind]

theorem parent?_of_grows {g g' : ScopeGraph} (h : g.Grows g') {parent : ScopeId}
    (hparent : g.parent? scope = some parent) : g'.parent? scope = some parent := by
  rw [h.parents scope (ScopeGraph.lt_size_of_parent? hparent), hparent]

theorem Located.around (hlocated : s.Located) (h : s.Around within s') : s'.Located := by
  intro symbol kind scope htop
  obtain ⟨hlocal, hkind⟩ := hlocated symbol kind scope (h.top?.symm.trans htop)
  rw [h.cursor]
  exact ⟨hlocal.mono h.onward.grows, kind?_of_grows h.onward.grows hkind⟩

/-- A body is no namespace, and neither is what lies directly in it. -/
theorem Located.not_namespace (hlocated : s.Located) (htop : s.top? = some (symbol, kind, scope)) :
    s.scopes.kind? s.scopes.cursor ≠ some .namespaceScope := by
  obtain ⟨hlocal, hkind⟩ := hlocated symbol kind scope htop
  cases hlocal with
  | here => cases kind <;> simp [hkind, FrameKind.scopeKind]
  | inner _ _ hnamespace _ => exact hnamespace

/-- The cursor lies in the scope of the innermost body. -/
theorem Located.isWithin (hlocated : s.Located) (hs : s.Scoped)
    (htop : s.top? = some (symbol, kind, scope)) : s.scopes.isWithin s.scopes.cursor scope = true := by
  obtain ⟨hlocal, hkind⟩ := hlocated symbol kind scope htop
  obtain ⟨entry, hentry, -⟩ := Option.map_eq_some_iff.mp hkind
  exact ScopeGraph.isWithin_iff.mpr (hlocal.mem_path hs.graph (ScopeGraph.lt_size_of_get? hentry))

/-! ## Blocks -/

/-- A scope is entered from the one that was current. -/
structure Enters (within : Nat → Nat → Prop) (kind : ScopeKind) (s s' : CheckState) : Prop
    extends Passes within s s' where
  parent : s'.scopes.parent? s'.scopes.cursor = some s.scopes.cursor
  kind : s'.scopes.kind? s'.scopes.cursor = some kind

theorem Linked.enters (h : s.Linked within) (kind : ScopeKind) (owner : Option SymbolId)
    (hkind : kind ≠ .namespaceScope) :
    s.Enters within kind { s with scopes := s.scopes.enter kind owner } :=
  ⟨h.rescope (h.fits.enter kind owner fun heq => absurd heq hkind) ScopeGraph.grows_enter,
    ScopeGraph.parent?_enter_self, ScopeGraph.kind?_enter_self⟩

theorem Enters.located (h : s.Enters within .block s') (hlocated : s.Located) : s'.Located := by
  intro symbol kind scope htop
  obtain ⟨hlocal, hkind⟩ := hlocated symbol kind scope (h.top?.symm.trans htop)
  exact ⟨.inner h.parent (by simp [h.kind]) (by simp [h.kind]) (hlocal.mono h.onward.grows),
    kind?_of_grows h.onward.grows hkind⟩

theorem Linked.leaves (h : s.Linked within) : s.Passes within { s with scopes := s.scopes.leave } :=
  h.rescope (h.fits.moveCursor (ScopeGraph.cursor_leave h.fits.graph)) ScopeGraph.grows_leave

/-- A block that is entered is left for the scope around it. -/
theorem Enters.leave {kind : ScopeKind} (h : s.Enters within kind s') (hrun : s'.Around within s'') :
    s.Around within { s'' with scopes := s''.scopes.leave } := by
  refine ⟨(h.toPasses.trans hrun.toPasses).trans hrun.linked.leaves, ?_⟩
  have hparent := parent?_of_grows hrun.onward.grows h.parent
  show (s''.scopes.parent? s''.scopes.cursor).getD s''.scopes.cursor = s.scopes.cursor
  rw [hrun.cursor, hparent]
  rfl

/-! ## Bodies -/

/-- A body is opened in a scope of its own. -/
structure OpensBody (within : Nat → Nat → Prop) (symbol : SymbolId) (kind : FrameKind)
    (scope : ScopeId) (s s' : CheckState) : Prop where
  linked : s'.Linked within
  onward : s.Onward s'
  active : s.tables.symbols.Active s'.tables.symbols
  frames : s'.frames.map Frame.place = (symbol, kind, scope) :: s.frames.map Frame.place
  modules : s'.modules = s.modules
  cursor : s'.scopes.cursor = scope
  parent : s'.scopes.parent? scope = some s.scopes.cursor
  kind : s'.scopes.kind? scope = some kind.scopeKind

theorem OpensBody.top? (h : s.OpensBody within symbol kind scope s') :
    s'.top? = some (symbol, kind, scope) := by
  rw [CheckState.top?, h.frames]
  rfl

theorem OpensBody.body? (h : s.OpensBody within symbol kind scope s') :
    s'.body? = some (kind, scope) := by
  rw [CheckState.body?, h.top?]
  rfl

theorem OpensBody.located (h : s.OpensBody within symbol kind scope s') : s'.Located := by
  intro symbol' kind' scope' htop
  obtain ⟨rfl, heq⟩ := Prod.mk.inj (Option.some.inj (h.top?.symm.trans htop))
  obtain ⟨rfl, rfl⟩ := Prod.mk.inj heq
  rw [h.cursor]
  exact ⟨.here, h.kind⟩

/-- The scope of a body is entered and what belongs in it is declared before the body is opened. -/
theorem opensBody_pushFrame {s₁ s₂ : CheckState} {frame : Frame} {settings : Settings}
    (hpush : (Check.pushFrame frame).Gives settings s₂ () s')
    (h : s.Enters within frame.kind.scopeKind s₁) (hscope : s₁.scopes.cursor = frame.scope)
    (hdeclares : s₁.Around within s₂) (hhosts : s₂.Hosts frame.place) :
    s.OpensBody within frame.symbol frame.kind frame.scope s' := by
  obtain rfl := Check.gives_update.mp hpush
  have honward : s₂.Onward { s₂ with frames := frame :: s₂.frames } :=
    ⟨.refl _, .refl _, fun _ _ h => h, fun _ h => h⟩
  refine ⟨hdeclares.linked.step (hdeclares.linked.fits.congr rfl rfl rfl) honward
    (fun _ _ _ ho => .inl ho) (fun _ _ _ hnode => .inl hnode) (fun place hplace => ?_)
    (fun _ _ _ _ _ ho => .inl ho), (h.onward.trans hdeclares.onward).trans honward,
    h.active.trans hdeclares.active, ?_, hdeclares.modules.trans h.modules, ?_, ?_, ?_⟩
  · rcases List.mem_cons.mp hplace with rfl | hold
    · exact hhosts
    · exact hdeclares.linked.frames place hold
  · rw [List.map_cons, hdeclares.frames, h.frames]
    rfl
  · exact hdeclares.cursor.trans hscope
  · exact parent?_of_grows hdeclares.onward.grows (hscope ▸ h.parent)
  · exact kind?_of_grows hdeclares.onward.grows (hscope ▸ h.kind)

/-- What holds when a body was closed, around all of it and since its analysis. -/
structure ClosesBody (within : Nat → Nat → Prop) (s s₁ s' : CheckState) : Prop
    extends Around within s s' where
  later : s₁.Onward s'
  stays : s₁.tables.symbols.Active s'.tables.symbols

/-- A body that was opened and analyzed is closed. -/
theorem OpensBody.closes {s₁ s₂ s₃ s₄ : CheckState} {settings : Settings} {frame : Frame}
    {body : List Stmt} {span : Span} {ret : TypeId} (hopens : s.OpensBody within symbol kind scope s₁)
    (hrun : s₁.Around within s₂) (hpop : Check.popFrame.Gives settings s₂ frame s₃)
    (hfinish : (Check.finishBody frame body span).Gives settings s₃ ret s₄) :
    s.ClosesBody within s₂ { s₄ with scopes := s₄.scopes.leave } := by
  obtain ⟨rest, hframes, rfl⟩ := Check.gives_popFrame.mp hpop
  have hplaces : frame.place :: rest.map Frame.place =
      (symbol, kind, scope) :: s.frames.map Frame.place := by
    rw [← List.map_cons, ← hframes, hrun.frames, hopens.frames]
  have hrest := (List.cons.inj hplaces).2
  have honward : s₂.Onward { s₂ with frames := rest } :=
    ⟨.refl _, .refl _, fun _ _ h => h, fun _ h => h⟩
  have hpopped : CheckState.Linked within { s₂ with frames := rest } :=
    hrun.linked.step (hrun.linked.fits.congr rfl rfl rfl) honward
      (fun _ _ _ ho => .inl ho) (fun _ _ _ hnode => .inl hnode)
      (fun place hmem => hrun.linked.frames place (by
        rw [hframes, List.map_cons]
        exact List.mem_cons_of_mem _ hmem)) (fun _ _ _ _ _ ho => .inl ho)
  have hfinish := hpopped.quiet Check.quiet_finishBody hfinish
  have hleaves := hfinish.toPasses.trans hfinish.linked.leaves
  have hlater := honward.trans hleaves.onward
  refine ⟨⟨⟨hleaves.linked, (hopens.onward.trans hrun.onward).trans hlater,
    (hopens.active.trans hrun.active).trans hleaves.active, hleaves.frames.trans hrest,
    hleaves.modules.trans (hrun.modules.trans hopens.modules)⟩, ?_⟩, hlater,
    hleaves.active⟩
  have hparent := parent?_of_grows ((hrun.onward.trans honward).trans hfinish.onward).grows hopens.parent
  show (s₄.scopes.parent? s₄.scopes.cursor).getD s₄.scopes.cursor = s.scopes.cursor
  have hcursor : s₄.scopes.cursor = scope :=
    hfinish.cursor.trans (hrun.cursor.trans hopens.cursor)
  rw [hcursor, hparent]
  rfl

/-- An opening that comes after other parts of the analysis. -/
theorem OpensBody.after {s₁ : CheckState} (h : s.Around within s₁)
    (hopens : s₁.OpensBody within symbol kind scope s') : s.OpensBody within symbol kind scope s' :=
  ⟨hopens.linked, h.onward.trans hopens.onward, h.active.trans hopens.active,
    hopens.frames.trans (congrArg _ h.frames), hopens.modules.trans h.modules, hopens.cursor,
    h.cursor ▸ hopens.parent, hopens.kind⟩

end CheckState

namespace Check

open CheckState

variable {settings : Settings} {s s' : CheckState} {within : Nat → Nat → Prop}

/-- In the scope of a body that was entered the parameters are declared, and the body is opened. -/
theorem opensBody_declareParams {s₁ s₂ s₃ : CheckState} {params : List (Param × ExprType)} {frame : Frame}
    (hparams : (declareParams params).Gives settings s₂ () s₃)
    (hpush : (pushFrame frame).Gives settings s₃ () s')
    (henters : s.Enters within frame.kind.scopeKind s₁) (hcursor : s₁.scopes.cursor = frame.scope)
    (hbefore : s₁.Around within s₂) (hhosts : s₁.Hosts frame.place) :
    s.OpensBody within frame.symbol frame.kind frame.scope s' ∧ s₁.Onward s' ∧
      s₁.tables.symbols.Active s'.tables.symbols := by
  have hkind : s₂.scopes.kind? s₂.scopes.cursor ≠ some .namespaceScope := by
    rw [hbefore.cursor, kind?_of_grows hbefore.onward.grows henters.kind]
    cases frame.kind <;> simp [FrameKind.scopeKind]
  have hdeclares := hbefore.trans
    (hbefore.linked.still (still_declareParams _ hbefore.linked.fits hkind hparams))
  have hopens := opensBody_pushFrame hpush henters hcursor hdeclares
    (hhosts.mono hdeclares.onward hdeclares.active)
  obtain rfl := gives_update.mp hpush
  exact ⟨hopens, hdeclares.onward.trans ⟨.refl _, .refl _, fun _ _ h => h, fun _ h => h⟩,
    hdeclares.active⟩

/-! ## Closures -/

/-- A new closure gets a scope of its own. -/
theorem enters_newClosure {s₁ s₂ : CheckState} (h : s.Linked within) {node : Nat} {entry : Symbol}
    {info : ClosureInfo} {t : SymbolTable} (hkind : entry.kind = .closure info)
    (hplace : entry.scope = s.scopes.cursor) (hscope : info.scope = s.scopes.cursor)
    (hcaptures : info.captures = []) (hparent : ∀ outer, info.parent = some outer → ∃ place around,
      s.tables.symbols.outline? outer = some (place, .closure around))
    (hs₁ : { s with tables.symbols := (s.tables.symbols.add entry).2 } = s₁)
    (huse : (useSymbol node s.tables.symbols.size).Gives settings s₁ () s₂)
    (ht : s₂.tables.symbols.modifyClosure s.tables.symbols.size
      (fun info => { info with scope := s₂.scopes.size }) = t)
    (hs' : { s₂ with
      closures := s₂.closures ++ [s.tables.symbols.size]
      scopes := s₂.scopes.enter .closure (some s.tables.symbols.size)
      tables.symbols := t } = s') :
    s.Enters within .closure s' ∧ s'.meanings.exprs.get? node = some s.tables.symbols.size ∧
      s'.tables.symbols.outline? s.tables.symbols.size =
        some (s.scopes.cursor, .closure ⟨info.parent, [], s'.scopes.cursor⟩) := by
  have hadded : s₁.Scoped := by
    refine hs₁ ▸ h.fits.addSymbol entry (hplace ▸ h.fits.graph.cursor) fun scope hinner => ?_
    rw [hkind] at hinner
    obtain rfl := Option.some.inj hinner
    exact Nat.lt_of_le_of_lt (Nat.le_of_eq hscope) h.fits.graph.cursor
  have hstill := quiet_useSymbol.still huse hadded
  have hgains : s.Gains s.tables.symbols.size s₂ := (hs₁ ▸ gains_add).still hstill
  have hused : s₂.tables.symbols.outline? s.tables.symbols.size =
      some (s.scopes.cursor, .closure info.links) := by
    refine hstill.symbols.kept _ _ (hs₁ ▸ ?_)
    exact SymbolTable.sets_add.self.trans (by rw [hkind, hplace, SymbolKind.outline])
  have hsets : s₂.tables.symbols.Sets s.tables.symbols.size s.scopes.cursor
      (.closure ⟨info.parent, [], s₂.scopes.size⟩) t := by
    obtain ⟨info₂, hinfo₂, hlinks⟩ := SymbolTable.closure?_of_outline? hused
    have hparent₂ : info₂.parent = info.parent := congrArg Links.parent hlinks
    have hcaptures₂ : info₂.captures = [] := (congrArg Links.captures hlinks).trans hcaptures
    rw [← ht, ← hparent₂, ← hcaptures₂]
    exact SymbolTable.sets_modifyClosure hinfo₂ hused
  have hgrows : s.scopes.Grows (s₂.scopes.enter .closure (some s.tables.symbols.size)) :=
    hgains.grows.trans ScopeGraph.grows_enter
  have hscoped : s'.Scoped := by
    have hentered := hstill.fits.enter .closure (some s.tables.symbols.size) (by simp)
    refine hs' ▸ (hentered.sets hsets (hsets.reshapes hused (fun h => h) fun h => h)
      (Nat.lt_of_lt_of_le h.fits.graph.cursor hgrows.size) fun scope hinner => ?_).congr rfl rfl rfl
    obtain rfl := Option.some.inj hinner
    exact ScopeGraph.lt_size_enter
  have hself : s'.tables.symbols.outline? s.tables.symbols.size =
      some (s.scopes.cursor, .closure ⟨info.parent, [], s₂.scopes.size⟩) := hs' ▸ hsets.self
  have hnew : s.Gains s.tables.symbols.size s' := hs' ▸ ⟨hgrows,
    hgains.symbols.sets SymbolTable.outline?_size hsets, hgains.meanings, hgains.captured, hgains.frames,
    hgains.modules⟩
  have hpasses : s.Passes within s' := by
    refine h.gains hnew hscoped (fun place links ho => ?_) fun place decl body state ho => ?_
    · obtain rfl := Outline.closure.inj (SymbolTable.outline?_inj hself ho).2
      refine ⟨List.nodup_nil, by simp, fun outer houter => ?_, by simp⟩
      obtain ⟨place, around, ho⟩ := hparent outer houter
      exact ⟨SymbolTable.lt_size_of_outline? ho, place, around, hnew.symbols.kept _ _ ho⟩
    · simp [hself] at ho
  have hmeaning := meaning_useSymbol huse
  subst hs'
  have hcursor : s₂.scopes.cursor = s.scopes.cursor := hstill.cursor.trans (hs₁ ▸ rfl)
  exact ⟨⟨hpasses, ScopeGraph.parent?_enter_self.trans (congrArg some hcursor),
    ScopeGraph.kind?_enter_self⟩, hmeaning, hself⟩

theorem opensBody_openClosure (h : s.Linked within) {node : Node} {sig : Signature}
    (hgives : (openClosure node sig).Gives settings s () s') :
    ∃ closure scope, s.OpensBody within closure .closure scope s' ∧
      s'.meanings.exprs.get? node.id = some closure := by
  simp only [openClosure, gives_bind, gives_frame?, gives_cursor, gives_newSymbol, gives_update,
    gives_enterScope, gives_modifyClosure] at hgives
  obtain ⟨params, s₁, hparams, ret, s₂, hret, _, _, ⟨rfl, rfl⟩, _, _, ⟨rfl, rfl⟩, _, _, ⟨rfl, rfl⟩,
    _, s₃, ⟨rfl, hs₃⟩, _, s₄, huse, _, s₅, rfl, _, s₆, ⟨rfl, rfl⟩, _, s₇, ⟨-, hs₇⟩, _, s₈, hdeclare,
    hpush⟩ := hgives
  have hparams := h.quiet (quiet_lowerSignature _) hparams
  have hbefore := hparams.trans (hparams.linked.quiet quiet_lowerOptional hret)
  have henters := enters_newClosure hbefore.linked rfl rfl rfl rfl (fun outer houter => ?_) hs₃ huse
    rfl hs₇
  · obtain ⟨henters, hmeaning, ho⟩ := henters
    have hcursor : s₇.scopes.cursor = s₄.scopes.size := by subst hs₇; rfl
    obtain ⟨hopens, honward, -⟩ := opensBody_declareParams hdeclare hpush henters hcursor
      (.refl henters.linked) ⟨_, _, ho, hcursor⟩
    exact ⟨_, _, hopens.after hbefore, honward.meanings _ _ hmeaning⟩
  · split at houter
    · next frame hframe =>
      split at houter
      · next hkind =>
        obtain rfl := Option.some.inj houter
        have hmem := List.mem_map_of_mem (f := Frame.place) (List.mem_of_mem_head? hframe)
        obtain ⟨place, links, ho, -⟩ : s₂.Hosts (frame.symbol, .closure, frame.scope) := by
          rw [← hkind]
          exact hbefore.linked.frames _ hmem
        exact ⟨place, links, ho⟩
      · cases houter
    · cases houter

/-- A closure is closed, and its type is entered. -/
theorem closesBody_closeClosure {node : Node} {body : List Stmt} {type : ExprType} {s₁ s₂ : CheckState}
    {symbol : SymbolId} {kind : FrameKind} {scope : ScopeId}
    (hopens : s.OpensBody within symbol kind scope s₁) (hrun : s₁.Around within s₂)
    (hgives : (closeClosure node body).Gives settings s₂ type s') : s.ClosesBody within s₂ s' := by
  simp only [closeClosure, gives_bind, gives_tables, gives_require, gives_pure] at hgives
  obtain ⟨frame, s₃, hpop, ret, s₄, hfinish, _, s₅, hleave, _, s₆, hret, _, _, ⟨rfl, rfl⟩, info, _,
    ⟨-, rfl⟩, _, _, hintern, -, rfl⟩ := hgives
  obtain ⟨-, rfl⟩ := gives_leaveScope.mp hleave
  have hcloses := hopens.closes hrun hpop hfinish
  have hret := hcloses.linked.quiet
    (quiet_modifyClosure (f := fun info => { info with ret := some ret }) fun _ => rfl) hret
  have hlast := hret.trans (hret.linked.quiet quiet_intern hintern)
  exact ⟨hcloses.toAround.trans hlast, hcloses.later.trans hlast.onward, hcloses.stays.trans hlast.active⟩

/-! ## Functions -/

/-- A function that is added is not analyzed yet, unless it has no body. -/
theorem passes_addFunc (h : s.Linked within) (entry : Symbol) {info : FuncInfo}
    (hkind : entry.kind = .func info) (hplace : entry.scope = s.scopes.cursor)
    (hbody : info.bodyScope = none) (hstate : info.state = .done → info.decl.body = none)
    (hsites : ∀ site ∈ info.decl.sites, ∀ inner, site.closure = some inner → within site.id inner) :
    s.Passes within { s with tables.symbols := (s.tables.symbols.add entry).2 } := by
  have hself : (s.tables.symbols.add entry).2.outline? s.tables.symbols.size =
      some (s.scopes.cursor, .func info.decl none info.state) :=
    SymbolTable.sets_add.self.trans (by rw [hkind, hplace, SymbolKind.outline, hbody])
  have hscoped := h.fits.addSymbol entry (hplace ▸ h.fits.graph.cursor) fun scope hinner => by
    rw [hkind, SymbolKind.outline, hbody] at hinner
    cases hinner
  refine h.gains gains_add hscoped (fun place links ho => ?_) fun place decl body state ho => ?_
  · simp [hself] at ho
  · obtain ⟨rfl, heq⟩ := SymbolTable.outline?_inj hself ho
    obtain ⟨rfl, rfl, rfl⟩ := Outline.func.inj heq
    refine ⟨hsites, by simp, fun hdone site hsite => ?_⟩
    rw [FuncDecl.sites_eq, hstate hdone] at hsite
    simp [Stmt.optionSites] at hsite

/-- A function is declared at the cursor. -/
theorem around_declareFunc (h : s.Linked within) {decl : FuncDecl} {owner : Option SymbolId}
    {func : SymbolId}
    (hsites : ∀ site ∈ decl.sites, ∀ inner, site.closure = some inner → within site.id inner)
    (hgives : (declareFunc decl owner).Gives settings s func s') :
    s.Around within s' ∧ s'.tables.symbols.outline? func = some (s.scopes.cursor,
      .func decl none (if decl.body.isSome then .unchecked else .done)) := by
  simp only [declareFunc, gives_bind, gives_cursor, gives_pure] at hgives
  obtain ⟨params, s₁, hparams, ret, s₂, hret, _, _, ⟨rfl, rfl⟩, _, s₃, hnew, _, s₄, hset, _, _, hdeclare,
    rfl, rfl⟩ := hgives
  have hparams := h.quiet (quiet_lowerSignature _) hparams
  have hbefore := hparams.trans (hparams.linked.quiet quiet_declaredResult hret)
  obtain ⟨rfl, rfl⟩ := gives_newSymbol.mp hnew
  have hadds := passes_addFunc hbefore.linked
    ⟨decl.name.name, decl.name.span, .func ⟨decl, params, ret, owner,
      if decl.body.isSome then .unchecked else .done, none⟩, s₂.scopes.cursor, false, false⟩
    rfl rfl rfl (by simp) hsites
  have hset := quiet_setDeclSymbol.still hset hadds.linked.fits
  have ho := hset.symbols.kept _ _ SymbolTable.sets_add.self
  have hrow : s₄.RowFits s₄.scopes.cursor (funcRow decl owner s₂.tables.symbols.size).symbol :=
    ⟨_, _, by cases owner <;> exact ho, by simp [SymbolKind.outline]⟩
  have hdeclare := still_declareRow hset.fits hrow hdeclare
  have hafter := hadds.linked.still (hset.trans hdeclare)
  refine ⟨hbefore.trans ⟨hadds.trans hafter.toPasses, hafter.cursor⟩, ?_⟩
  rw [← hbefore.cursor]
  exact hdeclare.symbols.kept _ _ ho

/-- The body of a function that was not analyzed yet is entered in the scope of the declaration. -/
theorem enters_startFunc (h : s.Linked within) {func : SymbolId} {place : ScopeId} {decl : FuncDecl}
    {body : Option ScopeId} {t : SymbolTable}
    (ho : s.tables.symbols.outline? func = some (place, .func decl body .unchecked))
    (ht : s.tables.symbols.Sets func place (.func decl (some s.scopes.size) .inProgress) t) :
    CheckState.Enters within .function { s with scopes := s.scopes.setCursor place }
      { s with
        scopes := (s.scopes.setCursor place).enter .function (some func)
        tables.symbols := t } := by
  have hplace := (h.fits.symbols func place _ ho).1
  have hmoved := h.rescope (h.fits.moveCursor hplace) ScopeGraph.grows_setCursor
  have henters := hmoved.linked.enters .function (some func) (by simp)
  have hstarts := henters.linked.passes_sets ht ho (.func _ _ _ nofun) (fun scope hscope => ?_) (by simp)
    (fun decl' body' state heq => ?_) (by simp)
  · exact ⟨henters.toPasses.trans hstarts, henters.parent, henters.kind⟩
  · obtain rfl := Option.some.inj hscope
    exact ScopeGraph.lt_size_enter (g := s.scopes.setCursor place)
  · obtain ⟨rfl, rfl, rfl⟩ := Outline.func.inj heq
    refine ⟨(h.funcs func place decl body _ ho).sites, fun scope hscope => ?_, by simp⟩
    obtain rfl := Option.some.inj hscope
    exact henters.parent

/-- The body of a function that was not analyzed yet is opened. -/
theorem opensBody_openBody (h : s.Linked within) {func : SymbolId} {info : FuncInfo} {entry : Symbol}
    {s₁ : CheckState} (hfunc : s.tables.symbols.func? func = some info) (hstate : info.state = .unchecked)
    (hstart : (setBodyState func .inProgress).Gives settings s () s₁)
    (hentry : s₁.tables.symbols.get? func = some entry)
    (hopen : (openBody func info).Gives settings
      { s₁ with scopes := s₁.scopes.setCursor entry.scope } () s') :
    s.tables.symbols.outline? func = some (entry.scope, .func info.decl info.bodyScope .unchecked) ∧
      ∃ scope, CheckState.OpensBody within func .function scope
        { s with scopes := s.scopes.setCursor entry.scope } s' ∧
        s'.tables.symbols.outline? func = some (entry.scope, .func info.decl (some scope) .inProgress) := by
  obtain ⟨-, rfl⟩ := gives_modifyAt.mp hstart
  obtain ⟨place, ho⟩ := SymbolTable.outline?_of_func? hfunc
  rw [hstate] at ho
  have hstarted := SymbolTable.sets_modifyFunc (f := fun info => { info with state := .inProgress }) hfunc ho
  obtain ⟨rfl, -⟩ := SymbolTable.outline?_inj (SymbolTable.outline?_of_get? hentry) hstarted.self
  simp only [openBody, gives_bind, gives_enterScope, gives_modifyFunc] at hopen
  obtain ⟨_, _, ⟨rfl, rfl⟩, _, s₂, ⟨-, hs₂⟩, hopen⟩ := hopen
  have hinfo : (s.tables.symbols.modifyFunc func fun info => { info with state := .inProgress }).func?
      func = some { info with state := .inProgress } :=
    SymbolTable.func?_eq_some.mpr (SymbolTable.kind?_modifyKind_of (SymbolTable.func?_eq_some.mp hfunc))
  have ht : s.tables.symbols.Sets func entry.scope (.func info.decl (some s.scopes.size) .inProgress)
      s₂.tables.symbols := by
    obtain rfl := hs₂
    exact hstarted.trans (SymbolTable.sets_modifyFunc hinfo hstarted.self)
  have henters :
      CheckState.Enters within .function { s with scopes := s.scopes.setCursor entry.scope } s₂ := by
    obtain rfl := hs₂
    exact enters_startFunc h ho ht
  have hcursor : s₂.scopes.cursor = s.scopes.size := by
    obtain rfl := hs₂
    rfl
  refine ⟨ho, s.scopes.size, ?_⟩
  -- Whether or not there is a receiver, the parameters are declared next.
  have finish {s₃ s₄ : CheckState} {ret : ReturnSlot} (hbefore : s₂.Around within s₃)
      (hparams : (declareParams (info.decl.sig.params.zip info.params)).Gives settings s₃ () s₄)
      (hpush : (pushFrame { symbol := func, kind := .function, scope := s.scopes.size, ret := ret }).Gives
        settings s₄ () s') :
      CheckState.OpensBody within func .function s.scopes.size
        { s with scopes := s.scopes.setCursor entry.scope } s' ∧
        s'.tables.symbols.outline? func =
          some (entry.scope, .func info.decl (some s.scopes.size) .inProgress) := by
    obtain ⟨hopens, -, hactive⟩ := opensBody_declareParams hparams hpush henters hcursor hbefore
      ⟨_, _, ht.self⟩
    exact ⟨hopens, hactive func _ _ _ ht.self⟩
  split at hopen
  · simp only [gives_bind] at hopen
    obtain ⟨type, s₃, htype, _, s₄, hself, _, s₅, hparams, hpush⟩ := hopen
    have htype := henters.linked.quiet quiet_typeOfSymbol htype
    have hkind : s₃.scopes.kind? s₃.scopes.cursor ≠ some .namespaceScope := by
      rw [htype.cursor, kind?_of_grows htype.onward.grows henters.kind]
      simp
    exact finish (htype.trans (htype.linked.still
      (still_declareObject htype.linked.fits (.inr hkind) hself))) hparams hpush
  · rw [gives_bind] at hopen
    obtain ⟨_, s₃, hparams, hpush⟩ := hopen
    exact finish (.refl henters.linked) hparams hpush

/-- A function is done once everything in it has been read. -/
theorem linked_doneFunc (h : s.Linked within) {func : SymbolId} {place : ScopeId} {decl : FuncDecl}
    {body : Option ScopeId} {state : BodyState} {t : SymbolTable}
    (ho : s.tables.symbols.outline? func = some (place, .func decl body state))
    (ht : s.tables.symbols.Sets func place (.func decl body .done) t)
    (hreads : ∀ site ∈ decl.sites, ∃ scope, body = some scope ∧ s.Reads (some (.function, scope)) site)
    (hframes : ∀ place ∈ s.frames.map Frame.place,
      CheckState.Hosts { s with tables.symbols := t } place) :
    CheckState.Linked within { s with tables.symbols := t } := by
  refine h.sets ht ho (.func _ _ _ fun _ => rfl) (h.fits.symbols func place _ ho).2 (by simp)
    (fun decl' body' state' heq => ?_) hframes
  obtain ⟨rfl, rfl, rfl⟩ := Outline.func.inj heq
  have honward := onward_of_extends (ht.extends ho (.func _ _ _ fun _ => rfl))
  have hbodied := (h.funcs func place decl body state ho).mono h.fits honward
  refine ⟨hbodied.sites, hbodied.scope, fun _ site hsite => ?_⟩
  obtain ⟨scope, hscope, hread⟩ := hreads site hsite
  exact ⟨scope, hscope, hread.mono h.fits honward⟩

/-- A function without a body is done at once. -/
theorem around_setBodyState (h : s.Linked within) {func : SymbolId} {info : FuncInfo}
    (hfunc : s.tables.symbols.func? func = some info) (hstate : info.state = .unchecked)
    (hbody : info.decl.body = none) (hgives : (setBodyState func .done).Gives settings s () s') :
    ∃ place, s.tables.symbols.outline? func = some (place, .func info.decl info.bodyScope .unchecked) ∧
      s.Around within s' ∧
        s'.tables.symbols.outline? func = some (place, .func info.decl info.bodyScope .done) := by
  obtain ⟨-, rfl⟩ := gives_modifyAt.mp hgives
  obtain ⟨place, ho⟩ := SymbolTable.outline?_of_func? hfunc
  rw [hstate] at ho
  have ht := SymbolTable.sets_modifyFunc (f := fun info => { info with state := .done }) hfunc ho
  have hactive := ht.active ho (by simp)
  have honward := onward_of_extends (ht.extends ho (.func _ _ _ fun _ => rfl))
  have hlinked := linked_doneFunc h ho ht (fun site hsite => by
    rw [FuncDecl.sites_eq, hbody] at hsite
    simp [Stmt.optionSites] at hsite) fun place hplace => (h.frames place hplace).mono honward hactive
  exact ⟨place, ho, ⟨⟨hlinked, honward, hactive, rfl, rfl⟩, rfl⟩, ht.self⟩

/-- The body of a function is closed, and the function is done. -/
theorem around_closeBody (h : s.Linked within) {func : SymbolId} {place scope : ScopeId}
    {decl : FuncDecl} {unentered : Option ScopeId} {body : List Stmt} {ret : TypeId}
    {s₁ s₂ s₃ : CheckState}
    (ho : s.tables.symbols.outline? func = some (place, .func decl unentered .unchecked))
    (hopens : CheckState.OpensBody within func .function scope
      { s with scopes := s.scopes.setCursor place } s₁)
    (ho₁ : s₁.tables.symbols.outline? func = some (place, .func decl (some scope) .inProgress))
    (hrun : s₁.Around within s₂)
    (hreads : ∀ site ∈ decl.sites, s₂.Reads (some (.function, scope)) site)
    (hclose : (closeBody decl body).Gives settings s₂ ret s₃)
    (hfinish : (modifyFunc func fun info =>
      { info with ret := some ret, state := .done }).Gives settings
      { s₃ with scopes := s₃.scopes.setCursor s.scopes.cursor } () s') :
    s.Around within s' ∧
      s'.tables.symbols.outline? func = some (place, .func decl (some scope) .done) := by
  simp only [closeBody, gives_bind, gives_pure] at hclose
  obtain ⟨frame, s₄, hpop, ret, s₅, hbody, _, _, hleave, rfl, rfl⟩ := hclose
  obtain ⟨-, rfl⟩ := gives_modifyAt.mp hfinish
  obtain ⟨-, rfl⟩ := gives_leaveScope.mp hleave
  have hcloses := hopens.closes hrun hpop hbody
  have hcursor : s.scopes.cursor < s₅.scopes.leave.size :=
    Nat.lt_of_lt_of_le h.fits.graph.cursor hcloses.onward.grows.size
  have hmoved := hcloses.linked.rescope (hcloses.linked.fits.moveCursor hcursor)
    ScopeGraph.grows_setCursor
  have hstart : s.Onward { s with scopes := s.scopes.setCursor place } :=
    ⟨ScopeGraph.grows_setCursor, .refl _, fun _ _ hm => hm, fun _ hc => hc⟩
  have ho₅ := hcloses.stays func _ _ _ (hrun.active func _ _ _ ho₁)
  obtain ⟨info, hinfo, rfl, hscope, -⟩ := SymbolTable.func?_of_outline? ho₅
  have ht : s₅.tables.symbols.Sets func place (.func info.decl (some scope) .done)
      (s₅.tables.symbols.modifyFunc func fun info => { info with ret := some ret, state := .done }) :=
    hscope ▸ SymbolTable.sets_modifyFunc hinfo ho₅
  have honward := onward_of_extends (s := { s₅ with scopes := s₅.scopes.leave.setCursor s.scopes.cursor })
    (ht.extends ho₅ (.func _ _ _ fun _ => rfl))
  have hafter := (hstart.trans (hcloses.onward.trans hmoved.onward)).trans honward
  have hactive : s.tables.symbols.Active (s₅.tables.symbols.modifyFunc func fun info =>
      { info with ret := some ret, state := .done }) := fun id place' decl' body' hid => by
    have hne : func ≠ id := fun heq => by
      subst heq
      simp [ho] at hid
    exact (ht.of_ne hne).trans (hcloses.active id _ _ _ hid)
  have hlinked := linked_doneFunc hmoved.linked ho₅ ht (fun site hsite => ⟨scope, rfl,
    (hreads site hsite).mono hrun.linked.fits (hcloses.later.trans hmoved.onward)⟩)
    fun place' hplace => (h.frames place' (hcloses.frames ▸ hplace)).mono hafter hactive
  exact ⟨⟨⟨hlinked, hafter, hactive, hcloses.frames, hcloses.modules⟩, rfl⟩, ht.self⟩

end Check

end Stela
