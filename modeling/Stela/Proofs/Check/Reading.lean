import Stela.Proofs.Check.Finding

/-!
# Everything that is visited is read

Each successful run of the analysis keeps the links between closures consistent
and reads every name in what it visits. The induction is on the run. A body that
is analyzed on demand is a run of its own; its names are read in that body, not
in the one that asked for it.
-/

namespace Stela

/-- Every expression is one of its own places. -/
theorem Expr.mem_sites (e : Expr) : (⟨e, none⟩ : Site) ∈ e.sites := by
  cases e <;> simp [Expr.sites]

namespace CheckState

variable {s s' : CheckState} {within : Nat → Nat → Prop} {sites sites' : List Site}

/-- Expressions directly in the innermost body stand in its closure, the others in closures inside
that body. -/
def Admitted (s : CheckState) (within : Nat → Nat → Prop) (sites : List Site) : Prop :=
  ∀ site ∈ sites, (site.closure = none → s.Admits within site.id) ∧
    ∀ inner, site.closure = some inner → within site.id inner

/-- All names at these places are read in the innermost body or in closures inside it. -/
def AllRead (s : CheckState) (sites : List Site) : Prop := ∀ site ∈ sites, s.Reads s.body? site

theorem Admitted.passes (h : s.Admitted within sites) (hrun : s.Passes within s') :
    s'.Admitted within sites := fun site hsite =>
  ⟨fun hnone => ((h site hsite).1 hnone).passes hrun, (h site hsite).2⟩

theorem AllRead.passes (h : s.AllRead sites) (hs : s.Scoped) (hrun : s.Passes within s') :
    s'.AllRead sites := fun site hsite => by
  rw [hrun.body?]
  exact (h site hsite).mono hs hrun.onward

theorem allRead_nil : s.AllRead [] := nofun

theorem AllRead.append (h : s.AllRead sites) (h' : s.AllRead sites') : s.AllRead (sites ++ sites') :=
  List.forall_mem_append.mpr ⟨h, h'⟩

/-- An expression that is no name is read with its parts. -/
theorem AllRead.node {e : Expr} (h : s.AllRead sites) (hident : e.isIdent = false) :
    s.AllRead (sites ++ [⟨e, none⟩]) := h.append fun site hsite => by
  obtain rfl := List.mem_singleton.mp hsite
  exact fun h => by simp [hident] at h

end CheckState

namespace Check

open CheckState

variable {settings : Settings} {within : Nat → Nat → Prop} {task next : Task} {s s₁ s₂ s' : CheckState}

/-! ## Parts of the analysis -/

/-- The expressions that a part of the analysis visits in the innermost body. -/
def Task.sites : Task → List Site
  | .expr _ _ e _ => e.sites
  | .args exprs _ => Expr.listSites exprs
  | .elements _ exprs => Expr.listSites exprs
  | .stmt single => single.sites
  | .stmts list => Stmt.listSites list
  | .binding _ var => var.sites
  | _ => []

/-- The name that a part of the analysis finds the meaning of. -/
def Task.node? : Task → Option Nat
  | .callee node .. => some node
  | .value node .. => some node
  | .entries node .. => some node
  | _ => none

/-- Whether a part of the analysis takes place only inside a body. -/
def Task.InBody : Task → Prop
  | .stmt _ => True
  | .stmts _ => True
  | .binding (.stmt ..) _ => True
  | _ => False

/-- What holds before a part of the analysis. -/
structure Begins (within : Nat → Nat → Prop) (task : Task) (s : CheckState) : Prop where
  linked : s.Linked within
  located : s.Located
  admitted : s.Admitted within task.sites
  node : ∀ node, task.node? = some node → s.Admits within node
  framed : task.InBody → ∃ place, s.top? = some place

/-- What a part of the analysis finds: the meaning of a name, or everything about a function. -/
def Task.Finds : Task → CheckState → CheckState → Prop
  | .callee node symbols _ _, _, s' => s'.Denotes node symbols
  | .value node symbols _, _, s' => s'.Denotes node symbols
  | .entries node symbols _ _, _, s' => s'.Denotes node symbols
  | .body func, s, s' => ∀ place decl body,
    s.tables.symbols.outline? func = some (place, .func decl body .unchecked) →
    ∃ body', s'.tables.symbols.outline? func = some (place, .func decl body' .done)
  | _, _, _ => True

/-- What holds after a part of the analysis. -/
structure Ends (within : Nat → Nat → Prop) (task : Task) (s s' : CheckState) : Prop
    extends Around within s s' where
  reads : s'.AllRead task.sites
  finds : task.Finds s s'

theorem Begins.part (hb : Begins within task s) (hrun : s.Around within s₁)
    (hsites : next.sites ⊆ task.sites) (hnode : next.node? = none) (hbody : next.InBody → task.InBody) :
    Begins within next s₁ :=
  ⟨hrun.linked, hb.located.around hrun,
    fun site hsite => hb.admitted.passes hrun.toPasses site (hsites hsite),
    fun node h => by simp [hnode] at h, fun h => by
      obtain ⟨place, htop⟩ := hb.framed (hbody h)
      exact ⟨place, hrun.top?.trans htop⟩⟩

/-- A variable of a body is declared in no namespace. -/
theorem Begins.not_namespace {place : BindingPlace} {binding : Binding}
    (hb : Begins within (.binding place binding) s) (hrun : s.Around within s₁) (id : Nat)
    (hplace : place = .stmt id) : s₁.scopes.kind? s₁.scopes.cursor ≠ some .namespaceScope := by
  subst hplace
  obtain ⟨⟨symbol, kind, scope⟩, htop⟩ := hb.framed trivial
  exact (hb.located.around hrun).not_namespace (hrun.top?.trans htop)

/-- A part of the analysis visits an expression. -/
theorem Begins.expr (hb : Begins within task s) (hrun : s.Around within s₁) {context : ExprContext}
    {expected : Option TypeId} {e : Expr} {type : ExprType} (hsites : e.sites ⊆ task.sites) :
    Begins within (.expr context expected e type) s₁ :=
  hb.part hrun hsites rfl False.elim

/-- A part of the analysis visits a function, the body of which it does not belong to. -/
theorem Begins.alone (hb : Begins within task s) (hrun : s.Around within s₁) (hsites : next.sites = [])
    (hnode : next.node? = none) (hbody : ¬ next.InBody) : Begins within next s₁ :=
  hb.part hrun (by simp [hsites]) hnode fun h => absurd h hbody

/-- The meaning of the name of an expression is found. -/
theorem Begins.named {context : ExprContext} {expected : Option TypeId} {e : Expr} {type : ExprType}
    (hb : Begins within (.expr context expected e type) s) (hrun : s.Around within s₁)
    (hsites : next.sites = []) (hnode : next.node? = some e.id) (hbody : ¬ next.InBody) :
    Begins within next s₁ :=
  ⟨hrun.linked, hb.located.around hrun, by simp [hsites, Admitted], fun node h => by
    obtain rfl := Option.some.inj (hnode.symm.trans h)
    exact ((hb.admitted ⟨e, none⟩ e.mem_sites).1 rfl).passes hrun.toPasses, fun h => absurd h hbody⟩

theorem Ends.after (h : Ends within task s s₁) (hrun : s₁.Around within s') : s'.AllRead task.sites :=
  h.reads.passes h.linked.fits hrun.toPasses

/-- A part of the analysis that visits nothing. -/
theorem ends_of_around (hrun : s.Around within s') (hsites : task.sites = []) (hfinds : task.Finds s s') :
    Ends within task s s' :=
  ⟨hrun, hsites ▸ allRead_nil, hfinds⟩

/-- The statements of a block are visited in a scope of their own. -/
theorem ends_block {body : List Stmt} {scope : ScopeId} {s₃ : CheckState}
    (hb : Begins within (.stmts body) s) (henter : (enterScope .block none).Gives settings s scope s₁)
    (ih : Begins within (.stmts body) s₁ → Ends within (.stmts body) s₁ s₂)
    (hleave : leaveScope.Gives settings s₂ () s₃) : Ends within (.stmts body) s s₃ := by
  obtain ⟨rfl, rfl⟩ := gives_enterScope.mp henter
  obtain ⟨-, rfl⟩ := gives_leaveScope.mp hleave
  have henters := hb.linked.enters .block none (by simp)
  have hbody := ih ⟨henters.linked, henters.located hb.located, hb.admitted.passes henters.toPasses,
    nofun, fun h => by
      obtain ⟨place, htop⟩ := hb.framed h
      exact ⟨place, henters.top?.trans htop⟩⟩
  exact ⟨henters.leave hbody.toAround,
    hbody.reads.passes hbody.linked.fits hbody.linked.leaves, trivial⟩

/-! ## Closures and functions -/

/-- Everything in a closure is read in it. -/
theorem ends_closure {context : ExprContext} {expected : Option TypeId} {node : Node} {sig : Signature}
    {body : List Stmt} {type r : ExprType} {s₃ : CheckState}
    (hb : Begins within (.expr context expected (.closure node sig body) r) s)
    (hopen : (openClosure node sig).Gives settings s () s₁)
    (ih : Begins within (.stmts body) s₁ → Ends within (.stmts body) s₁ s₂)
    (hclose : (closeClosure node body).Gives settings s₂ type s₃)
    (hrecord : (record node context type).Gives settings s₃ r s') :
    Ends within (.expr context expected (.closure node sig body) r) s s' := by
  obtain ⟨closure, scope, hopens, hmeaning⟩ := opensBody_openClosure hb.linked hopen
  have hinside (site : Site) (hsite : site ∈ Stmt.listSites body) (inner : Nat)
      (hinner : (site.inside node.id).closure = some inner) : within site.id inner := by
    refine (hb.admitted (site.inside node.id) ?_).2 inner hinner
    rw [Task.sites, Expr.sites]
    exact List.mem_append_left _ (List.mem_map_of_mem hsite)
  have hbody := ih ⟨hopens.linked, hopens.located, fun site hsite => ⟨fun hnone symbol scope' htop => ?_,
    fun inner hsome => hinside site hsite inner (by simp [Site.inside, hsome])⟩, nofun,
    fun _ => ⟨_, hopens.top?⟩⟩
  · have hcloses := closesBody_closeClosure hopens hbody.toAround hclose
    have hlast := hcloses.linked.quiet quiet_record hrecord
    have hlater := hcloses.later.trans hlast.onward
    obtain ⟨place, links, ho, hscope⟩ := hopens.linked.frames _ (List.mem_of_mem_head? hopens.top?)
    obtain ⟨links', ho', -, hscope', -⟩ := (hbody.onward.trans hlater).symbols.closure ho
    refine ⟨hcloses.toAround.trans hlast, ?_, trivial⟩
    have hread : s'.AllRead ((Stmt.listSites body).map (Site.inside node.id)) := fun site hsite => by
      obtain ⟨inner, hinner, rfl⟩ := List.mem_map.mp hsite
      refine Reads.inside ((hbody.onward.trans hlater).meanings _ _ hmeaning) ho' ?_
      rw [hscope', hscope]
      have hbody? := hbody.body?.trans hopens.body?
      exact (hbody? ▸ hbody.reads inner hinner).mono hbody.linked.fits hlater
    rw [Task.sites, Expr.sites]
    exact hread.node rfl
  · obtain ⟨rfl, -⟩ := Prod.mk.inj (Option.some.inj (hopens.top?.symm.trans htop))
    exact ⟨node.id, hmeaning, hinside site hsite node.id (by simp [Site.inside, hnone])⟩

/-- A function is done once its body has been visited. -/
theorem ends_body {func : SymbolId} {info : FuncInfo} {body : List Stmt} {entry : Symbol} {ret : TypeId}
    {s₃ s₄ : CheckState} (hb : Begins within (.body func) s)
    (hfunc : s.tables.symbols.func? func = some info) (hstate : info.state = .unchecked)
    (hbody : info.decl.body = some body)
    (hstart : (setBodyState func .inProgress).Gives settings s () s₁)
    (hentry : s₁.tables.symbols.get? func = some entry)
    (hopen : (openBody func info).Gives settings
      { s₁ with scopes := s₁.scopes.setCursor entry.scope } () s₂)
    (ih : Begins within (.stmts body) s₂ → Ends within (.stmts body) s₂ s₃)
    (hclose : (closeBody info.decl body).Gives settings s₃ ret s₄)
    (hfinish : (modifyFunc func fun info =>
      { info with ret := some ret, state := .done }).Gives settings
      { s₄ with scopes := s₄.scopes.setCursor s₁.scopes.cursor } () s') :
    Ends within (.body func) s s' := by
  have hcursor : s₁.scopes.cursor = s.scopes.cursor := by
    obtain ⟨-, rfl⟩ := gives_modifyAt.mp hstart
    rfl
  obtain ⟨ho, scope, hopens, ho₂⟩ := opensBody_openBody hb.linked hfunc hstate hstart hentry hopen
  have hsites : info.decl.sites = Stmt.listSites body := by
    rw [FuncDecl.sites_eq, hbody, Stmt.optionSites]
  have hrun := ih ⟨hopens.linked, hopens.located, fun site hsite => ⟨fun _ symbol scope' htop => ?_,
    (hb.linked.funcs func _ _ _ _ ho).sites site (hsites ▸ hsite)⟩, nofun, fun _ => ⟨_, hopens.top?⟩⟩
  · rw [hcursor] at hfinish
    obtain ⟨haround, hdone⟩ := around_closeBody hb.linked ho hopens ho₂ hrun.toAround (fun site hsite => by
      rw [hsites] at hsite
      exact (hrun.body?.trans hopens.body?) ▸ hrun.reads site hsite) hclose hfinish
    refine ends_of_around haround rfl fun place decl body' ho' => ⟨some scope, ?_⟩
    obtain ⟨rfl, heq⟩ := SymbolTable.outline?_inj ho ho'
    obtain ⟨rfl, -, -⟩ := Outline.func.inj heq
    exact hdone
  · have hplace := Option.some.inj (hopens.top?.symm.trans htop)
    simp at hplace

/-- A function that is declared in a body is read like the body. -/
theorem ends_funcStmt {node : Node} {decl : FuncDecl} {func : SymbolId}
    (hb : Begins within (.stmt (.func node decl)) s)
    (hdeclare : (declareFunc decl none).Gives settings s func s₁)
    (ih : Begins within (.body func) s₁ → Ends within (.body func) s₁ s') :
    Ends within (.stmt (.func node decl)) s s' := by
  have hsites : (Task.stmt (.func node decl)).sites = decl.sites := by rw [Task.sites, Stmt.sites]
  obtain ⟨hdeclares, ho⟩ := around_declareFunc hb.linked
    (fun site hsite => (hb.admitted site (hsites ▸ hsite)).2) hdeclare
  have hbody := ih (hb.alone hdeclares rfl rfl id)
  have haround := hdeclares.trans hbody.toAround
  refine ⟨haround, fun site hsite => ?_, trivial⟩
  rw [hsites] at hsite
  cases hsome : decl.body with
  | none => simp [FuncDecl.sites_eq, hsome, Stmt.optionSites] at hsite
  | some body =>
      rw [hsome, Option.isSome_some, if_pos rfl] at ho
      obtain ⟨body', hdone⟩ := hbody.finds _ _ _ ho
      have hbodied := hbody.linked.funcs func _ _ _ _ hdone
      obtain ⟨scope, rfl, hreads⟩ := hbodied.reads rfl site hsite
      refine hreads.outward hbody.linked.fits fun kind outer hbody? => ?_
      obtain ⟨⟨symbol, kind', outer'⟩, htop, heq⟩ := Option.map_eq_some_iff.mp hbody?
      obtain ⟨rfl, rfl⟩ := Prod.mk.inj heq
      have hwithin := (hb.located.around haround).isWithin hbody.linked.fits htop
      rw [haround.cursor] at hwithin
      exact ScopeGraph.isWithin_iff.mpr (ScopeGraph.mem_path_of_parent hbody.linked.fits.graph
        (hbodied.scope scope rfl) (ScopeGraph.isWithin_iff.mp hwithin))

/-! ## Names -/

/-- A symbol that is used and is no object means what it is. -/
theorem ends_calleeFunc {node : Nat} {names : List SymbolId} {chosen : SymbolId} {kind : SymbolKind}
    (hs : s.Linked within) (hmem : chosen ∈ names)
    (huse : (useSymbol node chosen).Gives settings s () s₁)
    (hkind : s₁.tables.symbols.kind? chosen = some kind) (hobject : ∀ info, kind ≠ .object info)
    (hrun : s₁.Around within s') : s'.Denotes node names :=
  (denotes_of_kind hmem (meaning_useSymbol huse) hkind hobject).mono
    (hs.quiet quiet_useSymbol huse).linked.fits hrun.toPasses

/-- A name in the source is read. -/
theorem ends_ident {context : ExprContext} {expected : Option TypeId} {node : Node} {name : String}
    {names : List SymbolId} {type r : ExprType}
    (hb : Begins within (.expr context expected (.ident node name) r) s)
    (hvisible : ∀ id ∈ names, s.Visible id) (hrun : s.Around within s₁)
    (hdenotes : s₁.Denotes node.id names) (hrecord : (record node context type).Gives settings s₁ r s') :
    Ends within (.expr context expected (.ident node name) r) s s' := by
  have hlast := hrun.linked.quiet quiet_record hrecord
  have haround := hrun.trans hlast
  refine ⟨haround, fun site hsite => ?_, trivial⟩
  rw [Task.sites, Expr.sites] at hsite
  obtain rfl := List.mem_singleton.mp hsite
  exact fun _ => (hdenotes.mono hrun.linked.fits hlast.toPasses).readBy hb.linked.fits hb.located hvisible
    haround.toPasses

/-- A path to a type or a module is read before its last part. -/
theorem ends_static {context : ExprContext} {expected : Option TypeId} {node : Node} {object : Expr}
    {name : Ident} {target : SymbolId} {r : ExprType} (h : s.Linked within)
    (hpath : (staticPath object).Gives settings s (some target) s₁) (hrun : s₁.Around within s') :
    Ends within (.expr context expected (.member node object name) r) s s' := by
  have hstill := h.quiet (quiet_staticPath _) hpath
  have hobject : s₁.AllRead object.sites := reads_staticPath _ h hpath
  exact ⟨hstill.trans hrun, (hobject.passes hstill.linked.fits hrun.toPasses).node rfl, trivial⟩

theorem ends_of_runs {visited visited' : List Nat} (h : Runs settings task s visited s' visited')
    (hb : Begins within task s) : Ends within task s s' := by
  induction h with
  -- Results of functions.
  | resultNone _ => exact ends_of_around (.refl hb.linked) rfl trivial
  | resultKnown _ _ => exact ends_of_around (.refl hb.linked) rfl trivial
  | resultAnalyzed _ _ _ _ ih =>
      exact ends_of_around (ih (hb.alone (.refl hb.linked) rfl rfl id)).toAround rfl trivial
  | resultPending _ _ _ hintern =>
      exact ends_of_around (hb.linked.quiet quiet_intern hintern) rfl trivial
  | resultMissing _ _ _ => exact ends_of_around (.refl hb.linked) rfl trivial
  | funcType _ hintern ih =>
      have hresult := ih (hb.alone (.refl hb.linked) rfl rfl id)
      exact ends_of_around (hresult.trans (hresult.linked.quiet quiet_intern hintern)) rfl trivial
  -- Names.
  | calleeBuiltin hsurvivors huse hkind hinst =>
      have hmem := (sublist_of_survivors _ hsurvivors).subset (List.mem_singleton_self _)
      have hsurvivors := hb.linked.quiet (quiet_survivors _) hsurvivors
      have huses := hsurvivors.linked.quiet quiet_useSymbol huse
      have hlast := huses.linked.quiet quiet_instantiate hinst
      exact ends_of_around (hsurvivors.trans (huses.trans hlast)) rfl
        (ends_calleeFunc hsurvivors.linked hmem huse hkind (by simp) hlast)
  | calleeObject hsurvivors huse hkind hcapture =>
      have hmem := (sublist_of_survivors _ hsurvivors).subset (List.mem_singleton_self _)
      have hsurvivors := hb.linked.quiet (quiet_survivors _) hsurvivors
      obtain ⟨huses, hdenotes⟩ := around_useObject hsurvivors.linked
        ((hb.node _ rfl).passes hsurvivors.toPasses) hmem huse hkind hcapture
      exact ends_of_around (hsurvivors.trans huses) rfl hdenotes
  | calleeFunc hsurvivors huse hkind _ hobject _ ih =>
      have hmem := (sublist_of_survivors _ hsurvivors).subset (List.mem_singleton_self _)
      have hsurvivors := hb.linked.quiet (quiet_survivors _) hsurvivors
      have huses := hsurvivors.linked.quiet quiet_useSymbol huse
      have hfunc := ih (hb.alone (hsurvivors.trans huses) rfl rfl id)
      exact ends_of_around (hsurvivors.trans (huses.trans hfunc.toAround)) rfl
        (ends_calleeFunc hsurvivors.linked hmem huse hkind hobject hfunc.toAround)
  | valueObject hkind huse hcapture =>
      have huses := hb.linked.quiet quiet_useSymbol huse
      have hkind := kind?_useSymbol huse hkind
      obtain ⟨haround, hdenotes⟩ := around_useObject hb.linked (hb.node _ rfl) List.mem_cons_self huse
        hkind hcapture
      exact ends_of_around haround rfl hdenotes
  | valueFunc hkind huse _ _ _ ih =>
      have huses := hb.linked.quiet quiet_useSymbol huse
      have hfunc := ih (hb.alone huses rfl rfl id)
      exact ends_of_around (huses.trans hfunc.toAround) rfl (ends_calleeFunc hb.linked List.mem_cons_self
        huse (kind?_useSymbol huse hkind) (by simp) hfunc.toAround)
  | entriesCallee _ ih =>
      have hcallee := ih ⟨hb.linked, hb.located, nofun, hb.node, False.elim⟩
      exact ends_of_around hcallee.toAround rfl hcallee.finds
  | entriesValue _ _ ih =>
      have hvalue := ih ⟨hb.linked, hb.located, nofun, hb.node, False.elim⟩
      exact ends_of_around hvalue.toAround rfl hvalue.finds
  -- Expressions.
  | literal htype hrecord =>
      have htype := hb.linked.quiet quiet_literalType htype
      exact ⟨htype.trans (htype.linked.quiet quiet_record hrecord), allRead_nil.node rfl, trivial⟩
  | identCallee _ hrecord ih =>
      have hcallee := ih (hb.named (.refl hb.linked) rfl rfl id)
      exact ends_ident hb (fun _ => visible_of_gather) hcallee.toAround hcallee.finds hrecord
  | identValue _ hlookup _ hrecord ih =>
      have hvalue := ih (hb.named (.refl hb.linked) rfl rfl id)
      exact ends_ident hb (visible_of_lookupRequired hlookup) hvalue.toAround hvalue.finds hrecord
  | memberModule hpath _ _ hrecord ih =>
      have hstatic := hb.linked.quiet (quiet_staticPath _) hpath
      have hentries := ih (hb.named hstatic rfl rfl id)
      exact ends_static hb.linked hpath (hentries.trans (hentries.linked.quiet quiet_record hrecord))
  | memberCase hpath htype _ _ _ huse _ hrecord =>
      have hstatic := hb.linked.quiet (quiet_staticPath _) hpath
      have htype := hstatic.linked.quiet quiet_typeOfSymbol htype
      have huse := htype.linked.quiet quiet_useSymbol huse
      exact ends_static hb.linked hpath
        (htype.trans (huse.trans (huse.linked.quiet quiet_record hrecord)))
  | memberStatic hpath htype _ _ _ _ _ hrecord ih =>
      have hstatic := hb.linked.quiet (quiet_staticPath _) hpath
      have htype := hstatic.linked.quiet quiet_typeOfSymbol htype
      have hentries := ih (hb.named (hstatic.trans htype) rfl rfl id)
      exact ends_static hb.linked hpath
        (htype.trans (hentries.trans (hentries.linked.quiet quiet_record hrecord)))
  | memberField hpath _ _ _ _ _ _ huse hrecord ih =>
      have hpath := hb.linked.quiet (quiet_staticPath _) hpath
      have hobject := ih (hb.expr hpath (by simp [Task.sites, Expr.sites]))
      have huse := hobject.linked.quiet quiet_useSymbol huse
      have hlast := huse.trans (huse.linked.quiet quiet_record hrecord)
      exact ⟨hpath.trans (hobject.trans hlast), (hobject.after hlast).node rfl, trivial⟩
  | memberMethod hpath _ _ _ _ _ _ _ _ _ hrecord ihObject ihCallee =>
      have hpath := hb.linked.quiet (quiet_staticPath _) hpath
      have hobject := ihObject (hb.expr hpath (by simp [Task.sites, Expr.sites]))
      have hcallee := ihCallee (hb.named (hpath.trans hobject.toAround) rfl rfl id)
      have hlast := hcallee.trans (hcallee.linked.quiet quiet_record hrecord)
      exact ⟨hpath.trans (hobject.trans hlast), (hobject.after hlast).node rfl, trivial⟩
  | memberHost hpath _ _ _ _ _ hrecord ih =>
      have hpath := hb.linked.quiet (quiet_staticPath _) hpath
      have hobject := ih (hb.expr hpath (by simp [Task.sites, Expr.sites]))
      have hlast := hobject.linked.quiet quiet_record hrecord
      exact ⟨hpath.trans (hobject.trans hlast), (hobject.after hlast).node rfl, trivial⟩
  | call _ _ hfinish hrecord ihArgs ihCallee =>
      have hargs := ihArgs (hb.part (.refl hb.linked) (by simp [Task.sites, Expr.sites]) rfl False.elim)
      have hcallee := ihCallee (hb.expr hargs.toAround (by simp [Task.sites, Expr.sites]))
      have hfinish := hcallee.linked.quiet quiet_finishCall hfinish
      have hlast := hfinish.trans (hfinish.linked.quiet quiet_record hrecord)
      exact ⟨hargs.trans (hcallee.trans hlast),
        ((hargs.after (hcallee.trans hlast)).append (hcallee.after hlast)).node rfl, trivial⟩
  | index _ _ _ _ _ _ hrecord ihBase ihIndex =>
      have hbase := ihBase (hb.expr (.refl hb.linked) (by simp [Task.sites, Expr.sites]))
      have hindex := ihIndex (hb.expr hbase.toAround (by simp [Task.sites, Expr.sites]))
      have hlast := hindex.linked.quiet quiet_record hrecord
      exact ⟨hbase.trans (hindex.trans hlast),
        ((hbase.after (hindex.trans hlast)).append (hindex.after hlast)).node rfl, trivial⟩
  | unary _ _ hop hrecord ih =>
      have hoperand := ih (hb.expr (.refl hb.linked) (by simp [Task.sites, Expr.sites]))
      have hlast := hoperand.linked.quiet quiet_record hrecord
      exact ⟨hoperand.trans hlast, (hoperand.after hlast).node rfl, trivial⟩
  | binary _ _ hfinish hrecord ihLhs ihRhs =>
      have hlhs := ihLhs (hb.expr (.refl hb.linked) (by simp [Task.sites, Expr.sites]))
      have hrhs := ihRhs (hb.expr hlhs.toAround (by simp [Task.sites, Expr.sites]))
      have hfinish := hrhs.linked.quiet quiet_finishBinary hfinish
      have hlast := hfinish.trans (hfinish.linked.quiet quiet_record hrecord)
      exact ⟨hlhs.trans (hrhs.trans hlast),
        ((hlhs.after (hrhs.trans hlast)).append (hrhs.after hlast)).node rfl, trivial⟩
  | ternary _ _ _ hsettle _ hrecord ihCond ihTrue ihFalse =>
      have hcond := ihCond (hb.expr (.refl hb.linked) (by simp [Task.sites, Expr.sites]))
      have htrue := ihTrue (hb.expr hcond.toAround (by simp [Task.sites, Expr.sites]))
      have hfalse := ihFalse (hb.expr (hcond.trans htrue.toAround) fun site h => by
        simp [Task.sites, Expr.sites, h])
      have hsettle := hfalse.linked.quiet quiet_settlePending hsettle
      have hlast := hsettle.trans (hsettle.linked.quiet quiet_record hrecord)
      have hbranches := htrue.trans (hfalse.trans hlast)
      exact ⟨hcond.trans hbranches, (((hcond.after hbranches).append
        (htrue.after (hfalse.trans hlast))).append (hfalse.after hlast)).node rfl, trivial⟩
  | emptyArray _ hrecord =>
      exact ⟨hb.linked.quiet quiet_record hrecord, allRead_nil.node rfl, trivial⟩
  | array _ _ htransfer _ hintern hrecord ihFirst ihRest =>
      have hfirst := ihFirst (hb.expr (.refl hb.linked) (by simp [Task.sites, Expr.sites, Expr.listSites]))
      have htransfer := hfirst.linked.quiet (quiet_recordTransfer _ _) htransfer
      have hrest := ihRest (hb.part (hfirst.trans htransfer)
        (by simp [Task.sites, Expr.sites, Expr.listSites]) rfl False.elim)
      have hintern := hrest.linked.quiet quiet_intern hintern
      have hlast := hintern.trans (hintern.linked.quiet quiet_record hrecord)
      have hafter := htransfer.trans (hrest.trans hlast)
      exact ⟨hfirst.trans hafter, ((hfirst.after hafter).append (hrest.after hlast)).node rfl, trivial⟩
  | closure hopen _ hclose hrecord ih => exact ends_closure hb hopen ih hclose hrecord
  | argsNil =>
      exact ends_of_around (.refl hb.linked) rfl trivial
  | argsCons _ _ _ ihExpr ihRest =>
      have hexpr := ihExpr (hb.expr (.refl hb.linked) (by simp [Task.sites, Expr.listSites]))
      have hrest := ihRest (hb.part hexpr.toAround (by simp [Task.sites, Expr.listSites]) rfl False.elim)
      exact ⟨hexpr.trans hrest.toAround, (hexpr.after hrest.toAround).append hrest.reads, trivial⟩
  | elementsNil =>
      exact ends_of_around (.refl hb.linked) rfl trivial
  | elementsCons _ _ _ htransfer _ ihExpr ihRest =>
      have hexpr := ihExpr (hb.expr (.refl hb.linked) (by simp [Task.sites, Expr.listSites]))
      have htransfer := hexpr.linked.quiet (quiet_recordTransfer _ _) htransfer
      have hrest := ihRest (hb.part (hexpr.trans htransfer) (by simp [Task.sites, Expr.listSites]) rfl
        False.elim)
      have hafter := htransfer.trans hrest.toAround
      exact ⟨hexpr.trans hafter, (hexpr.after hafter).append hrest.reads, trivial⟩
  -- Statements.
  | bindInit hlower _ _ hfinish ih =>
      have hlower := hb.linked.quiet quiet_lowerOptional hlower
      have hinit := ih (hb.expr hlower (by simp [Task.sites, Binding.sites, Expr.optionSites]))
      have hbefore := hlower.trans hinit.toAround
      have hfinish := hinit.linked.still (still_finishBinding hinit.linked.fits
        (hb.not_namespace hbefore) hfinish)
      exact ⟨hbefore.trans hfinish, hinit.after hfinish, trivial⟩
  | bindDefault hlower hfinish =>
      have hlower := hb.linked.quiet quiet_lowerOptional hlower
      exact ends_of_around (hlower.trans (hlower.linked.still (still_finishBinding hlower.linked.fits
        (hb.not_namespace hlower) hfinish))) (by simp [Task.sites, Binding.sites, Expr.optionSites]) trivial
  | bind _ ih =>
      have hbinding := ih (hb.part (.refl hb.linked) (by simp [Task.sites, Stmt.sites]) rfl id)
      exact ⟨hbinding.toAround, hbinding.reads, trivial⟩
  | assign _ _ _ _ _ hfinish ihTarget ihValue =>
      have htarget := ihTarget (hb.expr (.refl hb.linked) (by simp [Task.sites, Stmt.sites]))
      have hvalue := ihValue (hb.expr htarget.toAround (by simp [Task.sites, Stmt.sites]))
      have hfinish := hvalue.linked.quiet quiet_finishAssign hfinish
      exact ⟨htarget.trans (hvalue.trans hfinish),
        (htarget.after (hvalue.trans hfinish)).append (hvalue.after hfinish), trivial⟩
  | exprStmt _ ih =>
      have hvalue := ih (hb.expr (.refl hb.linked) (by simp [Task.sites, Stmt.sites]))
      exact ⟨hvalue.toAround, hvalue.reads, trivial⟩
  | ifOnly _ henter _ hleave ihCond ihTrue =>
      have hcond := ihCond (hb.expr (.refl hb.linked) (by simp [Task.sites, Stmt.sites]))
      have htrue := ends_block (hb.part hcond.toAround (by simp [Task.sites, Stmt.sites]) rfl id) henter
        ihTrue hleave
      exact ⟨hcond.trans htrue.toAround,
        ((hcond.after htrue.toAround).append htrue.reads).append allRead_nil, trivial⟩
  | ifElse _ henter _ hleave henter' _ hleave' ihCond ihTrue ihFalse =>
      have hcond := ihCond (hb.expr (.refl hb.linked) (by simp [Task.sites, Stmt.sites]))
      have htrue := ends_block (hb.part hcond.toAround (by simp [Task.sites, Stmt.sites]) rfl id) henter
        ihTrue hleave
      have hfalse := ends_block (hb.part (hcond.trans htrue.toAround) (fun site h => by
        rw [Task.sites, Stmt.sites, Stmt.optionSites]
        exact List.mem_append_right _ h) rfl id) henter' ihFalse hleave'
      have hafter := htrue.trans hfalse.toAround
      exact ⟨hcond.trans hafter, ((hcond.after hafter).append (htrue.after hfalse.toAround)).append
        hfalse.reads, trivial⟩
  | whileLoop _ hloop henter _ hleave hend ihCond ihBody =>
      have hcond := ihCond (hb.expr (.refl hb.linked) (by simp [Task.sites, Stmt.sites]))
      have hloop := hcond.linked.still ((relooped_enterLoop hloop).still hcond.linked.fits)
      have hbody := ends_block (hb.part (hcond.trans hloop) (by simp [Task.sites, Stmt.sites]) rfl id)
        henter ihBody hleave
      have hend := hbody.linked.still ((relooped_leaveLoop hend).still hbody.linked.fits)
      have hafter := hloop.trans (hbody.trans hend)
      exact ⟨hcond.trans hafter, (hcond.after hafter).append (hbody.after hend), trivial⟩
  | retValue _ _ hreturn ih =>
      have hvalue := ih (hb.expr (.refl hb.linked) (by simp [Task.sites, Stmt.sites, Expr.optionSites]))
      have hreturn := hvalue.linked.quiet quiet_checkReturned hreturn
      exact ⟨hvalue.trans hreturn, hvalue.after hreturn, trivial⟩
  | retBare _ hreturn =>
      exact ends_of_around (hb.linked.quiet quiet_checkBareReturn hreturn)
        (by simp [Task.sites, Stmt.sites, Expr.optionSites]) trivial
  | breakLoop hloop =>
      exact ends_of_around (hb.linked.quiet quiet_checkLoopControl hloop)
        (by simp [Task.sites, Stmt.sites]) trivial
  | continueLoop hloop =>
      exact ends_of_around (hb.linked.quiet quiet_checkLoopControl hloop)
        (by simp [Task.sites, Stmt.sites]) trivial
  | block henter _ hleave ih =>
      have hbody := ends_block (hb.part (.refl hb.linked) (by simp [Task.sites, Stmt.sites]) rfl id) henter
        ih hleave
      exact ⟨hbody.toAround, hbody.reads, trivial⟩
  | funcStmt hdeclare _ ih => exact ends_funcStmt hb hdeclare ih
  | stmtsNil =>
      exact ends_of_around (.refl hb.linked) (by simp [Task.sites, Stmt.listSites]) trivial
  | stmtsCons _ _ ihStmt ihRest =>
      have hstmt := ihStmt (hb.part (.refl hb.linked) (by simp [Task.sites, Stmt.listSites]) rfl id)
      have hrest := ihRest (hb.part hstmt.toAround (by simp [Task.sites, Stmt.listSites]) rfl id)
      exact ⟨hstmt.trans hrest.toAround, (hstmt.after hrest.toAround).append hrest.reads, trivial⟩
  -- Bodies.
  | bodySkip hskip =>
      refine ends_of_around (.refl hb.linked) rfl fun place decl body ho => ?_
      obtain ⟨info, hinfo, -, -, hstate⟩ := SymbolTable.func?_of_outline? ho
      exact absurd hstate (hskip info hinfo)
  | bodyNone hfunc hstate hbody hdone =>
      obtain ⟨place, ho, haround, hdone⟩ := around_setBodyState hb.linked hfunc hstate hbody hdone
      refine ends_of_around haround rfl fun place' decl body ho' => ?_
      obtain ⟨rfl, heq⟩ := SymbolTable.outline?_inj ho ho'
      obtain ⟨rfl, rfl, -⟩ := Outline.func.inj heq
      exact ⟨_, hdone⟩
  | bodyRun hfunc hstate hbody hstart hentry _ hopen _ hclose hfinish ih =>
      exact ends_body hb hfunc hstate hbody hstart hentry hopen ih hclose hfinish

end Check

end Stela
