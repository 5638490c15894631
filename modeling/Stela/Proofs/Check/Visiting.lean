import Stela.Proofs.Check.Modules
import Stela.Proofs.Check.Placing
import Stela.Proofs.Check.Reading
import Stela.Proofs.Check.Returning

/-!
# Reading modules

Between modules no body is open. The functions of a module are declared before
anything in it is visited; what is in them is known to be read once they are
done. What is in the variables of a module is read where they are declared.
-/

namespace Stela

/-- The expressions in the variable that a declaration makes. -/
def Decl.globalSites : Decl → List Site
  | .global _ binding => binding.sites
  | _ => []

theorem Decl.mem_funcs_structType {node : Node} {name : Ident} {members : List Member} {func : FuncDecl} :
    func ∈ (Decl.structType node name members).funcs ↔ .func func ∈ members := by
  rw [funcs, List.mem_filterMap]
  constructor
  · rintro ⟨member, hmember, heq⟩
    cases member with
    | func decl =>
        obtain rfl := Option.some.inj heq
        exact hmember
    | field field => cases heq
  · exact fun hmember => ⟨_, hmember, rfl⟩

/-- An expression in a declaration is in one of its functions or in its variable. -/
theorem Decl.mem_sites {decl : Decl} {site : Site} : site ∈ decl.sites ↔
    (∃ func ∈ decl.funcs, site ∈ func.sites) ∨ site ∈ decl.globalSites := by
  cases decl with
  | func decl => simp [sites, funcs, globalSites]
  | structType node name members =>
      simp only [mem_funcs_structType, globalSites, List.not_mem_nil, or_false, sites, List.mem_flatMap]
      constructor
      · rintro ⟨member, hmember, hsite⟩
        cases member with
        | func decl => exact ⟨decl, hmember, hsite⟩
        | field field => simp at hsite
      · rintro ⟨func, hfunc, hsite⟩
        exact ⟨.func func, hfunc, hsite⟩
  | _ => simp [sites, funcs, globalSites]

namespace CheckState

variable {s s' : CheckState} {within : Nat → Nat → Prop} {func : SymbolId} {decl : FuncDecl} {site : Site}

/-- The function was made from the declaration. -/
def Declares (s : CheckState) (func : SymbolId) (decl : FuncDecl) : Prop :=
  ∃ place body state, s.tables.symbols.outline? func = some (place, .func decl body state)

/-- A function that was made from the declaration is done. -/
def Finished (s : CheckState) (decl : FuncDecl) : Prop :=
  ∃ func place body, s.tables.symbols.outline? func = some (place, .func decl body .done)

/-- The expression is in a function that is done, or was visited outside of bodies. -/
def Visited (s : CheckState) (site : Site) : Prop :=
  (∃ decl, s.Finished decl ∧ site ∈ decl.sites) ∨ s.Reads none site

theorem Declares.mono (h : s.Onward s') (hdeclares : s.Declares func decl) : s'.Declares func decl := by
  obtain ⟨place, body, state, ho⟩ := hdeclares
  obtain ⟨outline', ho', hextends⟩ := h.symbols func place _ ho
  obtain ⟨body', state', rfl, -⟩ := hextends.func_inv
  exact ⟨place, body', state', ho'⟩

theorem Finished.mono (h : s.Onward s') (hfinished : s.Finished decl) : s'.Finished decl := by
  obtain ⟨func, place, body, ho⟩ := hfinished
  obtain ⟨outline', ho', hextends⟩ := h.symbols func place _ ho
  obtain ⟨body', state', rfl, hdone⟩ := hextends.func_inv
  obtain rfl := hdone rfl
  exact ⟨func, place, body', ho'⟩

theorem Visited.mono (hs : s.Scoped) (h : s.Onward s') (hvisited : s.Visited site) : s'.Visited site :=
  hvisited.imp (fun ⟨decl, hfinished, hsite⟩ => ⟨decl, hfinished.mono h, hsite⟩) fun hreads =>
    hreads.mono hs h

/-- A visited expression is read. -/
theorem Visited.reads (h : s.Linked within) (hvisited : s.Visited site) : ∃ body, s.Reads body site := by
  rcases hvisited with ⟨decl, ⟨func, place, body, ho⟩, hsite⟩ | hreads
  · obtain ⟨scope, -, hreads⟩ := (h.funcs func place decl body _ ho).reads rfl site hsite
    exact ⟨_, hreads⟩
  · exact ⟨none, hreads⟩

theorem not_inProgress_initial {meanings : Meanings} (func : SymbolId) :
    ¬ (CheckState.initial meanings).tables.InProgress func := by
  intro hfunc
  obtain ⟨info, hinfo, -⟩ := Option.map_eq_some_iff.mp hfunc
  obtain ⟨place, ho⟩ := SymbolTable.outline?_of_func? hinfo
  have hstill : CheckState.Still { meanings := meanings } (.initial meanings) := Check.still_initial
  have hnone : ({} : CheckState).tables.symbols.outline? func = none := rfl
  cases hnone.symm.trans (hstill.symbols.inverse func place _ ho id)

theorem located_of_top? (htop : s.top? = none) : s.Located := fun symbol kind scope h => by
  simp [htop] at h

/-- A part of the analysis that takes place in another scope. -/
theorem Linked.elsewhere (h : s.Linked within) {scope : ScopeId} {s₁ : CheckState}
    (hscope : scope < s.scopes.size)
    (hrun : CheckState.Linked within { s with scopes := s.scopes.setCursor scope } →
      CheckState.Around within { s with scopes := s.scopes.setCursor scope } s₁) :
    s.Around within { s₁ with scopes := s₁.scopes.setCursor s.scopes.cursor } := by
  have hmoved := h.rescope (h.fits.moveCursor hscope) ScopeGraph.grows_setCursor
  have hrun := hrun hmoved.linked
  have hback := hrun.linked.rescope (hrun.linked.fits.moveCursor
    (Nat.lt_of_lt_of_le h.fits.graph.cursor hrun.onward.grows.size)) ScopeGraph.grows_setCursor
  exact ⟨(hmoved.trans hrun.toPasses).trans hback, rfl⟩

/-- What holds around the analysis of modules of these names, between which no body is open. -/
structure Enlists (within : Nat → Nat → Prop) (names : List String) (s s' : CheckState) : Prop where
  linked : s'.Linked within
  onward : s.Onward s'
  top? : s'.top? = s.top?
  names : s'.modules.map ModuleEntry.name = s.modules.map ModuleEntry.name ++ names

theorem Enlists.refl (h : s.Linked within) : s.Enlists within [] s :=
  ⟨h, .refl s, rfl, (List.append_nil _).symm⟩

theorem Enlists.trans {names names' : List String} {s'' : CheckState} (h : s.Enlists within names s')
    (h' : s'.Enlists within names' s'') : s.Enlists within (names ++ names') s'' :=
  ⟨h'.linked, h.onward.trans h'.onward, h'.top?.trans h.top?, by
    rw [h'.names, h.names, List.append_assoc]⟩

theorem Passes.enlists (h : s.Passes within s') : s.Enlists within [] s' :=
  ⟨h.linked, h.onward, h.top?, by rw [h.modules, List.append_nil]⟩

/-- A module is entered that fits. -/
theorem Linked.enlists (h : s.Linked within) {m : ModuleEntry} (hm : s.ModuleFits m) :
    s.Enlists within [m.name] { s with modules := s.modules ++ [m] } := by
  have honward : s.Onward { s with modules := s.modules ++ [m] } :=
    ⟨.refl _, .refl _, fun _ _ h => h, fun _ h => h⟩
  exact ⟨h.step (h.fits.addModule hm) honward (fun _ _ _ ho => .inl ho) (fun _ _ _ hnode => .inl hnode)
    h.frames fun _ _ _ _ _ ho => .inl ho, honward, rfl, List.map_append⟩

end CheckState

namespace Check

open CheckState

variable {settings : Settings} {s s' : CheckState} {within : Nat → Nat → Prop}

/-- Expressions in closures stand where `within` tells. -/
def Fitting (within : Nat → Nat → Prop) (sites : List Site) : Prop :=
  ∀ site ∈ sites, ∀ inner, site.closure = some inner → within site.id inner

/-! ## Declaring the functions -/

theorem around_declareMember (h : s.Linked within) {decl : FuncDecl} {owner : Option SymbolId}
    {scope : ScopeId} {func : SymbolId} (hscope : scope < s.scopes.size)
    (hfits : Fitting within decl.sites)
    (hgives : (withCursor scope (declareFunc decl owner)).Gives settings s func s') :
    s.Around within s' ∧ s'.Declares func decl := by
  obtain ⟨-, s₁, hdeclare, rfl⟩ := gives_withCursor.mp hgives
  have hmoved := h.rescope (h.fits.moveCursor hscope) ScopeGraph.grows_setCursor
  obtain ⟨-, ho⟩ := around_declareFunc hmoved.linked hfits hdeclare
  exact ⟨h.elsewhere hscope fun hmoved => (around_declareFunc hmoved hfits hdeclare).1, _, _, _, ho⟩

theorem around_declareMethods (members : List Member) (h : s.Linked within) {owner : SymbolId}
    {scope : ScopeId} {funcs : List SymbolId} (hscope : scope < s.scopes.size)
    (hfits : ∀ decl, .func decl ∈ members → Fitting within decl.sites)
    (hgives : (declareMethods owner scope members).Gives settings s funcs s') :
    s.Around within s' ∧ ∀ decl, .func decl ∈ members → ∃ func ∈ funcs, s'.Declares func decl := by
  induction members generalizing s funcs with
  | nil =>
      obtain ⟨-, rfl⟩ := gives_pure.mp hgives
      exact ⟨.refl h, nofun⟩
  | cons member rest ih =>
      have hrest (decl : FuncDecl) (hdecl : .func decl ∈ rest) := hfits decl (List.mem_cons_of_mem _ hdecl)
      cases member with
      | field field =>
          obtain ⟨haround, hdeclared⟩ := ih h hscope hrest hgives
          exact ⟨haround, fun decl hdecl => hdeclared decl (by simpa using hdecl)⟩
      | func decl =>
          simp only [declareMethods, gives_bind, gives_pure] at hgives
          obtain ⟨func, s₁, hfunc, funcs', _, hgives, rfl, rfl⟩ := hgives
          obtain ⟨hfirst, hdecl⟩ := around_declareMember h hscope (hfits decl List.mem_cons_self) hfunc
          obtain ⟨haround, hdeclared⟩ := ih hfirst.linked
            (Nat.lt_of_lt_of_le hscope hfirst.onward.grows.size) hrest hgives
          refine ⟨hfirst.trans haround, fun decl' hdecl' => ?_⟩
          rcases List.mem_cons.mp hdecl' with heq | hold
          · obtain rfl := Member.func.inj heq
            exact ⟨func, List.mem_cons_self, hdecl.mono haround.onward⟩
          · obtain ⟨func', hfunc', hdeclares⟩ := hdeclared decl' hold
            exact ⟨func', List.mem_cons_of_mem _ hfunc', hdeclares⟩

theorem around_declareFuncs (decls : List Decl) (h : s.Linked within) {funcs : List SymbolId}
    (hfits : ∀ decl ∈ decls.flatMap Decl.funcs, Fitting within decl.sites)
    (hgives : (declareFuncs decls).Gives settings s funcs s') :
    s.Around within s' ∧ ∀ decl ∈ decls.flatMap Decl.funcs, ∃ func ∈ funcs, s'.Declares func decl := by
  induction decls generalizing s funcs with
  | nil =>
      obtain ⟨-, rfl⟩ := gives_pure.mp hgives
      exact ⟨.refl h, by simp⟩
  | cons decl rest ih =>
      rw [List.flatMap_cons] at hfits ⊢
      rw [List.forall_mem_append] at hfits
      have finish {s₁ : CheckState} {funcs₁ funcs₂ : List SymbolId} (hfirst : s.Around within s₁)
          (hdecls : ∀ decl' ∈ decl.funcs, ∃ func ∈ funcs₁, s₁.Declares func decl')
          (hgives : (declareFuncs rest).Gives settings s₁ funcs₂ s') :
          s.Around within s' ∧ ∀ decl' ∈ decl.funcs ++ rest.flatMap Decl.funcs,
            ∃ func ∈ funcs₁ ++ funcs₂, s'.Declares func decl' := by
        obtain ⟨haround, hdeclared⟩ := ih hfirst.linked hfits.2 hgives
        refine ⟨hfirst.trans haround, List.forall_mem_append.mpr ⟨fun decl' hdecl' => ?_,
          fun decl' hdecl' => ?_⟩⟩
        · obtain ⟨func, hfunc, hdeclares⟩ := hdecls decl' hdecl'
          exact ⟨func, List.mem_append_left _ hfunc, hdeclares.mono haround.onward⟩
        · obtain ⟨func, hfunc, hdeclares⟩ := hdeclared decl' hdecl'
          exact ⟨func, List.mem_append_right _ hfunc, hdeclares⟩
      cases decl with
      | func decl =>
          simp only [declareFuncs, gives_bind, gives_pure] at hgives
          obtain ⟨func, s₁, hdeclare, _, _, ⟨rfl, rfl⟩, funcs₂, _, hgives, rfl, rfl⟩ := hgives
          obtain ⟨hfirst, ho⟩ := around_declareFunc h (hfits.1 decl (List.mem_singleton_self _)) hdeclare
          refine finish hfirst (fun decl' hdecl' => ?_) hgives
          obtain rfl := List.mem_singleton.mp hdecl'
          exact ⟨func, List.mem_singleton_self _, _, _, _, ho⟩
      | structType node name members =>
          simp only [declareFuncs, gives_bind, gives_pure] at hgives
          obtain ⟨owner, _, howner, scope, _, hscope, funcs₁, s₁, hmethods, funcs₂, _, hgives, rfl, rfl⟩ :=
            hgives
          obtain ⟨-, rfl⟩ := declSymbol_gives howner
          obtain ⟨rfl, hlt⟩ := lt_size_memberScope h.fits hscope
          obtain ⟨hfirst, hdecls⟩ := around_declareMethods members h hlt
            (fun func hfunc => hfits.1 func (Decl.mem_funcs_structType.mpr hfunc)) hmethods
          exact finish hfirst (fun func hfunc => hdecls func (Decl.mem_funcs_structType.mp hfunc)) hgives
      | _ =>
          simp only [declareFuncs, gives_bind, gives_pure] at hgives
          obtain ⟨_, _, ⟨rfl, rfl⟩, funcs₂, _, hgives, rfl, rfl⟩ := hgives
          exact finish (.refl h) (by simp [Decl.funcs]) hgives

/-! ## Analyzing variables and bodies -/

theorem around_checkGlobals (bound : Nat) (decls : List Decl) (h : s.Linked within) (htop : s.top? = none)
    (hfits : Fitting within (decls.flatMap Decl.globalSites))
    (hgives : (decls.forM (checkGlobal bound)).Gives settings s () s') :
    s.Around within s' ∧ ∀ site ∈ decls.flatMap Decl.globalSites, s'.Reads none site := by
  induction decls generalizing s with
  | nil => exact ⟨gives_forM_nil.mp hgives ▸ .refl h, by simp⟩
  | cons decl rest ih =>
      obtain ⟨s₁, hdecl, hrest⟩ := gives_forM_cons.mp hgives
      rw [List.flatMap_cons] at hfits ⊢
      rw [Fitting, List.forall_mem_append] at hfits
      have hfirst : s.Around within s₁ ∧ ∀ site ∈ decl.globalSites, s₁.Reads none site := by
        cases decl with
        | global node binding =>
            obtain ⟨_, run⟩ := runs_checkBinding (fun _ _ _ => runs_checkBody bound) _ _ hdecl []
            have hends := ends_of_runs run ⟨h, located_of_top? htop, fun site hsite =>
              ⟨fun _ symbol scope htop' => by simp [htop] at htop', hfits.1 site hsite⟩, nofun, nofun⟩
            refine ⟨hends.toAround, fun site hsite => ?_⟩
            have hbody? : s₁.body? = none := by rw [hends.body?, CheckState.body?, htop, Option.map_none]
            exact hbody? ▸ hends.reads site hsite
        | _ =>
            obtain ⟨-, rfl⟩ := gives_pure.mp hdecl
            exact ⟨.refl h, by simp [Decl.globalSites]⟩
      obtain ⟨haround, hreads⟩ := ih hfirst.1.linked (hfirst.1.top?.trans htop) hfits.2 hrest
      exact ⟨hfirst.1.trans haround, List.forall_mem_append.mpr ⟨fun site hsite =>
        (hfirst.2 site hsite).mono hfirst.1.linked.fits haround.onward, hreads⟩⟩

/-- If no body is under analysis all functions that are analyzed are done behind that. -/
theorem around_checkBodies (bound : Nat) (funcs : List SymbolId) (h : s.Linked within)
    (htop : s.top? = none) (hidle : ∀ func, ¬ s.tables.InProgress func)
    (hgives : (funcs.forM (checkBody bound)).Gives settings s () s') :
    s.Around within s' ∧ ∀ func ∈ funcs, ∀ decl, s.Declares func decl → s'.Finished decl := by
  induction funcs generalizing s with
  | nil => exact ⟨gives_forM_nil.mp hgives ▸ .refl h, nofun⟩
  | cons func rest ih =>
      obtain ⟨s₁, hfunc, hrest⟩ := gives_forM_cons.mp hgives
      obtain ⟨_, run⟩ := runs_checkBody bound hfunc []
      have hfirst := ends_of_runs run ⟨h, located_of_top? htop, nofun, nofun, nofun⟩
      obtain ⟨hrest, hfinished⟩ := ih hfirst.linked (hfirst.top?.trans htop)
        (fun other hother => hidle other ((run.restores.progress other).mp hother)) hrest
      refine ⟨hfirst.trans hrest, List.forall_mem_cons.mpr ⟨fun decl hdeclares => ?_,
        fun other hother decl hdeclares => hfinished other hother decl (hdeclares.mono hfirst.onward)⟩⟩
      obtain ⟨place, body, state, ho⟩ := hdeclares
      cases state with
      | unchecked =>
          obtain ⟨body', ho'⟩ := hfirst.finds place decl body ho
          exact Finished.mono hrest.onward ⟨func, place, body', ho'⟩
      | inProgress =>
          obtain ⟨info, hinfo, -, -, hstate⟩ := SymbolTable.func?_of_outline? ho
          exact absurd (Option.map_eq_some_iff.mpr ⟨info, hinfo, hstate⟩) (hidle func)
      | done => exact Finished.mono (hfirst.trans hrest).onward ⟨func, place, body, ho⟩

/-! ## Modules -/

/-- Everything in the declarations of a module is visited. -/
theorem visited_checkDecls (h : s.Linked within) (htop : s.top? = none)
    (hidle : ∀ func, ¬ s.tables.InProgress func) {bound : Nat} (decls : List Decl)
    (hfits : Fitting within (decls.flatMap Decl.sites))
    (hgives : (checkDecls bound decls).Gives settings s () s') :
    s.Around within s' ∧ ∀ site ∈ decls.flatMap Decl.sites, s'.Visited site := by
  simp only [checkDecls, gives_bind] at hgives
  obtain ⟨_, s₁, htypes, _, s₂, hparts, funcs, s₃, hfuncs, _, s₄, hglobals, hbodies⟩ := hgives
  have hrestores := restores_beforeBodies htypes hparts hfuncs hglobals
  have htypes := h.quiet (.forM fun decl _ => quiet_declareType decl) htypes
  have hparts := htypes.linked.quiet (.forM fun decl _ => quiet_completeType decl) hparts
  obtain ⟨hfuncs, hdeclared⟩ := around_declareFuncs decls hparts.linked (fun func hfunc site hsite => by
    obtain ⟨decl, hdecl, hfunc⟩ := List.mem_flatMap.mp hfunc
    exact hfits site (List.mem_flatMap.mpr ⟨decl, hdecl, Decl.mem_sites.mpr (.inl ⟨func, hfunc, hsite⟩)⟩))
    hfuncs
  have hbefore := htypes.trans (hparts.trans hfuncs)
  have htop₃ := hbefore.top?.trans htop
  obtain ⟨hglobals, hreads⟩ := around_checkGlobals bound decls hfuncs.linked htop₃ (fun site hsite => by
    obtain ⟨decl, hdecl, hsite⟩ := List.mem_flatMap.mp hsite
    exact hfits site (List.mem_flatMap.mpr ⟨decl, hdecl, Decl.mem_sites.mpr (.inr hsite)⟩)) hglobals
  obtain ⟨hbodies, hfinished⟩ := around_checkBodies bound funcs hglobals.linked
    (hglobals.top?.trans htop₃) (fun func hfunc => hidle func ((hrestores.progress func).mp hfunc)) hbodies
  refine ⟨hbefore.trans (hglobals.trans hbodies), fun site hsite => ?_⟩
  obtain ⟨decl, hdecl, hsite⟩ := List.mem_flatMap.mp hsite
  rcases Decl.mem_sites.mp hsite with ⟨func, hfunc, hsite⟩ | hsite
  · obtain ⟨symbol, hmem, hdeclares⟩ := hdeclared func (List.mem_flatMap.mpr ⟨decl, hdecl, hfunc⟩)
    exact .inl ⟨func, hfinished symbol hmem func (hdeclares.mono hglobals.onward), hsite⟩
  · exact .inr ((hreads site (List.mem_flatMap.mpr ⟨decl, hdecl, hsite⟩)).mono hglobals.linked.fits
      hbodies.onward)

/-- A module is entered in a scope of its own. -/
theorem enlists_declareModule (h : s.Linked within) {m : Module} {scope : ScopeId}
    (hgives : (declareModule m).Gives settings s scope s') :
    s.Enlists within [m.name.name] s' ∧ scope < s'.scopes.size := by
  obtain ⟨s₁, entry, hstill, hlt, hname, hfits, rfl⟩ := still_declareModule h.fits hgives
  have hbefore := h.still hstill
  exact ⟨hname ▸ hbefore.enlists.trans (hbefore.linked.enlists hfits), hlt⟩

/-- Everything in a module is visited. -/
theorem visited_checkModule (h : s.Linked within) (htop : s.top? = none)
    (hidle : ∀ func, ¬ s.tables.InProgress func) {bound : Nat} {isExternal : Bool} {m : Module}
    (hfits : Fitting within m.sites)
    (hgives : (checkModule bound isExternal m).Gives settings s () s') :
    s.Enlists within [m.name.name] s' ∧ ∀ site ∈ m.sites, s'.Visited site := by
  simp only [checkModule, gives_bind, gives_tables] at hgives
  obtain ⟨_, _, ⟨rfl, rfl⟩, scope, s₁, hmodule, _, s₂, hdecls, hexternal⟩ := hgives
  have hidle₁ (func : SymbolId) (hfunc : s₁.tables.InProgress func) : False :=
    hidle func (((restores_declareModule hmodule).1.progress func).mp hfunc)
  obtain ⟨hmodule, hlt⟩ := enlists_declareModule h hmodule
  obtain ⟨-, s₃, hinside, rfl⟩ := gives_withCursor.mp hdecls
  have hmoved := hmodule.linked.rescope (hmodule.linked.fits.moveCursor hlt) ScopeGraph.grows_setCursor
  obtain ⟨hrun, hvisited⟩ :=
    visited_checkDecls hmoved.linked (hmoved.top?.trans (hmodule.top?.trans htop)) hidle₁ m.decls hfits hinside
  have hdecls := hmodule.linked.elsewhere hlt fun _ => hrun
  have hback : s₃.Onward { s₃ with scopes := s₃.scopes.setCursor s₁.scopes.cursor } :=
    ⟨ScopeGraph.grows_setCursor, .refl _, fun _ _ hm => hm, fun _ hc => hc⟩
  have hlast : CheckState.Around within { s₃ with scopes := s₃.scopes.setCursor s₁.scopes.cursor } s' := by
    split at hexternal
    · exact hdecls.linked.quiet quiet_markExternal hexternal
    · exact (gives_pure.mp hexternal).2 ▸ .refl hdecls.linked
  exact ⟨hmodule.trans (hdecls.trans hlast).enlists, fun site hsite =>
    ((hvisited site hsite).mono hrun.linked.fits hback).mono hdecls.linked.fits hlast.onward⟩

theorem visited_checkModules (modules : List Module) (h : s.Linked within) (htop : s.top? = none)
    (hidle : ∀ func, ¬ s.tables.InProgress func) {bound : Nat} {isExternal : Bool}
    (hfits : Fitting within (modules.flatMap Module.sites))
    (hgives : (modules.forM (checkModule bound isExternal)).Gives settings s () s') :
    s.Enlists within (modules.map fun m => m.name.name) s' ∧
      ∀ site ∈ modules.flatMap Module.sites, s'.Visited site := by
  induction modules generalizing s with
  | nil => exact ⟨gives_forM_nil.mp hgives ▸ .refl h, by simp⟩
  | cons m rest ih =>
      obtain ⟨s₁, hmodule, hrest⟩ := gives_forM_cons.mp hgives
      rw [List.flatMap_cons] at hfits ⊢
      rw [Fitting, List.forall_mem_append] at hfits
      have hrestores := restores_checkModule hmodule
      obtain ⟨hfirst, hvisited⟩ := visited_checkModule h htop hidle hfits.1 hmodule
      obtain ⟨haround, hvisited'⟩ := ih hfirst.linked (hfirst.top?.trans htop)
        (fun func hfunc => hidle func ((hrestores.progress func).mp hfunc)) hfits.2 hrest
      exact ⟨hfirst.trans haround, List.forall_mem_append.mpr ⟨fun site hsite =>
        (hvisited site hsite).mono hfirst.linked.fits haround.onward, hvisited'⟩⟩

/-- At the start there is nothing to link. -/
theorem linked_initial {meanings : Meanings} : (CheckState.initial meanings).Linked within := by
  have hnone (id : SymbolId) : ({} : CheckState).tables.symbols.outline? id = none := rfl
  have hstart : CheckState.Linked within { meanings := meanings } := by
    refine ⟨scoped_nothing, fun id place links ho => ?_, fun node closure slot hnode => ?_, nofun,
      fun id place decl body state ho => ?_⟩
    · simp [hnone] at ho
    · simp at hnode
    · simp [hnone] at ho
  exact (hstart.still still_initial).linked

theorem top?_initial {meanings : Meanings} : (CheckState.initial meanings).top? = none := by
  rw [CheckState.top?, still_initial.frames]
  rfl

end Check

end Stela
