import Stela.Proofs.Check.Declaring
import Stela.Proofs.Check.Preservation

/-!
# Modules

A module is analyzed in phases. Its functions are declared before anything of
it is analyzed, and at its end each of them is done, so that between modules no
body is under analysis.
-/

namespace Stela

/-- The functions that a declaration makes, free ones or members. -/
def Decl.funcs : Decl → List FuncDecl
  | .func decl => [decl]
  | .structType _ _ members => members.filterMap fun
    | .func decl => some decl
    | .field _ => none
  | _ => []

/-- Between modules every function is done, every alias resolved, and what shares a name in a scope
was told apart. -/
structure CheckState.Idle (s : CheckState) : Prop where
  sound : s.Sound
  frames : s.frames = []
  done : ∀ func info, s.tables.symbols.func? func = some info → info.state = .done
  complete : s.tables.Complete
  apart : s.Apart s.tables.symbols.size

namespace Check

open CheckState

variable {settings : Settings} {s s' s'' : CheckState} {visited visited' : List Nat}

/-! ## Declaring the functions -/

/-- What is known about functions that were declared. -/
structure DeclaresFuncs (s : CheckState) (decls : List FuncDecl) (funcs : List SymbolId)
    (s' : CheckState) : Prop where
  sound : s'.Sound
  grows : s.tables.Grows s'.tables
  frames : s'.frames = s.frames
  exprs : s'.exprTypes = s.exprTypes
  assumptions : ∀ a ∈ s.assumptions, a ∈ s'.assumptions
  meanings : s.meanings.Within s'.meanings
  declared : ∀ decl ∈ decls, ∃ func ∈ funcs, s'.meanings.decls.get? decl.node.id = some func ∧
    ∃ info, s'.tables.symbols.func? func = some info ∧ info.decl = decl
  states : ∀ func info', s'.tables.symbols.func? func = some info' →
    func ∈ funcs ∧ info'.state ≠ .inProgress ∨
      ∃ info, s.tables.symbols.func? func = some info ∧ info.state = info'.state
  separates : s.Separates s'

theorem declaresFuncs_of_calm (h : s.Calm s') : DeclaresFuncs s [] [] s' := by
  refine ⟨h.sound, h.tables.toGrows, h.frames, h.exprs, h.assumptions, h.meanings, by simp,
    fun func info' hinfo' => ?_, h.separates⟩
  have hstate := h.tables.states func
  rw [hinfo', Option.map_some, eq_comm, Option.map_eq_some_iff] at hstate
  exact .inr hstate

theorem Declares.declaresFuncs {decl : FuncDecl} {func : SymbolId} (h : Declares s decl func s') :
    DeclaresFuncs s [decl] [func] s' := by
  obtain ⟨info, hinfo, hdecl, hstate⟩ := h.declared
  refine ⟨h.sound, h.grows, h.frames, h.exprs, h.assumptions, h.meanings, fun decl' hmem => ?_,
    fun other info' hinfo' => ?_, h.separates⟩
  · obtain rfl := List.mem_singleton.mp hmem
    exact ⟨func, List.mem_singleton_self _, h.symbol, info, hinfo, hdecl⟩
  · by_cases heq : other = func
    · subst heq
      obtain rfl := Option.some.inj (hinfo.symm.trans hinfo')
      refine .inl ⟨List.mem_singleton_self _, ?_⟩
      rw [hstate]
      split <;> simp
    · have hothers := h.others other heq
      rw [hinfo', Option.map_some, eq_comm, Option.map_eq_some_iff] at hothers
      exact .inr hothers

theorem DeclaresFuncs.append {decls decls' : List FuncDecl} {funcs funcs' : List SymbolId}
    (h : DeclaresFuncs s decls funcs s') (h' : DeclaresFuncs s' decls' funcs' s'') :
    DeclaresFuncs s (decls ++ decls') (funcs ++ funcs') s'' := by
  refine ⟨h'.sound, h.grows.trans h'.grows, h'.frames.trans h.frames, h'.exprs.trans h.exprs,
    fun a ha => h'.assumptions a (h.assumptions a ha), h.meanings.trans h'.meanings,
    fun decl hdecl => ?_, fun func info'' hinfo'' => ?_, h.separates.trans h.grows h'.separates⟩
  · rcases List.mem_append.mp hdecl with hold | hnew
    · obtain ⟨func, hfunc, hsymbol, info, hinfo, heq⟩ := h.declared decl hold
      obtain ⟨info', hinfo', hbecomes⟩ := h'.grows.func hinfo
      exact ⟨func, List.mem_append_left _ hfunc, h'.meanings.decls _ _ hsymbol, info', hinfo',
        hbecomes.decl.trans heq⟩
    · obtain ⟨func, hfunc, hrest⟩ := h'.declared decl hnew
      exact ⟨func, List.mem_append_right _ hfunc, hrest⟩
  · rcases h'.states func info'' hinfo'' with ⟨hmem, hstate⟩ | ⟨info', hinfo', heq⟩
    · exact .inl ⟨List.mem_append_right _ hmem, hstate⟩
    · rcases h.states func info' hinfo' with ⟨hmem, hstate⟩ | ⟨info, hinfo, heq'⟩
      · exact .inl ⟨List.mem_append_left _ hmem, heq ▸ hstate⟩
      · exact .inr ⟨info, hinfo, heq'.trans heq⟩

/-- Functions are declared wherever the cursor is. -/
theorem declaresFuncs_withCursor (hs : s.Sound) {decl : FuncDecl} {owner : Option SymbolId}
    {scope : ScopeId} {func : SymbolId}
    (h : (withCursor scope (declareFunc decl owner)).Gives settings s func s') :
    DeclaresFuncs s [decl] [func] s' := by
  obtain ⟨-, s₁, hdeclare, rfl⟩ := gives_withCursor.mp h
  have hstart := calm_setCursor hs scope
  have hdeclares := (declares_declareFunc hstart.sound hdeclare).declaresFuncs
  have hend := declaresFuncs_of_calm (calm_setCursor hdeclares.sound s.scopes.cursor)
  exact ((declaresFuncs_of_calm hstart).append hdeclares).append hend

theorem declaresFuncs_declareMethods (members : List Member) (hs : s.Sound) {owner : SymbolId}
    {scope : ScopeId} {funcs : List SymbolId}
    (h : (declareMethods owner scope members).Gives settings s funcs s') :
    DeclaresFuncs s (members.filterMap fun
      | .func decl => some decl
      | .field _ => none) funcs s' := by
  induction members generalizing s funcs with
  | nil =>
      obtain ⟨rfl, rfl⟩ := gives_pure.mp h
      exact declaresFuncs_of_calm (.refl hs)
  | cons member rest ih =>
      cases member with
      | field field => exact ih hs h
      | func decl =>
          simp only [declareMethods, gives_bind, gives_pure] at h
          obtain ⟨func, s₁, hfunc, funcs', _, hrest, rfl, rfl⟩ := h
          have hfunc := declaresFuncs_withCursor hs hfunc
          exact hfunc.append (ih hfunc.sound hrest)

theorem declaresFuncs_declareFuncs (decls : List Decl) (hs : s.Sound) {funcs : List SymbolId}
    (h : (declareFuncs decls).Gives settings s funcs s') :
    DeclaresFuncs s (decls.flatMap Decl.funcs) funcs s' := by
  induction decls generalizing s funcs with
  | nil =>
      obtain ⟨rfl, rfl⟩ := gives_pure.mp h
      exact declaresFuncs_of_calm (.refl hs)
  | cons decl rest ih =>
      have finish {funcs₁ funcs₂ : List SymbolId} {s₁ : CheckState}
          (hfirst : DeclaresFuncs s decl.funcs funcs₁ s₁)
          (hrest : (declareFuncs rest).Gives settings s₁ funcs₂ s') :
          DeclaresFuncs s ((decl :: rest).flatMap Decl.funcs) (funcs₁ ++ funcs₂) s' :=
        hfirst.append (ih hfirst.sound hrest)
      cases decl with
      | func decl =>
          simp only [declareFuncs, gives_bind, gives_pure] at h
          obtain ⟨func, s₁, hdeclare, _, _, ⟨rfl, rfl⟩, funcs₂, _, hrest, rfl, rfl⟩ := h
          exact finish (declares_declareFunc hs hdeclare).declaresFuncs hrest
      | structType node name members =>
          simp only [declareFuncs, gives_bind, gives_pure] at h
          obtain ⟨owner, _, howner, scope, _, hscope, funcs₁, s₁, hmethods, funcs₂, _, hrest, rfl,
            rfl⟩ := h
          obtain ⟨-, rfl⟩ := declSymbol_gives howner
          obtain rfl := memberScope_state hscope
          exact finish (declaresFuncs_declareMethods members hs hmethods) hrest
      | _ =>
          simp only [declareFuncs, gives_bind, gives_pure] at h
          obtain ⟨_, _, ⟨rfl, rfl⟩, funcs₂, _, hrest, rfl, rfl⟩ := h
          exact finish (declaresFuncs_of_calm (.refl hs)) hrest

/-! ## Analyzing variables and bodies -/

theorem GlobalRuns.stays {decl : Decl} (run : GlobalRuns settings decl s visited s' visited')
    (hs : s.Sound) : s.Stays s' := by
  cases run with
  | global runBinding => exact runBinding.preserves hs trivial
  | other => exact .refl hs

theorem stays_globals {decls : List Decl}
    (run : RunsEach (GlobalRuns settings) decls s visited s' visited') (hs : s.Sound) :
    s.Stays s' :=
  run.keeps (P := fun t _ => s.Stays t) (.refl hs) fun _ _ _ _ _ runGlobal h =>
    h.trans (runGlobal.stays h.sound)

theorem stays_bodies {funcs : List SymbolId}
    (run : RunsEach (fun func => Runs settings (.body func)) funcs s visited s' visited') (hs : s.Sound) :
    s.Stays s' :=
  run.keeps (P := fun t _ => s.Stays t) (.refl hs) fun func t _ t' _ runBody h =>
    have hanalyzed : Analyzed t func t' := runBody.preserves h.sound trivial
    h.trans hanalyzed.toStays

/-- A function that is done stays done. -/
theorem done_of_leads {func : SymbolId} (h : s.Leads s')
    (hdone : ∀ info, s.tables.symbols.func? func = some info → info.state = .done) :
    ∀ info, s'.tables.symbols.func? func = some info → info.state = .done := by
  intro info' hinfo'
  rcases h.states func info' hinfo' with hdone' | ⟨info, hinfo, heq⟩
  · exact hdone'
  · exact heq ▸ hdone info hinfo

theorem analyzed_bodies {funcs : List SymbolId}
    (run : RunsEach (fun func => Runs settings (.body func)) funcs s visited s' visited')
    (hs : s.Sound) (hidle : ∀ func, ¬ s.tables.InProgress func) :
    s.Stays s' ∧ ∀ func ∈ funcs, ∀ info, s'.tables.symbols.func? func = some info →
      info.state = .done := by
  induction run with
  | nil => exact ⟨.refl hs, by simp⟩
  | @cons func rest s s₁ _ _ _ _ runFirst _ ih =>
      have hanalyzed : Analyzed s func s₁ := runFirst.preserves hs trivial
      have hidle₁ (other : SymbolId) : ¬ s₁.tables.InProgress other := by
        intro hother
        obtain ⟨info', hinfo', hstate'⟩ := Option.map_eq_some_iff.mp hother
        rcases hanalyzed.leads.states other info' hinfo' with hdone | ⟨info, hinfo, heq⟩
        · simp [hstate'] at hdone
        · exact hidle other (Option.map_eq_some_iff.mpr ⟨info, hinfo, heq.trans hstate'⟩)
      obtain ⟨hstays, hdone⟩ := ih hanalyzed.sound hidle₁
      refine ⟨hanalyzed.toStays.trans hstays, fun other hother => ?_⟩
      rcases List.mem_cons.mp hother with rfl | hother
      · exact done_of_leads hstays.leads (hanalyzed.done (hidle other))
      · exact hdone other hother

/-! ## A module -/

theorem mild_declareImports (importer : String) (scope : ScopeId) (names : List Ident) (hs : s.Sound)
    {seen scopes : List ScopeId}
    (h : (declareImports importer scope seen names).Gives settings s scopes s') : s.Mild s' := by
  induction names generalizing s seen with
  | nil =>
      simp only [declareImports, gives_pure] at h
      exact h.2 ▸ (Calm.refl hs).toMild
  | cons name rest ih =>
      simp only [declareImports, gives_bind, gives_state] at h
      obtain ⟨_, _, ⟨rfl, rfl⟩, h⟩ := h
      split at h
      · simp at h
      · rw [gives_ite] at h
        split at h
        · exact ih hs h
        · rw [gives_bind] at h
          obtain ⟨_, s₁, hdeclare, hrest⟩ := h
          obtain ⟨-, s₂, hrow, rfl⟩ := gives_withCursor.mp hdeclare
          have hstart := calm_setCursor hs scope
          have hbind := hstart.toMild.trans (mild_declareRow hstart.sound (by simp) hrow)
          have hend := hbind.trans (calm_setCursor hbind.sound s.scopes.cursor).toMild
          exact hend.trans (ih hend.sound hrest)

theorem mild_declareModule (hs : s.Sound) {m : Module} {scope : ScopeId}
    (h : (declareModule m).Gives settings s scope s') : s.Mild s' := by
  simp only [declareModule, gives_bind, gives_state] at h
  obtain ⟨_, _, ⟨rfl, rfl⟩, h⟩ := h
  rw [gives_ite] at h
  split at h
  · simp at h
  · simp only [gives_bind, gives_update, gives_pure] at h
    obtain ⟨_, s₁, henter, symbol, s₂, hnew, _, s₃, howner, imports, s₄, himports, _, _, rfl, -,
      rfl⟩ := h
    have henter := calm_withCursor hs (fun _ _ hs _ => calm_enterScope hs) henter
    have hnew := (calm_newSymbol henter.sound hnew trivial (by simp) (by simp)).1
    have howner := calm_setOwner hnew.sound howner
    have himports := mild_declareImports _ _ _ howner.sound himports
    refine (((henter.trans hnew).trans howner).toMild.trans himports).trans (Calm.toMild ?_)
    exact himports.sound.quiet rfl (.refl _) rfl rfl rfl rfl rfl rfl (.refl _) (fun _ h => .inl h)
      fun _ => rfl

theorem calm_markExternal (hs : s.Sound) {first : SymbolId}
    (h : (markExternal first).Gives settings s () s') : s.Calm s' := by
  obtain rfl := gives_modifySymbols.mp h
  refine hs.quiet rfl ?_ rfl rfl rfl rfl rfl rfl (.refl _) (fun _ h => .inl h) fun _ => rfl
  have mark (ids : List SymbolId) (t : SymbolTable) : t.Alike (ids.foldl
      (fun t id => t.modify id fun symbol => { symbol with external := true }) t) := by
    induction ids generalizing t with
    | nil => exact .refl t
    | cons id rest ih =>
        refine (SymbolTable.alike_modify t id (fun _ => ?_) fun _ => ?_).trans (ih _) <;> rfl
  exact mark _ _

/-- The phases of the analysis of a module. -/
inductive Phases (settings : Settings) (m : Module) (s : CheckState) (visited : List Nat)
    (s' : CheckState) (visited' : List Nat) : Prop
  | intro {s₁ s₂ s₃ s₄ s₅ s₆ funcs visited₁} (start : s.Mild s₁)
      (types : DeclaresTypes s₁.tables.symbols.size m.decls s₁ s₂)
      (parts : Completes s₁.tables.symbols.size m.decls s₂ s₃)
      (functions : (declareFuncs m.decls).Gives settings s₃ funcs s₄)
      (globals : RunsEach (GlobalRuns settings) m.decls s₄ visited s₅ visited₁)
      (bodies : RunsEach (fun func => Runs settings (.body func)) funcs s₅ visited₁ s₆ visited')
      (finish : s₆.Sound → s₆.Calm s')

theorem ModuleRuns.phases {isExternal : Bool} {m : Module}
    (run : ModuleRuns settings isExternal m s visited s' visited') (hs : s.Sound) :
    Phases settings m s visited s' visited' := by
  cases run with
  | @intro scope _ _ s₁ _ _ _ _ _ _ _ _ _ hmodule htypes hparts hfuncs runGlobals runBodies hfinish =>
  have hmodule := mild_declareModule hs hmodule
  have hstart := hmodule.trans (calm_setCursor hmodule.sound scope).toMild
  have htypes := declaresTypes_forM m.decls hstart.sound (Nat.le_refl _) htypes
  have hparts := completes_forM m.decls htypes.sound htypes.symbols hparts
  refine .intro hstart htypes hparts hfuncs runGlobals runBodies fun hs₆ => ?_
  have hcursor := calm_setCursor hs₆ s₁.scopes.cursor
  split at hfinish
  · exact hcursor.trans (calm_markExternal hcursor.sound hfinish)
  · exact (gives_pure.mp hfinish).2 ▸ hcursor

/-- A module leads from a sound state to a sound one, whatever else is under analysis. -/
theorem ModuleRuns.sound {isExternal : Bool} {m : Module}
    (run : ModuleRuns settings isExternal m s visited s' visited') (hs : s.Sound) : s'.Sound := by
  obtain ⟨-, -, hparts, hfuncs, hglobals, hbodies, hfinish⟩ := run.phases hs
  have hfuncs := declaresFuncs_declareFuncs m.decls hparts.sound hfuncs
  have hglobals := stays_globals hglobals hfuncs.sound
  exact (hfinish (stays_bodies hbodies hglobals.sound).sound).sound

/-- Once its functions are declared, a module has no function under analysis, and only its own are not
done. -/
theorem states_of_declaresFuncs {decls : List FuncDecl} {funcs : List SymbolId} (hidle : s.Idle)
    (hsteady : s.tables.Steady s'.tables) (hfuncs : DeclaresFuncs s' decls funcs s'') (func : SymbolId)
    (info : FuncInfo) (hinfo : s''.tables.symbols.func? func = some info) :
    info.state = .done ∨ func ∈ funcs ∧ info.state ≠ .inProgress := by
  rcases hfuncs.states func info hinfo with hnew | ⟨info', hinfo', heq⟩
  · exact .inr hnew
  · have hstate := hsteady.states func
    rw [hinfo', Option.map_some, eq_comm, Option.map_eq_some_iff] at hstate
    obtain ⟨info₀, hinfo₀, heq₀⟩ := hstate
    exact .inl ((heq₀.trans heq).symm.trans (hidle.done func info₀ hinfo₀))

/-- A module leaves nothing under analysis. -/
theorem ModuleRuns.idle {isExternal : Bool} {m : Module}
    (run : ModuleRuns settings isExternal m s visited s' visited') (hidle : s.Idle) : s'.Idle := by
  obtain ⟨hstart, htypes, hparts, hfuncs, hglobals, hbodies, hfinish⟩ := run.phases hidle.sound
  rename_i s₁ s₂ s₃ s₄ s₅ s₆ funcs _
  have hfuncs := declaresFuncs_declareFuncs m.decls hparts.sound hfuncs
  have hglobals := stays_globals hglobals hfuncs.sound
  have hsteady := (hstart.tables.toSteady.trans htypes.steady).trans hparts.steady
  have hstates := states_of_declaresFuncs hidle hsteady hfuncs
  have hnone (func : SymbolId) : ¬ s₅.tables.InProgress func := by
    intro hfunc
    obtain ⟨info₅, hinfo₅, hstate₅⟩ := Option.map_eq_some_iff.mp hfunc
    rcases hglobals.leads.states func info₅ hinfo₅ with hdone | ⟨info₄, hinfo₄, heq⟩
    · simp [hstate₅] at hdone
    · rcases hstates func info₄ hinfo₄ with hdone | ⟨-, hne⟩
      · simp [heq, hstate₅] at hdone
      · exact hne (heq.trans hstate₅)
  obtain ⟨hbodies, hdone⟩ := analyzed_bodies hbodies hglobals.sound hnone
  have hfinish := hfinish hbodies.sound
  have hruns := (hglobals.trans hbodies).trans hfinish.stays
  have hcomplete₃ := complete_of_completes (hidle.complete.grows hstart.tables.toGrows) htypes hparts
  have hcomplete₄ := hcomplete₃.grows hfuncs.grows
  refine ⟨hfinish.sound, ?_, fun func info hinfo => ?_, hcomplete₄.grows hruns.leads.grows, ?_⟩
  · rw [hruns.frames, hfuncs.frames, hparts.frames, htypes.frames, hstart.frames, hidle.frames]
  · rcases hruns.leads.states func info hinfo with hdone' | ⟨info₄, hinfo₄, heq⟩
    · exact hdone'
    · rcases hstates func info₄ hinfo₄ with hdone₄ | ⟨hmem, -⟩
      · exact heq ▸ hdone₄
      · exact done_of_leads hfinish.leads (hdone func hmem) info hinfo
  · have hapart₃ := hparts.apart (htypes.apart (hstart.separates hidle.complete hidle.apart))
    have hsize := Nat.le_trans htypes.size hparts.size
    exact hruns.leads.separates hcomplete₄ (hfuncs.separates hcomplete₃ (hapart₃.mono hsize))

end Check

end Stela
