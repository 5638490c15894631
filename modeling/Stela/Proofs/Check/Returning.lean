import Stela.Proofs.Check.Placing
import Stela.Proofs.Check.Runs
import Stela.Proofs.Check.Slots

/-!
# Parts of the analysis restore the state

Scopes are entered and left by separate steps, and so are bodies and loops. A body of a function is
analyzed from wherever it is needed, in the scope of its declaration. Every part of the analysis
that succeeds leaves what it entered, by induction on its run.
-/

namespace Stela.Check

open CheckState

variable {α β : Type} {settings : Settings} {s s₁ s' : CheckState} {p : Check α} {f : α → Check β}

/-! ## Steps inside of a body -/

theorem restoring_captureWithin (bound : Nat) {closure object : SymbolId} :
    Restoring (captureWithin bound closure object) := by
  induction bound generalizing closure with
  | zero => exact (quiet_fault _).restoring
  | succ bound ih =>
      intro settings s slot s' h
      obtain ⟨info, -, ⟨-, rfl⟩ | ⟨-, hadds⟩⟩ := captureWithin_gives h
      · exact .refl _
      · obtain ⟨entry, found, via, s₁, info', -, -, hfills, rfl, -⟩ := hadds
        have hfilled : s.Restores s₁ := by
          cases hfills with
          | root | stray | enclosing => exact .refl s
          | parent _ _ _ hrun => exact ih.restores hrun
        exact hfilled.trans restores_modifyClosure

theorem restoring_noteCapture {node : Nat} {object : SymbolId} : Restoring (noteCapture node object) := by
  intro settings s u s' h
  obtain ⟨frame, entry, found, slot, s₁, -, hrun, rfl⟩ | ⟨-, rfl⟩ := noteCapture_gives h
  · have hcapture : Restoring (capture frame.symbol object) :=
      quiet_tables.restoring.bind fun _ => restoring_captureWithin _
    exact (hcapture.restores hrun).trans (restores_aside rfl rfl rfl rfl (.refl _))
  · exact .refl _

theorem restoring_finishBinding {place : BindingPlace} {binding : Binding} {declared : Option TypeId}
    {init : Option (Expr × ExprType)} : Restoring (finishBinding place binding declared init) := by
  have hdeclare (type : ExprType) : Restoring (declareVariable place binding.name type) := by
    cases place with
    | stmt id =>
        exact restoring_declareObject.bind fun _ => quiet_setLocalSymbol.restoring.bind fun _ =>
          (quiet_pure _).restoring
    | decl id =>
        exact restoring_declareObject.bind fun _ => quiet_setDeclSymbol.restoring.bind fun _ =>
          (quiet_pure _).restoring
  refine quiet_bindingType.restoring.bind fun type => quiet_isVoid.restoring.bind fun _ =>
    .ite (quiet_raise.restoring.bind fun _ => (hdeclare _).bind fun symbol => ?_)
      ((hdeclare _).bind fun symbol => ?_)
  all_goals
    split
    · exact (quiet_recordTransfer _ _).restoring
    · exact restoring_update fun _ => restores_aside rfl rfl rfl rfl (.refl _)

theorem restoring_declareParams (params : List (Param × ExprType)) : Restoring (declareParams params) := by
  induction params with
  | nil => exact (quiet_pure _).restoring
  | cons param rest ih =>
      exact restoring_declareObject.bind fun _ => quiet_setParamSymbol.restoring.bind fun _ => ih

/-- A function is declared before its body is analyzed. -/
theorem restoring_declareFunc {decl : FuncDecl} {owner : Option SymbolId} :
    Restoring (declareFunc decl owner) := by
  refine (quiet_lowerSignature _).restoring.bind fun _ => quiet_declaredResult.restoring.bind fun _ =>
    quiet_cursor.restoring.bind fun _ => (restoring_newSymbol ?_).bind fun _ =>
      quiet_setDeclSymbol.restoring.bind fun _ => restoring_declareRow.bind fun _ => (quiet_pure _).restoring
  cases decl.body <;> nofun

/-! ## Entering and leaving a body -/

/-- From a state in which these bodies were entered, a step leads on to one of this sort. -/
def Leads (entered : List ((SymbolId × FrameKind × ScopeId) × Nat)) (p : Check α)
    (Q : CheckState → CheckState → Prop) : Prop :=
  ∀ settings start s a s', CheckState.Opens entered start s → p.Gives settings s a s' → Q start s'

/-- The state behind a step that entered a scope and a body in it, but no loop. -/
def EntersBody (s s' : CheckState) : Prop := ∃ place, s.Opens [(place, 0)] s'

section

variable {entered : List ((SymbolId × FrameKind × ScopeId) × Nat)} {Q : CheckState → CheckState → Prop}

theorem Restoring.leads (h : Restoring p) (hf : ∀ a, Leads entered (f a) Q) : Leads entered (p >>= f) Q := by
  intro settings start s b s' hopens hgives
  obtain ⟨a, s₁, hp, hrest⟩ := gives_bind.mp hgives
  exact hf a settings start s₁ b s' (hopens.trans (h.restores hp)) hrest

theorem leads_pushFrame {frame : Frame} (hdepth : frame.loopDepth = 0) :
    Leads [] (pushFrame frame) EntersBody := by
  intro settings start s u s' hopens hgives
  obtain rfl := gives_update.mp hgives
  exact ⟨frame.place, hdepth ▸ hopens.push⟩

theorem leads_popFrame {body : (SymbolId × FrameKind × ScopeId) × Nat} {f : Frame → Check β}
    (hf : ∀ frame, Leads [] (f frame) Q) : Leads [body] (popFrame >>= f) Q := by
  intro settings start s b s' hopens hgives
  obtain ⟨frame, s₁, hpop, hrest⟩ := gives_bind.mp hgives
  obtain ⟨rest, hframes, rfl⟩ := gives_popFrame.mp hpop
  exact hf frame settings start _ b s' (hopens.pop hframes) hrest

theorem leads_leaveScope {f : Unit → Check β} (hf : ∀ u, Restoring (f u)) :
    Leads [] (leaveScope >>= f) Restores := by
  intro settings start s b s' hopens hgives
  obtain ⟨u, s₁, hleave, hrest⟩ := gives_bind.mp hgives
  obtain ⟨-, rfl⟩ := gives_leaveScope.mp hleave
  exact hopens.leave.trans ((hf u).restores hrest)

end

/-- A step that enters a scope and in it a body, but no loop. -/
def Entering (p : Check α) : Prop :=
  ∀ settings s a s', p.Gives settings s a s' → EntersBody s s'

theorem Entering.opens (h : Entering p) {a : α} (hgives : p.Gives settings s a s') :
    ∃ place, s.Opens [(place, 0)] s' := h settings s a s' hgives

theorem Entering.bodies (h : Entering p) {a : α} (hgives : p.Gives settings s a s') :
    ∃ place, s'.bodies = (place, 0) :: s.bodies := (h.opens hgives).imp fun _ hopens => hopens.bodies

theorem Restoring.enters (h : Restoring p) (hf : ∀ a, Entering (f a)) : Entering (p >>= f) := by
  intro settings s b s' hgives
  obtain ⟨a, s₁, hp, hrest⟩ := gives_bind.mp hgives
  exact ((hf a).opens hrest).imp fun _ hopens => hopens.after (h.restores hp)

theorem opens_enterScope {kind : ScopeKind} {owner : Option SymbolId} {scope : ScopeId}
    (h : (enterScope kind owner).Gives settings s scope s') : s.Opens [] s' := by
  obtain ⟨-, rfl⟩ := gives_enterScope.mp h
  exact opens_enter

theorem entering_enterScope {kind : ScopeKind} {owner : Option SymbolId} {f : ScopeId → Check β}
    (hf : ∀ scope, Leads [] (f scope) EntersBody) : Entering (enterScope kind owner >>= f) := by
  intro settings s b s' hgives
  obtain ⟨scope, s₁, henter, hrest⟩ := gives_bind.mp hgives
  exact hf scope settings s s₁ b s' (opens_enterScope henter) hrest

theorem entering_openClosure {node : Node} {sig : Signature} : Entering (openClosure node sig) := by
  refine (quiet_lowerSignature _).restoring.enters fun params => quiet_lowerOptional.restoring.enters
    fun declared => quiet_frame?.restoring.enters fun frame => quiet_cursor.restoring.enters fun _ =>
      quiet_cursor.restoring.enters fun _ => (restoring_newSymbol (by nofun)).enters fun closure =>
        quiet_useSymbol.restoring.enters fun _ => ?_
  refine Restoring.enters (restoring_update fun _ => restores_aside rfl rfl rfl rfl (.refl _)) fun _ =>
    entering_enterScope fun scope => ?_
  exact restoring_modifyClosure.leads fun _ => (restoring_declareParams _).leads fun _ => leads_pushFrame rfl

theorem entering_openBody {func : SymbolId} {info : FuncInfo} : Entering (openBody func info) := by
  refine entering_enterScope fun scope =>
    (restoring_modifyFunc (f := fun info => { info with bodyScope := some scope }) fun _ => rfl).leads fun _ => ?_
  dsimp only
  split
  · exact quiet_typeOfSymbol.restoring.leads fun _ => restoring_declareObject.leads fun _ =>
      (restoring_declareParams _).leads fun _ => leads_pushFrame rfl
  · exact (quiet_pure _).restoring.leads fun _ => (restoring_declareParams _).leads fun _ => leads_pushFrame rfl

section

variable {body : (SymbolId × FrameKind × ScopeId) × Nat}

theorem leads_closeClosure {node : Node} {stmts : List Stmt} :
    Leads [body] (closeClosure node stmts) Restores :=
  leads_popFrame fun _ => quiet_finishBody.restoring.leads fun _ => leads_leaveScope fun _ =>
    restoring_modifyClosure.bind fun _ => quiet_tables.restoring.bind fun _ =>
      quiet_require.restoring.bind fun _ => quiet_intern.restoring.bind fun _ => (quiet_pure _).restoring

theorem leads_closeBody {decl : FuncDecl} {stmts : List Stmt} :
    Leads [body] (closeBody decl stmts) Restores :=
  leads_popFrame fun _ => quiet_finishBody.restoring.leads fun _ => leads_leaveScope fun _ =>
    (quiet_pure _).restoring

end

/-! ## Runs -/

/-- A block is entered and left again. -/
theorem restores_block {kind : ScopeKind} {owner : Option SymbolId} {scope : ScopeId} {s₂ : CheckState}
    (henter : (enterScope kind owner).Gives settings s scope s₁) (h : s₁.Restores s₂)
    (hleave : leaveScope.Gives settings s₂ () s') : s.Restores s' := by
  obtain ⟨-, rfl⟩ := gives_leaveScope.mp hleave
  exact ((opens_enterScope henter).trans h).leave

/-- A function is in progress as soon as its analysis begins. -/
theorem inProgress_of_start {func : SymbolId} {info : FuncInfo}
    (hfunc : s.tables.symbols.func? func = some info)
    (hstart : (setBodyState func .inProgress).Gives settings s () s₁) : s₁.tables.InProgress func := by
  obtain ⟨-, rfl⟩ := gives_modifyAt.mp hstart
  exact (SymbolTable.state?_modifyFunc hfunc func).trans (if_pos rfl)

/-- The body of a function that was not analyzed before is in progress while it is analyzed, and
done behind that. -/
theorem restores_analyzed {func : SymbolId} {info : FuncInfo} {ret : TypeId} {s₂ : CheckState}
    (hfunc : s.tables.symbols.func? func = some info) (hstate : info.state = .unchecked)
    (hstart : (setBodyState func .inProgress).Gives settings s () s₁) (h : s₁.Restores s₂)
    (hfinish : (modifyFunc func fun info =>
      { info with ret := some ret, state := .done }).Gives settings s₂ () s') : s.Restores s' := by
  have hactive : s₂.tables.InProgress func := (h.progress func).mpr (inProgress_of_start hfunc hstart)
  obtain ⟨-, rfl⟩ := gives_modifyAt.mp hstart
  obtain ⟨-, rfl⟩ := gives_modifyAt.mp hfinish
  have hmarked := SymbolTable.state?_modifyFunc (f := fun info => { info with state := .inProgress }) hfunc
  obtain ⟨info₂, hfunc₂, -⟩ := Option.map_eq_some_iff.mp hactive
  have hfresh : s.tables.symbols.state? func = some .unchecked :=
    (congrArg (Option.map FuncInfo.state) hfunc).trans (congrArg some hstate)
  have hpreserves {t : SymbolTable} {f : FuncInfo → FuncInfo} : t.Preserves (t.modifyFunc func f) :=
    SymbolTable.preserves_of_eq fun _ => SymbolTable.identity?_modifyFunc
  have harises (hs : s.Arises) : s₂.Arises := h.arises (hs.aside rfl rfl)
  refine ⟨⟨h.types, (hpreserves.trans h.symbols).trans hpreserves, h.scopes, h.rows,
    fun hs => (harises hs).aside rfl rfl⟩, h.cursor, h.bodies, fun other => ?_⟩
  have hdone :=
    SymbolTable.state?_modifyFunc (f := fun info => { info with ret := some ret, state := .done }) hfunc₂ other
  by_cases heq : func = other
  · -- Before the analysis the function was not analyzed, behind it it is done.
    subst heq
    rw [if_pos rfl] at hdone
    exact iff_of_false (fun hp => by cases hdone.symm.trans hp) fun hp => by cases hfresh.symm.trans hp
  · rw [if_neg heq] at hdone
    have hsame := (hmarked other).trans (if_neg heq)
    exact (Eq.congr_left hdone).trans ((h.progress other).trans (Eq.congr_left hsame))

/-- A function without a body is done at once. -/
theorem restores_bodyless {func : SymbolId} {info : FuncInfo}
    (hfunc : s.tables.symbols.func? func = some info) (hstate : info.state = .unchecked)
    (h : (setBodyState func .done).Gives settings s () s') : s.Restores s' := by
  obtain ⟨-, rfl⟩ := gives_modifyAt.mp h
  refine restores_resymbol (SymbolTable.preserves_of_eq fun _ => SymbolTable.identity?_modifyFunc) fun other => ?_
  rw [SymbolTable.state?_modifyFunc hfunc]
  split
  · next heq => simp [← heq, SymbolTable.state?, hfunc, hstate]
  · rfl

/-- A part of the analysis restores the state, by induction on its run. -/
theorem Runs.restores {task : Task} {visited visited' : List Nat}
    (run : Runs settings task s visited s' visited') : s.Restores s' := by
  induction run with
  | resultNone | resultKnown | resultMissing | argsNil | elementsNil | stmtsNil | bodySkip => exact .refl _
  | resultAnalyzed _ _ _ _ ih => exact ih
  | resultPending _ _ _ hintern => exact quiet_intern.restores hintern
  | funcType _ hintern ih => exact ih.trans (quiet_intern.restores hintern)
  | calleeBuiltin hsurvivors huse _ hinst =>
      exact ((quiet_survivors _).restores hsurvivors).trans
        ((quiet_useSymbol.restores huse).trans (quiet_instantiate.restores hinst))
  | calleeObject hsurvivors huse _ hcapture =>
      exact ((quiet_survivors _).restores hsurvivors).trans
        ((quiet_useSymbol.restores huse).trans (restoring_noteCapture.restores hcapture))
  | calleeFunc hsurvivors huse _ _ _ _ ih =>
      exact ((quiet_survivors _).restores hsurvivors).trans ((quiet_useSymbol.restores huse).trans ih)
  | valueObject _ huse hcapture =>
      exact (quiet_useSymbol.restores huse).trans (restoring_noteCapture.restores hcapture)
  | valueFunc _ huse _ _ _ ih => exact (quiet_useSymbol.restores huse).trans ih
  | entriesCallee _ ih => exact ih
  | entriesValue _ _ ih => exact ih
  | literal htype hrecord =>
      exact (quiet_literalType.restores htype).trans (quiet_record.restores hrecord)
  | identCallee _ hrecord ih => exact ih.trans (quiet_record.restores hrecord)
  | identValue _ _ _ hrecord ih => exact ih.trans (quiet_record.restores hrecord)
  | memberModule hpath _ _ hrecord ih =>
      exact ((quiet_staticPath _).restores hpath).trans (ih.trans (quiet_record.restores hrecord))
  | memberCase hpath htype _ _ _ huse _ hrecord =>
      have hfound := ((quiet_staticPath _).restores hpath).trans (quiet_typeOfSymbol.restores htype)
      exact hfound.trans ((quiet_useSymbol.restores huse).trans (quiet_record.restores hrecord))
  | memberStatic hpath htype _ _ _ _ _ hrecord ih =>
      have hfound := ((quiet_staticPath _).restores hpath).trans (quiet_typeOfSymbol.restores htype)
      exact hfound.trans (ih.trans (quiet_record.restores hrecord))
  | memberField hpath _ _ _ _ _ _ huse hrecord ih =>
      have hfound := ((quiet_staticPath _).restores hpath).trans ih
      exact hfound.trans ((quiet_useSymbol.restores huse).trans (quiet_record.restores hrecord))
  | memberMethod hpath _ _ _ _ _ _ _ _ _ hrecord ih ih' =>
      have hfound := ((quiet_staticPath _).restores hpath).trans ih
      exact hfound.trans (ih'.trans (quiet_record.restores hrecord))
  | memberHost hpath _ _ _ _ _ hrecord ih =>
      exact ((quiet_staticPath _).restores hpath).trans (ih.trans (quiet_record.restores hrecord))
  | call _ _ hfinish hrecord ih ih' =>
      exact (ih.trans ih').trans ((quiet_finishCall.restores hfinish).trans (quiet_record.restores hrecord))
  | index _ _ _ _ _ _ hrecord ih ih' => exact (ih.trans ih').trans (quiet_record.restores hrecord)
  | unary _ _ _ hrecord ih => exact ih.trans (quiet_record.restores hrecord)
  | binary _ _ hfinish hrecord ih ih' =>
      exact (ih.trans ih').trans ((quiet_finishBinary.restores hfinish).trans (quiet_record.restores hrecord))
  | ternary _ _ _ hsettle _ hrecord ih ih' ih'' =>
      exact (ih.trans (ih'.trans ih'')).trans
        ((quiet_settlePending.restores hsettle).trans (quiet_record.restores hrecord))
  | emptyArray _ hrecord => exact quiet_record.restores hrecord
  | array _ _ htransfer _ hintern hrecord ih ih' =>
      exact (ih.trans (((quiet_recordTransfer _ _).restores htransfer).trans ih')).trans
        ((quiet_intern.restores hintern).trans (quiet_record.restores hrecord))
  | closure hopen _ hclose hrecord ih =>
      obtain ⟨place, hopens⟩ := entering_openClosure.opens hopen
      exact (leads_closeClosure _ _ _ _ _ (hopens.trans ih) hclose).trans (quiet_record.restores hrecord)
  | argsCons _ _ _ ih ih' => exact ih.trans ih'
  | elementsCons _ _ _ htransfer _ ih ih' =>
      exact ih.trans (((quiet_recordTransfer _ _).restores htransfer).trans ih')
  | bindInit hlower _ _ hfinish ih =>
      exact (quiet_lowerOptional.restores hlower).trans (ih.trans (restoring_finishBinding.restores hfinish))
  | bindDefault hlower hfinish =>
      exact (quiet_lowerOptional.restores hlower).trans (restoring_finishBinding.restores hfinish)
  | bind _ ih => exact ih
  | assign _ _ _ _ _ hfinish ih ih' => exact (ih.trans ih').trans (quiet_finishAssign.restores hfinish)
  | exprStmt _ ih => exact ih
  | ifOnly _ henter _ hleave ih ih' => exact ih.trans (restores_block henter ih' hleave)
  | ifElse _ henter _ hleave henter' _ hleave' ih ih' ih'' =>
      exact ih.trans ((restores_block henter ih' hleave).trans (restores_block henter' ih'' hleave'))
  | whileLoop _ hloop henter _ hleave hend ih ih' =>
      have hbody := restores_block henter ih' hleave
      exact ih.trans ((relooped_enterLoop hloop).restores_around hbody (relooped_leaveLoop hend))
  | retValue _ _ hreturn ih => exact ih.trans (quiet_checkReturned.restores hreturn)
  | retBare _ hreturn => exact quiet_checkBareReturn.restores hreturn
  | breakLoop hloop => exact quiet_checkLoopControl.restores hloop
  | continueLoop hloop => exact quiet_checkLoopControl.restores hloop
  | block henter _ hleave ih => exact restores_block henter ih hleave
  | funcStmt hdeclare _ ih => exact (restoring_declareFunc.restores hdeclare).trans ih
  | stmtsCons _ _ ih ih' => exact ih.trans ih'
  | bodyNone hfunc hstate _ hdone => exact restores_bodyless hfunc hstate hdone
  | bodyRun hfunc hstate _ hstart _ hscope hopen _ hclose hfinish ih =>
      obtain ⟨place, hopens⟩ := entering_openBody.opens hopen
      have hbody := leads_closeBody _ _ _ _ _ (hopens.trans ih) hclose
      exact restores_analyzed hfunc hstate hstart (.elsewhere hscope hbody) hfinish

theorem IsRun.restores {task : Task} (run : IsRun settings task s s') : s.Restores s' :=
  have ⟨_, run⟩ := run []
  run.restores

/-! ## Modules -/

theorem restoring_declareImports {importer : String} {scope : ScopeId} (names : List Ident) :
    ∀ seen, Restoring (declareImports importer scope seen names) := by
  induction names with
  | nil => exact fun _ => (quiet_pure _).restoring
  | cons name rest ih =>
      intro seen
      refine quiet_state.restoring.bind fun s => ?_
      split
      · exact quiet_raise.restoring
      · exact .ite (ih _) (restoring_declareRow.withCursor.bind fun _ => ih _)

/-- A module is entered with the imports that were declared for it. -/
theorem restores_enroll {importer : String} {scope : ScopeId} {names : List Ident} {imports : List ScopeId}
    (h : (declareImports importer scope [] names).Gives settings s imports s') (name : String)
    (symbol : SymbolId) :
    s.Restores { s' with modules := s'.modules ++ [⟨name, symbol, scope, imports⟩] } :=
  have himports := (restoring_declareImports names []).restores h
  ⟨⟨himports.types, himports.symbols, himports.scopes, himports.rows,
    fun hs => (himports.arises hs).module h name symbol⟩, himports.cursor, himports.bodies,
    himports.progress⟩

/-- A scope is entered elsewhere, from which the cursor comes back. -/
theorem restores_enterElsewhere {place scope : ScopeId} {kind : ScopeKind} {owner : Option SymbolId}
    (h : (withCursor place (enterScope kind owner)).Gives settings s scope s') :
    s.Restores s' ∧ scope < s'.scopes.size := by
  obtain ⟨hplace, s₁, henter, rfl⟩ := gives_withCursor.mp h
  have hopens := opens_enterScope henter
  refine ⟨⟨⟨hopens.types, hopens.symbols,
    ⟨hopens.scopes.size, hopens.scopes.kinds, hopens.scopes.parents⟩, hopens.rows,
    fun hs => hs.elsewhere hplace hopens.arises hopens.scopes.size⟩, rfl, hopens.bodies,
    hopens.progress⟩, ?_⟩
  obtain ⟨rfl, rfl⟩ := gives_enterScope.mp henter
  exact ScopeGraph.lt_size_enter

/-- A module is declared with a scope of its own. -/
theorem restores_declareModule {m : Module} {scope : ScopeId}
    (h : (declareModule m).Gives settings s scope s') :
    s.Restores s' ∧ (s'.scopes.get? scope).isSome := by
  simp only [declareModule, gives_bind, gives_state] at h
  obtain ⟨_, _, ⟨rfl, rfl⟩, h⟩ := h
  rw [gives_ite] at h
  split at h
  · simp at h
  · simp only [gives_bind, gives_update, gives_pure] at h
    obtain ⟨_, s₁, henter, symbol, s₂, hnew, _, s₃, howner, imports, s₄, himports, _, _, rfl, rfl,
      rfl⟩ := h
    obtain ⟨hentered, hlt⟩ := restores_enterElsewhere henter
    have hidle (scope : ScopeId) : (SymbolKind.moduleSpace scope).outline.state? ≠ some .inProgress :=
      (Option.some_ne_none _).symm
    have hnew := (restoring_newSymbol (hidle _)).restores hnew
    have howner := quiet_setOwner.restores howner
    have hrest := (hnew.trans howner).trans (restores_enroll himports m.name.name symbol)
    exact ⟨hentered.trans hrest, ScopeGraph.isSome_get? (Nat.lt_of_lt_of_le hlt hrest.scopes.size)⟩

theorem restoring_declareMethods {owner : SymbolId} {scope : ScopeId} (members : List Member) :
    Restoring (declareMethods owner scope members) := by
  induction members with
  | nil => exact (quiet_pure _).restoring
  | cons member rest ih =>
      cases member with
      | field field => exact ih
      | func decl =>
          exact restoring_declareFunc.withCursor.bind fun _ => ih.bind fun _ => (quiet_pure _).restoring

theorem restoring_declareFuncs (decls : List Decl) : Restoring (declareFuncs decls) := by
  induction decls with
  | nil => exact (quiet_pure _).restoring
  | cons decl rest ih =>
      have hrest (funcs : List SymbolId) : Restoring (do
          let rest ← declareFuncs rest
          return funcs ++ rest) := ih.bind fun _ => (quiet_pure _).restoring
      unfold declareFuncs
      split
      · exact restoring_declareFunc.bind fun _ => (quiet_pure _).restoring.bind hrest
      · exact quiet_declSymbol.restoring.bind fun _ => restoring_memberScope.bind fun _ =>
          (restoring_declareMethods _).bind hrest
      · exact (quiet_pure _).restoring.bind hrest

theorem GlobalRuns.restores {decl : Decl} {visited visited' : List Nat}
    (run : GlobalRuns settings decl s visited s' visited') : s.Restores s' := by
  cases run with
  | global runBinding => exact runBinding.restores
  | other => exact .refl _

/-- What comes before the bodies of a module. -/
theorem restores_beforeBodies {bound : Nat} {decls : List Decl} {funcs : List SymbolId}
    {s₁ s₂ s₃ : CheckState} (htypes : (decls.forM declareType).Gives settings s () s₁)
    (hparts : (decls.forM completeType).Gives settings s₁ () s₂)
    (hfuncs : (declareFuncs decls).Gives settings s₂ funcs s₃)
    (hglobals : (decls.forM (checkGlobal bound)).Gives settings s₃ () s') : s.Restores s' := by
  have htypes := (Restoring.forM fun decl _ => (quiet_declareType decl).restoring).restores htypes
  have hparts := (Restoring.forM fun decl _ => (quiet_completeType decl).restoring).restores hparts
  have hfuncs := (restoring_declareFuncs _).restores hfuncs
  have hglobals : s₃.Restores s' := gives_forM_keeps hglobals (.refl _) fun _ _ _ _ hglobal ht => by
    obtain ⟨_, run⟩ := runs_checkGlobal bound hglobal []
    exact ht.trans run.restores
  exact ((htypes.trans hparts).trans hfuncs).trans hglobals

theorem ModuleRuns.restores {isExternal : Bool} {m : Module} {visited visited' : List Nat}
    (run : ModuleRuns settings isExternal m s visited s' visited') : s.Restores s' := by
  cases run with
  | @intro _ _ _ _ _ _ s₄ s₅ _ _ _ _ _ hmodule htypes hparts hfuncs runGlobals runBodies hfinish =>
      have hdeclared := (Restoring.forM fun decl _ => (quiet_declareType decl).restoring).restores htypes
      have hcompleted := (Restoring.forM fun decl _ => (quiet_completeType decl).restoring).restores hparts
      have hglobals := runGlobals.keeps (P := fun t _ => s₄.Restores t) (.refl _)
        fun _ _ _ _ _ run h => h.trans run.restores
      have hbodies := runBodies.keeps (P := fun t _ => s₅.Restores t) (.refl _)
        fun _ _ _ _ _ run h => h.trans run.restores
      have hdecls := ((hdeclared.trans hcompleted).trans ((restoring_declareFuncs _).restores hfuncs)).trans
        (hglobals.trans hbodies)
      have hmarked : Restoring (if isExternal then markExternal s.tables.symbols.size else pure ()) :=
        .ite quiet_markExternal.restoring (quiet_pure _).restoring
      obtain ⟨hmodule, hscope⟩ := restores_declareModule hmodule
      exact (hmodule.trans (.elsewhere hscope hdecls)).trans (hmarked.restores hfinish)

theorem restores_checkModule {bound : Nat} {isExternal : Bool} {m : Module}
    (h : (checkModule bound isExternal m).Gives settings s () s') : s.Restores s' := by
  obtain ⟨_, run⟩ := runs_checkModule bound h []
  exact run.restores

theorem restores_checkModules {bound : Nat} {isExternal : Bool} {modules : List Module}
    (h : (modules.forM (checkModule bound isExternal)).Gives settings s () s') : s.Restores s' :=
  gives_forM_keeps h (.refl s) fun _ _ _ _ hmodule ht => ht.trans (restores_checkModule hmodule)

theorem bodies_enterScope {kind : ScopeKind} {owner : Option SymbolId} {scope : ScopeId}
    (h : (enterScope kind owner).Gives settings s scope s') : s'.bodies = s.bodies :=
  (opens_enterScope h).bodies

theorem bodies_leaveScope (h : leaveScope.Gives settings s () s') : s'.bodies = s.bodies := by
  obtain ⟨-, rfl⟩ := gives_leaveScope.mp h
  rfl

end Stela.Check
