import Stela.Proofs.Check.Placing
import Stela.Proofs.Check.Program

/-!
# Where objects come from

Every object is a variable, a parameter or a receiver that the source declares.
A part of the analysis adds only the objects and functions of what it visits, or
those of a function that was declared before.
-/

namespace Stela

variable {source : SourceDecl → Prop}

/-- What is declared as the variable belongs to the source. -/
def Variable.Within (source : SourceDecl → Prop) (v : Variable) : Prop :=
  ∀ declared, v.Declares declared → source declared

theorem Variable.Within.object {v : Variable} (h : v.Within source) (type : TypeId) :
    source (.object v.name.name v.name.span ⟨.named type v.mutability, v.origin⟩) := h _ ⟨type, rfl⟩

/-- What a closure or function declares belongs to the source. -/
structure Occurrence.Within (source : SourceDecl → Prop) (item : Occurrence) : Prop where
  vars : ∀ v ∈ item.variables, v.Within source
  func : ∀ decl, item = .func decl → source (.func decl)

/-- What a declaration of a module holds and declares belongs to the source. -/
structure Decl.Within (source : SourceDecl → Prop) (decl : Decl) : Prop where
  items : ∀ item ∈ decl.items, item.Within source
  vars : ∀ v ∈ decl.globals, v.Within source

/-- With a function everything in it belongs to the source. -/
def Closed (source : SourceDecl → Prop) : Prop :=
  ∀ decl, source (.func decl) → ∀ item ∈ decl.items, item.Within source

namespace Check

open CheckState

variable {settings : Settings} {s s' : CheckState} {α : Type} {p : Check α}

theorem Keeping.among (h : Keeping source p) {a : α} (hgives : p.Gives settings s a s')
    (hs : s.Among source) : s'.Among source := h settings s a s' hgives hs

theorem Quiet.among (h : Quiet p) {a : α} (hgives : p.Gives settings s a s') (hs : s.Among source) :
    s'.Among source := h.keeping.among hgives hs

/-! ## Captures -/

theorem keeping_modifyClosure {closure : SymbolId} {f : ClosureInfo → ClosureInfo} :
    Keeping source (modifyClosure closure f) := by
  intro settings s u s' h
  obtain ⟨-, rfl⟩ := gives_modifyAt.mp h
  exact confines_of_eq (fun _ => SymbolTable.declared?_modifyClosure) source

theorem among_captureWithin (bound : Nat) {closure object : SymbolId} {slot : Nat}
    (h : (captureWithin bound closure object).Gives settings s slot s') (hs : s.Among source) :
    s'.Among source := by
  induction bound generalizing closure slot s s' with
  | zero => exact absurd h gives_fault
  | succ bound ih =>
      obtain ⟨info, -, ⟨-, rfl⟩ | ⟨-, hadds⟩⟩ := captureWithin_gives h
      · exact hs
      · obtain ⟨entry, found, via, s₁, info', -, -, hfills, rfl, -⟩ := hadds
        have hbefore : s₁.Among source := by
          cases hfills with
          | root | stray | enclosing => exact hs
          | parent _ _ _ hrun => exact ih hrun hs
        exact confines_of_eq (fun _ => SymbolTable.declared?_modifyClosure) source hbefore

theorem keeping_noteCapture {node : Nat} {object : SymbolId} :
    Keeping source (noteCapture node object) := by
  intro settings s u s' h hs
  obtain ⟨frame, entry, found, slot, s₁, -, hrun, rfl⟩ | ⟨-, rfl⟩ := noteCapture_gives h
  · simp only [capture, gives_bind, gives_tables] at hrun
    obtain ⟨_, _, ⟨rfl, rfl⟩, hrun⟩ := hrun
    exact confines_of_symbols (s := s₁) rfl source (among_captureWithin _ hrun hs)
  · exact hs

/-! ## Variables -/

theorem keeping_variable {v : Variable} (h : v.Within source) {type : TypeId} :
    Keeping source (declareObject v.name (.named type v.mutability) v.origin) :=
  keeping_declareObject (h.object type)

theorem keeping_finishBinding {place : BindingPlace} {binding : Binding} {declared : Option TypeId}
    {init : Option (Expr × ExprType)} (h : (binding.variable place.origin).Within source) :
    Keeping source (finishBinding place binding declared init) := by
  have hdeclare (type : TypeId) :
      Keeping source (declareVariable place binding.name (.named type binding.mutability)) := by
    cases place with
    | stmt id =>
        exact (keeping_variable h).bind fun _ => quiet_setLocalSymbol.keeping.bind fun _ =>
          (quiet_pure _).keeping
    | decl id =>
        exact (keeping_variable h).bind fun _ => quiet_setDeclSymbol.keeping.bind fun _ =>
          (quiet_pure _).keeping
  refine quiet_bindingType.keeping.bind fun type => quiet_isVoid.keeping.bind fun _ =>
    .ite (quiet_raise.keeping.bind fun _ => (hdeclare type).bind fun symbol => ?_)
      ((hdeclare type).bind fun symbol => ?_)
  all_goals
    split
    · exact (quiet_recordTransfer _ _).keeping
    · exact keeping_update fun _ => rfl

theorem keeping_declareParams (params : List (Param × ExprType))
    (h : ∀ p ∈ params, p.1.variable.Within source) : Keeping source (declareParams params) := by
  induction params with
  | nil => exact (quiet_pure _).keeping
  | cons param rest ih =>
      exact (keeping_variable (h param List.mem_cons_self)).bind fun _ =>
        quiet_setParamSymbol.keeping.bind fun _ => ih fun p hp => h p (List.mem_cons_of_mem _ hp)

theorem within_zip {params : List Param} {types : List ExprType}
    (h : ∀ v ∈ params.map Param.variable, v.Within source) :
    ∀ p ∈ params.zip types, p.1.variable.Within source :=
  fun _ hp => h _ (List.mem_map_of_mem (List.of_mem_zip hp).1)

/-! ## Bodies -/

theorem keeping_popFrame : Keeping source popFrame := by
  refine quiet_state.keeping.bind fun s => ?_
  split
  · exact .bind (keeping_update fun _ => rfl) fun _ => (quiet_pure _).keeping
  · exact (quiet_fault _).keeping

theorem keeping_openClosure {node : Node} {sig : Signature}
    (h : ∀ v ∈ sig.params.map Param.variable, v.Within source) :
    Keeping source (openClosure node sig) := by
  refine (quiet_lowerSignature _).keeping.bind fun params => quiet_lowerOptional.keeping.bind fun declared =>
    quiet_frame?.keeping.bind fun frame => quiet_cursor.keeping.bind fun scope =>
      quiet_cursor.keeping.bind fun place => ?_
  refine (keeping_newSymbol fun _ hd => absurd hd (by simp [SymbolKind.declared?])).bind fun closure =>
    quiet_useSymbol.keeping.bind fun _ => .bind (keeping_update fun _ => rfl) fun _ => ?_
  exact keeping_enterScope.bind fun _ => keeping_modifyClosure.bind fun _ =>
    (keeping_declareParams _ (within_zip h)).bind fun _ => keeping_update fun _ => rfl

theorem keeping_closeClosure {node : Node} {body : List Stmt} :
    Keeping source (closeClosure node body) :=
  keeping_popFrame.bind fun _ => quiet_finishBody.keeping.bind fun _ => keeping_leaveScope.bind fun _ =>
    keeping_modifyClosure.bind fun _ => quiet_tables.keeping.bind fun _ =>
      quiet_require.keeping.bind fun _ => quiet_intern.keeping.bind fun _ => (quiet_pure _).keeping

theorem keeping_closeBody {decl : FuncDecl} {body : List Stmt} :
    Keeping source (closeBody decl body) :=
  keeping_popFrame.bind fun _ => quiet_finishBody.keeping.bind fun _ => keeping_leaveScope.bind fun _ =>
    (quiet_pure _).keeping

theorem keeping_modifyFunc {func : SymbolId} {f : FuncInfo → FuncInfo}
    (hdecl : ∀ info, (f info).decl = info.decl) :
    Keeping source (modifyFunc func f) := by
  intro settings s u s' h
  obtain ⟨-, rfl⟩ := gives_modifyAt.mp h
  exact confines_of_eq (fun _ => SymbolTable.declared?_modifyFunc hdecl) source

theorem keeping_setBodyState {func : SymbolId} {state : BodyState} :
    Keeping source (setBodyState func state) := keeping_modifyFunc fun _ => rfl

theorem keeping_openBody {func : SymbolId} {info : FuncInfo}
    (hreceiver : ∀ v ∈ info.decl.receiver, v.Within source)
    (hparams : ∀ v ∈ info.decl.sig.params.map Param.variable, v.Within source) :
    Keeping source (openBody func info) := by
  refine keeping_enterScope.bind fun scope => .bind (keeping_modifyFunc fun _ => rfl) fun _ => ?_
  dsimp only
  have finish {frame : Frame} : Keeping source (do
      declareParams (info.decl.sig.params.zip info.params)
      pushFrame frame) :=
    (keeping_declareParams _ (within_zip hparams)).bind fun _ => keeping_update fun _ => rfl
  split
  · next receiver owner hkind howner =>
    have hself : Variable.Within source ⟨⟨"self", info.decl.name.span⟩, receiver, .receiver⟩ :=
      hreceiver _ (by simp [FuncDecl.receiver, hkind])
    exact quiet_typeOfSymbol.keeping.bind fun _ => (keeping_variable hself).bind fun _ => finish
  · exact (quiet_pure _).keeping.bind fun _ => finish

theorem keeping_declareFunc {decl : FuncDecl} {owner : Option SymbolId} (h : source (.func decl)) :
    Keeping source (declareFunc decl owner) := by
  refine (quiet_lowerSignature _).keeping.bind fun params =>
    quiet_declaredResult.keeping.bind fun ret => quiet_cursor.keeping.bind fun scope => ?_
  exact (keeping_newSymbol fun _ hd => Option.some.inj hd ▸ h).bind fun _ =>
    quiet_setDeclSymbol.keeping.bind fun _ => keeping_declareRow.bind fun _ => (quiet_pure _).keeping

/-! ## Runs -/

/-- What a part of the analysis declares, apart from closures and functions that it visits. -/
def Task.variables : Task → List Variable
  | .stmt part => part.parts.flatMap Stmt.variables
  | .stmts parts => (Stmt.listParts parts).flatMap Stmt.variables
  | .binding place part => [part.variable place.origin]
  | .expr .. | .args .. | .elements .. | .body _ | .result .. | .funcType .. | .callee .. | .value ..
  | .entries .. => []

/-- What a part of the analysis visits and declares belongs to the source. -/
structure Task.Within (source : SourceDecl → Prop) (task : Task) : Prop where
  items : ∀ item ∈ task.items, item.Within source
  vars : ∀ v ∈ task.variables, v.Within source

theorem Task.Within.sub {task part : Task} (h : task.Within source) (hitems : part.items ⊆ task.items)
    (hvars : part.variables ⊆ task.variables) : part.Within source :=
  ⟨fun item hitem => h.items item (hitems hitem), fun v hv => h.vars v (hvars hv)⟩

/-- A part of the analysis that visits and declares nothing by itself. -/
theorem within_nothing {task : Task} (hitems : task.items = []) (hvars : task.variables = []) :
    task.Within source := ⟨by simp [hitems], by simp [hvars]⟩

/-- Everything in the body of a function of the source belongs to the source. -/
theorem within_body (hsource : Closed source) {decl : FuncDecl} {body : List Stmt}
    (hdecl : source (.func decl)) (hbody : decl.body = some body) :
    (Task.stmts body).Within source ∧ (∀ v ∈ decl.receiver, v.Within source) ∧
      ∀ v ∈ decl.sig.params.map Param.variable, v.Within source := by
  have hitems := hsource decl hdecl
  rw [FuncDecl.items_eq, hbody] at hitems
  have hvars := (hitems (.func decl) (by simp)).vars
  simp only [Occurrence.variables, hbody] at hvars
  obtain ⟨hheader, hvars⟩ := List.forall_mem_append.mp hvars
  obtain ⟨hreceiver, hparams⟩ := List.forall_mem_append.mp hheader
  exact ⟨⟨(List.forall_mem_append.mp hitems).1, hvars⟩, hreceiver, hparams⟩

/-- A part of the analysis adds nothing but what belongs to the source, by induction on its run. -/
theorem Runs.among {task : Task} {visited visited' : List Nat}
    (run : Runs settings task s visited s' visited') (hsource : Closed source)
    (htask : task.Within source) (hs : s.Among source) : s'.Among source := by
  induction run with
  | resultNone | resultKnown | resultMissing => exact hs
  | resultAnalyzed _ _ _ _ ih => exact ih (within_nothing rfl rfl) hs
  | resultPending _ _ _ hintern => exact quiet_intern.among hintern hs
  | funcType _ hintern ih => exact quiet_intern.among hintern (ih (within_nothing rfl rfl) hs)
  | calleeBuiltin hsurvivors huse _ hinst =>
      have huse := quiet_useSymbol.among huse ((quiet_survivors _).among hsurvivors hs)
      exact quiet_instantiate.among hinst huse
  | calleeObject hsurvivors huse _ hcapture =>
      have huse := quiet_useSymbol.among huse ((quiet_survivors _).among hsurvivors hs)
      exact keeping_noteCapture.among hcapture huse
  | calleeFunc hsurvivors huse _ _ _ _ ih =>
      have huse := quiet_useSymbol.among huse ((quiet_survivors _).among hsurvivors hs)
      exact ih (within_nothing rfl rfl) huse
  | valueObject _ huse hcapture =>
      exact keeping_noteCapture.among hcapture (quiet_useSymbol.among huse hs)
  | valueFunc _ huse _ _ _ ih => exact ih (within_nothing rfl rfl) (quiet_useSymbol.among huse hs)
  | entriesCallee _ ih => exact ih (within_nothing rfl rfl) hs
  | entriesValue _ _ ih => exact ih (within_nothing rfl rfl) hs
  | literal htype hrecord => exact quiet_record.among hrecord (quiet_literalType.among htype hs)
  | identCallee _ hrecord ih => exact quiet_record.among hrecord (ih (within_nothing rfl rfl) hs)
  | identValue _ _ _ hrecord ih => exact quiet_record.among hrecord (ih (within_nothing rfl rfl) hs)
  | memberModule hpath _ _ hrecord ih =>
      have hpath := (quiet_staticPath _).among hpath hs
      exact quiet_record.among hrecord (ih (within_nothing rfl rfl) hpath)
  | memberCase hpath htype _ _ _ huse _ hrecord =>
      have htype := quiet_typeOfSymbol.among htype ((quiet_staticPath _).among hpath hs)
      exact quiet_record.among hrecord (quiet_useSymbol.among huse htype)
  | memberStatic hpath htype _ _ _ _ _ hrecord ih =>
      have htype := quiet_typeOfSymbol.among htype ((quiet_staticPath _).among hpath hs)
      exact quiet_record.among hrecord (ih (within_nothing rfl rfl) htype)
  | memberField hpath _ _ _ _ _ _ huse hrecord ih =>
      have hobject := ih (htask.sub (by simp [Task.items, Expr.items]) (List.Subset.refl _))
        ((quiet_staticPath _).among hpath hs)
      exact quiet_record.among hrecord (quiet_useSymbol.among huse hobject)
  | memberMethod hpath _ _ _ _ _ _ _ _ _ hrecord ih ih' =>
      have hobject := ih (htask.sub (by simp [Task.items, Expr.items]) (List.Subset.refl _))
        ((quiet_staticPath _).among hpath hs)
      exact quiet_record.among hrecord (ih' (within_nothing rfl rfl) hobject)
  | memberHost hpath _ _ _ _ _ hrecord ih =>
      have hobject := ih (htask.sub (by simp [Task.items, Expr.items]) (List.Subset.refl _))
        ((quiet_staticPath _).among hpath hs)
      exact quiet_record.among hrecord hobject
  | call _ _ hfinish hrecord ih ih' =>
      have hargs := ih (htask.sub (by grind [Task.items, Expr.items]) (List.Subset.refl _)) hs
      have hcallee := ih' (htask.sub (by grind [Task.items, Expr.items]) (List.Subset.refl _)) hargs
      exact quiet_record.among hrecord (quiet_finishCall.among hfinish hcallee)
  | index _ _ _ _ _ _ hrecord ih ih' =>
      have hbase := ih (htask.sub (by grind [Task.items, Expr.items]) (List.Subset.refl _)) hs
      have hindex := ih' (htask.sub (by grind [Task.items, Expr.items]) (List.Subset.refl _)) hbase
      exact quiet_record.among hrecord hindex
  | unary _ _ _ hrecord ih =>
      have hoperand := ih (htask.sub (by grind [Task.items, Expr.items]) (List.Subset.refl _)) hs
      exact quiet_record.among hrecord hoperand
  | binary _ _ hfinish hrecord ih ih' =>
      have hlhs := ih (htask.sub (by grind [Task.items, Expr.items]) (List.Subset.refl _)) hs
      have hrhs := ih' (htask.sub (by grind [Task.items, Expr.items]) (List.Subset.refl _)) hlhs
      exact quiet_record.among hrecord (quiet_finishBinary.among hfinish hrhs)
  | ternary _ _ _ hsettle _ hrecord ih ih' ih'' =>
      have hcond := ih (htask.sub (by grind [Task.items, Expr.items]) (List.Subset.refl _)) hs
      have honTrue := ih' (htask.sub (by grind [Task.items, Expr.items]) (List.Subset.refl _)) hcond
      have honFalse :=
        ih'' (htask.sub (by grind [Task.items, Expr.items]) (List.Subset.refl _)) honTrue
      exact quiet_record.among hrecord (quiet_settlePending.among hsettle honFalse)
  | emptyArray _ hrecord => exact quiet_record.among hrecord hs
  | array _ _ htransfer _ hintern hrecord ih ih' =>
      have hfirst := ih (htask.sub (by grind [Task.items, Expr.items, Expr.listItems])
        (List.Subset.refl _)) hs
      have hrest := ih' (htask.sub (by grind [Task.items, Expr.items, Expr.listItems])
        (List.Subset.refl _)) ((quiet_recordTransfer _ _).among htransfer hfirst)
      exact quiet_record.among hrecord (quiet_intern.among hintern hrest)
  | closure hopen _ hclose hrecord ih =>
      obtain ⟨hbody, hself⟩ := List.forall_mem_append.mp htask.items
      obtain ⟨hparams, hvars⟩ := List.forall_mem_append.mp (hself _ (List.mem_singleton_self _)).vars
      have hbody := ih ⟨hbody, hvars⟩ ((keeping_openClosure hparams).among hopen hs)
      exact quiet_record.among hrecord (keeping_closeClosure.among hclose hbody)
  | argsNil | elementsNil | stmtsNil | bodySkip => exact hs
  | argsCons _ _ _ ih ih' =>
      have hfirst := ih (htask.sub (by grind [Task.items, Expr.listItems]) (List.Subset.refl _)) hs
      exact ih' (htask.sub (by grind [Task.items, Expr.listItems]) (List.Subset.refl _)) hfirst
  | elementsCons _ _ _ htransfer _ ih ih' =>
      have hfirst := ih (htask.sub (by grind [Task.items, Expr.listItems]) (List.Subset.refl _)) hs
      exact ih' (htask.sub (by grind [Task.items, Expr.listItems]) (List.Subset.refl _))
        ((quiet_recordTransfer _ _).among htransfer hfirst)
  | bindInit hlower _ _ hfinish ih =>
      have hinit := ih (htask.sub (by simp [Task.items, Binding.items, Expr.optionItems])
        (List.nil_subset _)) (quiet_lowerOptional.among hlower hs)
      exact (keeping_finishBinding (htask.vars _ (List.mem_singleton_self _))).among hfinish hinit
  | bindDefault hlower hfinish =>
      exact (keeping_finishBinding (htask.vars _ (List.mem_singleton_self _))).among hfinish
        (quiet_lowerOptional.among hlower hs)
  | bind _ ih =>
      exact ih (htask.sub (by simp [Task.items, Stmt.items])
        (by simp [Task.variables, Stmt.parts, Stmt.variables, BindingPlace.origin])) hs
  | assign _ _ _ _ _ hfinish ih ih' =>
      have htarget := ih (htask.sub (by grind [Task.items, Stmt.items]) (List.nil_subset _)) hs
      have hvalue := ih' (htask.sub (by grind [Task.items, Stmt.items]) (List.nil_subset _)) htarget
      exact quiet_finishAssign.among hfinish hvalue
  | exprStmt _ ih => exact ih (htask.sub (by grind [Task.items, Stmt.items]) (List.nil_subset _)) hs
  | ifOnly _ henter _ hleave ih ih' =>
      have hcond := ih (htask.sub (by grind [Task.items, Stmt.items]) (List.nil_subset _)) hs
      have hstart := keeping_enterScope.among henter hcond
      have honTrue := ih' (htask.sub (by grind [Task.items, Stmt.items])
        (by simp [Task.variables, Stmt.parts, Stmt.variables, Stmt.optionParts])) hstart
      exact keeping_leaveScope.among hleave honTrue
  | ifElse _ henter _ hleave henter' _ hleave' ih ih' ih'' =>
      have hcond := ih (htask.sub (by grind [Task.items, Stmt.items]) (List.nil_subset _)) hs
      have hstart := keeping_enterScope.among henter hcond
      have honTrue := ih' (htask.sub (by grind [Task.items, Stmt.items])
        (by simp [Task.variables, Stmt.parts, Stmt.variables, Stmt.optionParts])) hstart
      have hstart' := keeping_enterScope.among henter' (keeping_leaveScope.among hleave honTrue)
      have honFalse := ih'' (htask.sub (by grind [Task.items, Stmt.items, Stmt.optionItems])
        (by simp [Task.variables, Stmt.parts, Stmt.variables, Stmt.optionParts])) hstart'
      exact keeping_leaveScope.among hleave' honFalse
  | whileLoop _ hloop henter _ hleave hend ih ih' =>
      have hcond := ih (htask.sub (by grind [Task.items, Stmt.items]) (List.nil_subset _)) hs
      have hstart := keeping_enterScope.among henter ((relooped_enterLoop hloop).confines source hcond)
      have hbody := ih' (htask.sub (by grind [Task.items, Stmt.items])
        (by simp [Task.variables, Stmt.parts, Stmt.variables])) hstart
      exact (relooped_leaveLoop hend).confines source (keeping_leaveScope.among hleave hbody)
  | retValue _ _ hreturn ih =>
      have hvalue := ih (htask.sub (by grind [Task.items, Stmt.items, Expr.optionItems])
        (List.nil_subset _)) hs
      exact quiet_checkReturned.among hreturn hvalue
  | retBare _ hreturn => exact quiet_checkBareReturn.among hreturn hs
  | breakLoop hloop => exact quiet_checkLoopControl.among hloop hs
  | continueLoop hloop => exact quiet_checkLoopControl.among hloop hs
  | block henter _ hleave ih =>
      have hstart := keeping_enterScope.among henter hs
      have hbody := ih (htask.sub (by grind [Task.items, Stmt.items])
        (by simp [Task.variables, Stmt.parts, Stmt.variables])) hstart
      exact keeping_leaveScope.among hleave hbody
  | @funcStmt node decl _ _ _ _ _ _ hdeclare _ ih =>
      have hdecl := htask.items (.func decl) (by simp [Task.items, Stmt.items, FuncDecl.items_eq])
      exact ih (within_nothing rfl rfl)
        ((keeping_declareFunc (hdecl.func decl rfl)).among hdeclare hs)
  | stmtsCons _ _ ih ih' =>
      have hfirst := ih (htask.sub (by grind [Task.items, Stmt.listItems])
        (by simp [Task.variables, Stmt.listParts])) hs
      exact ih' (htask.sub (by grind [Task.items, Stmt.listItems])
        (by simp [Task.variables, Stmt.listParts])) hfirst
  | bodyNone _ _ _ hdone => exact keeping_setBodyState.among hdone hs
  | @bodyRun func info _ _ _ _ s₁ _ _ s₄ _ _ _ hfunc _ hbody hstart _ _ hopen _ hclose hfinish ih =>
      have hdecl := hs _ _ (SymbolTable.declared?_of_func? hfunc)
      obtain ⟨hwithin, hreceiver, hparams⟩ := within_body hsource hdecl hbody
      have hopens : Keeping source (openBody func info) := keeping_openBody hreceiver hparams
      have hopen := hopens.among hopen
        (confines_of_symbols (s := s₁) rfl source (keeping_setBodyState.among hstart hs))
      have hclose := keeping_closeBody.among hclose (ih hwithin hopen)
      refine Keeping.among (keeping_modifyFunc ?_) hfinish ?_
      · exact fun _ => rfl
      · exact confines_of_symbols (s := s₄) rfl source hclose

/-! ## Modules -/

theorem keeping_declareImports (importer : String) {scope : ScopeId} (names : List Ident) :
    ∀ seen, Keeping source (declareImports importer scope seen names) := by
  induction names with
  | nil => exact fun _ => (quiet_pure _).keeping
  | cons name rest ih =>
      intro seen
      refine quiet_state.keeping.bind fun s => ?_
      split
      · exact quiet_raise.keeping
      · exact .ite (ih seen) (keeping_declareRow.withCursor.bind fun _ => ih _)

theorem keeping_declareModule (m : Module) : Keeping source (declareModule m) := by
  have finish : Keeping source (do
      let scope ← withCursor ScopeGraph.root (enterScope .namespaceScope none)
      let symbol ← newSymbol m.name.name m.name.span (.moduleSpace scope) ScopeGraph.root
      setOwner scope symbol
      let imports ← declareImports m.name.name scope [] m.imports
      update fun s => { s with modules := s.modules ++ [⟨m.name.name, symbol, scope, imports⟩] }
      return scope) :=
    keeping_enterScope.withCursor.bind fun _ =>
      (keeping_newSymbol fun _ hd => absurd hd (by simp [SymbolKind.declared?])).bind fun _ =>
        quiet_setOwner.keeping.bind fun _ => (keeping_declareImports _ _ _).bind fun _ =>
          .bind (keeping_update fun _ => rfl) fun _ => (quiet_pure _).keeping
  exact quiet_state.keeping.bind fun _ => .ite (quiet_raise.keeping.bind fun _ => finish) finish

theorem keeping_declareMethods (members : List Member) {owner : SymbolId} {scope : ScopeId}
    (h : ∀ decl, .func decl ∈ members → source (.func decl)) :
    Keeping source (declareMethods owner scope members) := by
  induction members with
  | nil => exact (quiet_pure _).keeping
  | cons member rest ih =>
      have hrest := ih fun decl hdecl => h decl (List.mem_cons_of_mem _ hdecl)
      cases member with
      | field field => exact hrest
      | func decl =>
          exact (keeping_declareFunc (h decl List.mem_cons_self)).withCursor.bind fun _ =>
            hrest.bind fun _ => (quiet_pure _).keeping

theorem keeping_declareFuncs (decls : List Decl) (h : ∀ decl ∈ decls, decl.Within source) :
    Keeping source (declareFuncs decls) := by
  induction decls with
  | nil => exact (quiet_pure _).keeping
  | cons decl rest ih =>
      have hrest := ih fun d hd => h d (List.mem_cons_of_mem _ hd)
      have hitems := (h decl List.mem_cons_self).items
      cases decl with
      | func decl =>
          have hdecl := hitems (.func decl) (by simp [Decl.items, FuncDecl.items_eq])
          exact (keeping_declareFunc (hdecl.func decl rfl)).bind fun _ => (quiet_pure _).keeping.bind fun _ =>
            hrest.bind fun _ => (quiet_pure _).keeping
      | structType node name members =>
          refine quiet_declSymbol.keeping.bind fun _ => keeping_memberScope.bind fun _ =>
            (keeping_declareMethods members fun decl hdecl => ?_).bind fun _ => hrest.bind fun _ =>
              (quiet_pure _).keeping
          have hmem : .func decl ∈ (Decl.structType node name members).items :=
            List.mem_flatMap.mpr ⟨.func decl, hdecl, by simp [FuncDecl.items_eq]⟩
          exact (hitems _ hmem).func decl rfl
      | _ => exact (quiet_pure _).keeping.bind fun _ => hrest.bind fun _ => (quiet_pure _).keeping

theorem keeping_checkBody (hsource : Closed source) {bound : Nat} {func : SymbolId} :
    Keeping source (checkBody bound func) := by
  intro settings s u s' hgives hs
  obtain ⟨_, run⟩ := runs_checkBody bound hgives []
  exact run.among hsource (within_nothing rfl rfl) hs

theorem keeping_checkGlobal (hsource : Closed source) {bound : Nat} {decl : Decl}
    (h : decl.Within source) : Keeping source (checkGlobal bound decl) := by
  cases decl with
  | global node binding =>
      intro settings s u s' hgives hs
      obtain ⟨_, run⟩ := runs_checkBinding (fun _ _ _ => runs_checkBody bound) _ _ hgives []
      exact run.among hsource ⟨h.items, h.vars⟩ hs
  | _ => exact (quiet_pure _).keeping

theorem keeping_checkModule (hsource : Closed source) {bound : Nat} {isExternal : Bool} {m : Module}
    (h : ∀ decl ∈ m.decls, decl.Within source) :
    Keeping source (checkModule bound isExternal m) := by
  have hdecls : Keeping source (checkDecls bound m.decls) :=
    (Keeping.forM fun decl _ => keeping_declareType decl).bind fun _ =>
      (Keeping.forM fun decl _ => (quiet_completeType decl).keeping).bind fun _ =>
        (keeping_declareFuncs _ h).bind fun _ =>
          (Keeping.forM fun decl hdecl => keeping_checkGlobal hsource (h decl hdecl)).bind fun _ =>
            .forM fun _ _ => keeping_checkBody hsource
  exact quiet_tables.keeping.bind fun _ => (keeping_declareModule m).bind fun _ =>
    hdecls.withCursor.bind fun _ => .ite quiet_markExternal.keeping (quiet_pure _).keeping

/-! ## The start -/

/-- At the start there are no objects and functions. -/
theorem among_initial {meanings : Meanings} : (CheckState.initial meanings).Among source := by
  have add {β : Type} (all : List β) (name : β → String) (kind : β → SymbolKind)
      (hkind : ∀ b name span, (kind b).declared? name span = none) (s : CheckState)
      (hs : s.Among source) :
      CheckState.Among source (all.foldl (fun s b => s.addBuiltin (name b) (kind b)) s) := by
    induction all generalizing s with
    | nil => exact hs
    | cons b rest ih =>
        let entry : Symbol := ⟨name b, .dummy, kind b, ScopeGraph.root, false, false⟩
        have hentry : ∀ declared, entry.declared? = some declared → source declared :=
          fun _ hd => absurd hd (by simp [entry, Symbol.declared?, hkind])
        exact ih _ (hs.add hentry)
  exact add _ _ _ (fun _ _ _ => rfl) _ (add _ _ _ (fun _ _ _ => rfl) _ fun id declared hd => by
    simp [SymbolTable.declared?, SymbolTable.get?, SymbolTable.empty] at hd)

end Check

end Stela
