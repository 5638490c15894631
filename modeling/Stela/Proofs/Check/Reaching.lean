import Stela.Proofs.Check.Resolving
import Stela.Proofs.Check.Returning
import Stela.Proofs.Check.Signing

/-!
# What the analysis comes to

A run of the analysis that fails has passed through parts that succeeded, so the
states it has been in are not only those around successful runs. `ComesTo`
relates a part of the analysis that begins in a state to the parts that it begins
in turn, whether or not it succeeds in the end. Every part begins in a consistent
state: all placeholders belong to bodies under analysis, and a function type with
a placeholder for its result is the type of the function that this stands for.
-/

namespace Stela

/-- The state is sound and recorded function types are those of the functions they wait for. -/
structure CheckState.Consistent (s : CheckState) : Prop where
  sound : s.Sound
  signed : s.Signed

/-- If no body is under analysis every recorded type is settled. -/
theorem CheckState.consistent_of_inactive {s : CheckState} (hs : s.Sound)
    (hnone : ∀ func, ¬ s.tables.InProgress func) : s.Consistent := by
  refine ⟨hs, fun node typing htyping => ?_⟩
  rcases hs.exprs node typing htyping with (hsettled | ⟨func, hfunc, -⟩) | ⟨_, _, -, func, hfunc, -⟩
  · exact Tables.signs_of_settled hsettled
  · exact absurd hfunc (hnone func)
  · exact absurd hfunc (hnone func)

namespace Check

open CheckState

/-- A part of the analysis together with what it is given. -/
inductive Part where
  | expr (context : ExprContext) (expected : Option TypeId) (expr : Expr)
  | args (exprs : List Expr)
  /-- The elements of an array after the first one. -/
  | elements (element : TypeId) (exprs : List Expr)
  | stmt (stmt : Stmt)
  | stmts (stmts : List Stmt)
  | binding (place : BindingPlace) (binding : Binding)
  /-- A value or a callee out of symbols that a name means. -/
  | entries (node : Nat) (entries : List SymbolId) (context : ExprContext)
  /-- The body of a function, unless it was analyzed before. -/
  | body (func : SymbolId)
  /-- The end of a body whose statements were analyzed. -/
  | ending (body : List Stmt) (span : Span)

/-- A part of the analysis that begins in a state begins another part in another state. -/
inductive ComesTo (settings : Settings) (analyze : SymbolId → Check Unit) :
    Part → CheckState → Part → CheckState → Prop
  -- Functions whose result is asked for.
  | callee {node candidates args callable chosen info s s₁ s'}
      (hsurvivors : (survivors args candidates).Gives settings s (callable, [chosen]) s₁)
      (huse : (useSymbol node chosen).Gives settings s₁ () s')
      (hfunc : s'.tables.symbols.func? chosen = some info) (hret : info.ret = none)
      (hstate : info.state = .unchecked) :
      ComesTo settings analyze (.entries node candidates (.callee args)) s (.body chosen) s'
  | value {node func context info s s'} (hcontext : ∀ args, context ≠ .callee args)
      (huse : (useSymbol node func).Gives settings s () s')
      (hfunc : s'.tables.symbols.func? func = some info) (hret : info.ret = none)
      (hstate : info.state = .unchecked) :
      ComesTo settings analyze (.entries node [func] context) s (.body func) s'
  -- Expressions.
  | identCallee {expected node name args s} :
      ComesTo settings analyze (.expr (.callee args) expected (.ident node name)) s
        (.entries node.id (s.gather name) (.callee args)) s
  | identValue {context expected node name entries s s'} (hcontext : ∀ args, context ≠ .callee args)
      (hlookup : (lookupRequired ⟨name, node.span⟩).Gives settings s entries s') :
      ComesTo settings analyze (.expr context expected (.ident node name)) s
        (.entries node.id entries context) s'
  | memberModule {context expected node object name target scope s s'}
      (hpath : (staticPath object).Gives settings s (some target) s')
      (hkind : s'.tables.symbols.kind? target = some (.moduleSpace scope)) :
      ComesTo settings analyze (.expr context expected (.member node object name)) s
        (.entries node.id (s'.scopes.entries scope name.name) context) s'
  | memberStatic {context expected node object name target type owner rows first rest s s₁ s'}
      (hpath : (staticPath object).Gives settings s (some target) s₁)
      (htype : (typeOfSymbol target).Gives settings s₁ type s')
      (hconcrete : s'.tables.concreteTy? type = some (.structType owner))
      (hrows : (memberRows owner name).Gives settings s' rows s')
      (hstatic : rows.filter Row.isStatic = first :: rest)
      (haccess : (checkAccess owner first name).Gives settings s' () s') :
      ComesTo settings analyze (.expr context expected (.member node object name)) s
        (.entries node.id (first.symbol :: rest.map Row.symbol) context) s'
  | memberObject {context expected node object name s s'}
      (hpath : (staticPath object).Gives settings s none s') :
      ComesTo settings analyze (.expr context expected (.member node object name)) s
        (.expr .value none object) s'
  | memberMethod {expected node object name args type owner first rest s s₁ s'}
      (hpath : (staticPath object).Gives settings s none s₁)
      (hobject : (known object.span (visit analyze .value none object)).Gives settings s₁ type s')
      (hconcrete : s'.tables.concreteTy? type.type = some (.structType owner))
      (hrows : (memberRows owner name).Gives settings s' (first :: rest) s')
      (haccess : (checkAccess owner first name).Gives settings s' () s')
      (hfield : ∀ info, s'.tables.symbols.kind? first.symbol ≠ some (.field info)) :
      ComesTo settings analyze (.expr (.callee args) expected (.member node object name)) s
        (.entries node.id (((first :: rest).filter fun row => !row.isStatic).map Row.symbol)
          (.callee args)) s'
  | callArgs {context expected node callee args s} :
      ComesTo settings analyze (.expr context expected (.call node callee args)) s (.args args) s
  | callCallee {context expected node callee args types s s'}
      (hargs : (visitArgs analyze args).Gives settings s types s') :
      ComesTo settings analyze (.expr context expected (.call node callee args)) s
        (.expr (.callee (types.map (·.2))) none callee) s'
  | indexBase {context expected node base index s} :
      ComesTo settings analyze (.expr context expected (.index node base index)) s
        (.expr .value none base) s
  | indexSubscript {context expected node base index array element s s'}
      (hbase : (known base.span (visit analyze .value none base)).Gives settings s array s')
      (helement : (arrayElement array base.span).Gives settings s' element s') :
      ComesTo settings analyze (.expr context expected (.index node base index)) s
        (.expr .value none index) s'
  | unary {context expected node op operand s} :
      ComesTo settings analyze (.expr context expected (.unary node op operand)) s
        (.expr .value none operand) s
  | binaryLhs {context expected node op lhs rhs s} :
      ComesTo settings analyze (.expr context expected (.binary node op lhs rhs)) s
        (.expr .value none lhs) s
  | binaryRhs {context expected node op lhs rhs left s s'}
      (hlhs : (visit analyze .value none lhs).Gives settings s left s') :
      ComesTo settings analyze (.expr context expected (.binary node op lhs rhs)) s
        (.expr .value none rhs) s'
  | ternaryCond {context expected node cond onTrue onFalse s} :
      ComesTo settings analyze (.expr context expected (.ternary node cond onTrue onFalse)) s
        (.expr .condition none cond) s
  | ternaryTrue {context expected node cond onTrue onFalse test s s'}
      (hcond : (visit analyze .condition none cond).Gives settings s test s') :
      ComesTo settings analyze (.expr context expected (.ternary node cond onTrue onFalse)) s
        (.expr .value none onTrue) s'
  | ternaryFalse {context expected node cond onTrue onFalse test left s s₁ s'}
      (hcond : (visit analyze .condition none cond).Gives settings s test s₁)
      (hleft : (visit analyze .value none onTrue).Gives settings s₁ left s') :
      ComesTo settings analyze (.expr context expected (.ternary node cond onTrue onFalse)) s
        (.expr .value none onFalse) s'
  | arrayFirst {context expected node first rest s} :
      ComesTo settings analyze (.expr context expected (.array node (first :: rest))) s
        (.expr .value (expected.bind s.tables.element?) first) s
  | arrayRest {context expected node first rest element s s₁ s'}
      (hfirst : (known first.span (visit analyze .value (expected.bind s.tables.element?)
        first)).Gives settings s element s₁)
      (htransfer : (recordTransfer element.type .init first element).Gives settings s₁ () s') :
      ComesTo settings analyze (.expr context expected (.array node (first :: rest))) s
        (.elements element.type rest) s'
  | closureBody {context expected node sig body s s'}
      (hopen : (openClosure node sig).Gives settings s () s') :
      ComesTo settings analyze (.expr context expected (.closure node sig body)) s (.stmts body) s'
  | closureEnd {context expected node sig body s s₁ s'}
      (hopen : (openClosure node sig).Gives settings s () s₁)
      (hbody : (checkStmts analyze body).Gives settings s₁ () s') :
      ComesTo settings analyze (.expr context expected (.closure node sig body)) s
        (.ending body node.span) s'
  | argsFirst {expr rest s} :
      ComesTo settings analyze (.args (expr :: rest)) s (.expr .value none expr) s
  | argsRest {expr rest type s s'}
      (hfirst : (known expr.span (visit analyze .value none expr)).Gives settings s type s') :
      ComesTo settings analyze (.args (expr :: rest)) s (.args rest) s'
  | elementsFirst {element expr rest s} :
      ComesTo settings analyze (.elements element (expr :: rest)) s
        (.expr .value (some element) expr) s
  | elementsRest {element expr rest type s s₁ s'}
      (hfirst : (known expr.span (visit analyze .value (some element) expr)).Gives settings s type s₁)
      (hsame : s₁.tables.same element type.type = true)
      (htransfer : (recordTransfer element .init expr type).Gives settings s₁ () s') :
      ComesTo settings analyze (.elements element (expr :: rest)) s (.elements element rest) s'
  -- Statements.
  | bind {node binding s} :
      ComesTo settings analyze (.stmt (.bind node binding)) s (.binding (.stmt node.id) binding) s
  | init {place mutability name type init declared s s'}
      (hlower : (lowerOptional type).Gives settings s declared s') :
      ComesTo settings analyze (.binding place ⟨mutability, name, type, some init⟩) s
        (.expr .value declared init) s'
  | assignTarget {node target op value s} :
      ComesTo settings analyze (.stmt (.assign node target op value)) s (.expr .value none target) s
  | assignValue {node target op value place s s'}
      (htarget : (known target.span (visit analyze .value none target)).Gives settings s place s')
      (hassignable : place.isAssignable = true) :
      ComesTo settings analyze (.stmt (.assign node target op value)) s
        (.expr .value (some place.type) value) s'
  | expr {node value s} :
      ComesTo settings analyze (.stmt (.expr node value)) s (.expr .value none value) s
  | ifCond {node cond onTrue onFalse s} :
      ComesTo settings analyze (.stmt (.ifElse node cond onTrue onFalse)) s
        (.expr .condition none cond) s
  | ifTrue {node cond onTrue onFalse test scope s s₁ s'}
      (hcond : (visit analyze .condition none cond).Gives settings s test s₁)
      (henter : (enterScope .block none).Gives settings s₁ scope s') :
      ComesTo settings analyze (.stmt (.ifElse node cond onTrue onFalse)) s (.stmts onTrue) s'
  | ifFalse {node cond onTrue onFalse test scope scope' s s₁ s₂ s₃ s₄ s'}
      (hcond : (visit analyze .condition none cond).Gives settings s test s₁)
      (henter : (enterScope .block none).Gives settings s₁ scope s₂)
      (honTrue : (checkStmts analyze onTrue).Gives settings s₂ () s₃)
      (hleave : leaveScope.Gives settings s₃ () s₄)
      (henter' : (enterScope .block none).Gives settings s₄ scope' s') :
      ComesTo settings analyze (.stmt (.ifElse node cond onTrue (some onFalse))) s (.stmts onFalse) s'
  | whileCond {node cond body s} :
      ComesTo settings analyze (.stmt (.whileLoop node cond body)) s (.expr .condition none cond) s
  | whileBody {node cond body test scope s s₁ s₂ s'}
      (hcond : (visit analyze .condition none cond).Gives settings s test s₁)
      (hloop : enterLoop.Gives settings s₁ () s₂)
      (henter : (enterScope .block none).Gives settings s₂ scope s') :
      ComesTo settings analyze (.stmt (.whileLoop node cond body)) s (.stmts body) s'
  | ret {node value frame rest s} (hframe : s.frames = frame :: rest) :
      ComesTo settings analyze (.stmt (.ret node (some value))) s
        (.expr .value frame.ret.expected value) s
  | block {node body scope s s'} (henter : (enterScope .block none).Gives settings s scope s') :
      ComesTo settings analyze (.stmt (.block node body)) s (.stmts body) s'
  | func {node decl func s s'} (hdeclare : (declareFunc decl none).Gives settings s func s') :
      ComesTo settings analyze (.stmt (.func node decl)) s (.body func) s'
  | stmtsFirst {stmt rest s} : ComesTo settings analyze (.stmts (stmt :: rest)) s (.stmt stmt) s
  | stmtsRest {stmt rest s s'} (hfirst : (checkStmt analyze stmt).Gives settings s () s') :
      ComesTo settings analyze (.stmts (stmt :: rest)) s (.stmts rest) s'

/-- The body of a function that was not analyzed before is opened. -/
inductive BeginsBody (settings : Settings) (func : SymbolId) (info : FuncInfo) (body : List Stmt)
    (s s' : CheckState) : Prop
  | intro {entry s₁} (hfunc : s.tables.symbols.func? func = some info)
      (hstate : info.state = .unchecked) (hbody : info.decl.body = some body)
      (hstart : (setBodyState func .inProgress).Gives settings s () s₁)
      (hentry : s₁.tables.symbols.get? func = some entry) (hscope : (s₁.scopes.get? entry.scope).isSome)
      (hopen : (openBody func info).Gives settings
        { s₁ with scopes := s₁.scopes.setCursor entry.scope } () s')

/-- What a part of the analysis needs to know about the types it is given. -/
def Part.Ready (t : Tables) : Part → Prop
  | .expr context expected _ =>
    t.Ready context ∧ ∀ type, expected = some type → t.types.Settled type
  | .elements element _ => t.types.Settled element
  | .entries _ _ context => t.Ready context
  | _ => True

variable {settings : Settings} {s s' : CheckState}

/-! ## Successful parts -/

theorem Task.Preserves.sound {task : Task} (h : task.Preserves s s') : s'.Sound := by
  cases task with
  | elements _ _ => exact Stays.sound h
  | stmt _ => exact Keeps.sound h
  | stmts _ => exact Keeps.sound h
  | binding _ _ => exact Stays.sound h
  | body _ => exact Stays.sound (Analyzed.toStays h)
  | _ => exact h.1.sound

/-- A run keeps a state consistent. -/
theorem Runs.consistent {task : Task} {visited visited' : List Nat}
    (run : Runs settings task s visited s' visited') (hs : s.Consistent)
    (hready : task.Ready s.tables) : s'.Consistent ∧ task.Preserves s s' :=
  have hpreserves := run.preserves hs.sound hready
  ⟨⟨hpreserves.sound, (run.signed hs.sound hready hs.signed).1⟩, hpreserves⟩

theorem IsRun.consistent {task : Task} (run : IsRun settings task s s') (hs : s.Consistent)
    (hready : task.Ready s.tables) : s'.Consistent ∧ task.Preserves s s' :=
  have ⟨_, run⟩ := run []
  run.consistent hs hready

theorem consistent_of_mild (hs : s.Consistent) (h : s.Mild s') : s'.Consistent :=
  ⟨h.sound, hs.signed.mild hs.sound h⟩

theorem consistent_of_steps (hs : s.Consistent) (h : s.Steps s') : s'.Consistent :=
  ⟨h.sound, hs.signed.steps hs.sound h⟩

section

variable {analyze : SymbolId → Check Unit} (hA : ∀ func s s',
  (analyze func).Gives settings s () s' → IsRun settings (.body func) s s')

include hA

/-- A visit of an expression whose type is known afterwards. -/
theorem consistent_known {expected : Option TypeId} {e : Expr} {span : Span} {type : ExprType}
    (hs : s.Consistent) (hexpected : ∀ type, expected = some type → s.tables.types.Settled type)
    (h : (known span (visit analyze .value expected e)).Gives settings s type s') :
    s'.Consistent ∧ s.Stays s' ∧ s'.tables.types.Settled type.type := by
  obtain ⟨hvisit, -, hknown⟩ := gives_known.mp h
  obtain ⟨hconsistent, hstays, hheld⟩ :=
    (runs_visit hA .value expected e hvisit).consistent hs ⟨trivial, hexpected⟩
  exact ⟨hconsistent, hstays, Tables.Held.settled hheld hknown⟩

theorem consistent_visit {context : ExprContext} {e : Expr} {type : ExprType} (hs : s.Consistent)
    (h : (visit analyze context none e).Gives settings s type s') (hcontext : s.tables.Ready context) :
    s'.Consistent :=
  ((runs_visit hA context none e h).consistent hs ⟨hcontext, by simp⟩).1

theorem consistent_checkStmts {body : List Stmt} (hs : s.Consistent)
    (h : (checkStmts analyze body).Gives settings s () s') : s'.Consistent :=
  ((runs_checkStmts hA body h).consistent hs trivial).1

/-! ## Parts that begin -/

omit hA in
theorem BeginsBody.consistent {func : SymbolId} {info : FuncInfo} {body : List Stmt}
    (h : BeginsBody settings func info body s s') (hs : s.Consistent) : s'.Consistent := by
  obtain ⟨hfunc, hstate, -, hstart, -, -, hopen⟩ := h
  obtain ⟨frame, hopens⟩ := opensFunc_openBody hs.sound hfunc hstate hstart hopen
  refine ⟨hopens.sound, hs.signed.grow hs.sound hopens.grows fun _ => ?_⟩
  rw [hopens.exprs]

omit hA in
theorem consistent_openClosure {node : Node} {sig : Signature} (hs : s.Consistent)
    (h : (openClosure node sig).Gives settings s () s') : s'.Consistent := by
  obtain ⟨s₁, frame, hopens, -⟩ := opens_openClosure hs.sound h
  refine ⟨hopens.sound, hs.signed.grow hs.sound hopens.leads.grows fun _ => ?_⟩
  rw [← hopens.push, hopens.calm.exprs]

/-- Every part begins in a consistent state, with settled types where it needs them. -/
theorem ComesTo.consistent {part part' : Part} (h : ComesTo settings analyze part s part' s')
    (hs : s.Consistent) (hready : part.Ready s.tables) :
    s'.Consistent ∧ part'.Ready s'.tables := by
  cases h with
  | callee hsurvivors huse _ _ _ =>
      have hcalm := calm_survivors _ hs.sound hready hsurvivors
      have huse := hcalm.trans (calm_useSymbol hcalm.sound huse)
      exact ⟨consistent_of_mild hs huse.toMild, trivial⟩
  | value _ huse _ _ _ =>
      exact ⟨consistent_of_mild hs (calm_useSymbol hs.sound huse).toMild, trivial⟩
  | identCallee => exact ⟨hs, hready.1⟩
  | identValue _ hlookup => exact lookupRequired_state hlookup ▸ ⟨hs, hready.1⟩
  | memberModule hpath _ =>
      have hpath := calm_staticPath _ hs.sound hpath
      exact ⟨consistent_of_mild hs hpath.toMild, ready_of_stays hready.1 hpath.stays⟩
  | memberStatic hpath htype _ _ _ _ =>
      have hpath := calm_staticPath _ hs.sound hpath
      have hcalm := hpath.trans (written_typeOfSymbol hpath.sound htype).1
      exact ⟨consistent_of_mild hs hcalm.toMild, ready_of_stays hready.1 hcalm.stays⟩
  | memberObject hpath =>
      have hpath := calm_staticPath _ hs.sound hpath
      exact ⟨consistent_of_mild hs hpath.toMild, trivial, by simp⟩
  | memberMethod hpath hobject _ _ _ _ =>
      have hpath := calm_staticPath _ hs.sound hpath
      obtain ⟨hconsistent, hobject, -⟩ :=
        consistent_known hA (consistent_of_mild hs hpath.toMild) (by simp) hobject
      exact ⟨hconsistent, ready_of_stays hready.1 (hpath.stays.trans hobject)⟩
  | callArgs => exact ⟨hs, trivial⟩
  | callCallee hargs =>
      obtain ⟨hconsistent, -, hsettled⟩ := (runs_visitArgs hA _ hargs).consistent hs trivial
      exact ⟨hconsistent, ready_callee hsettled, by simp⟩
  | indexBase => exact ⟨hs, trivial, by simp⟩
  | indexSubscript hbase _ => exact ⟨(consistent_known hA hs (by simp) hbase).1, trivial, by simp⟩
  | unary => exact ⟨hs, trivial, by simp⟩
  | binaryLhs => exact ⟨hs, trivial, by simp⟩
  | binaryRhs hlhs => exact ⟨consistent_visit hA hs hlhs trivial, trivial, by simp⟩
  | ternaryCond => exact ⟨hs, trivial, by simp⟩
  | ternaryTrue hcond => exact ⟨consistent_visit hA hs hcond trivial, trivial, by simp⟩
  | ternaryFalse hcond hleft =>
      have hcond := consistent_visit hA hs hcond trivial
      exact ⟨consistent_visit hA hcond hleft trivial, trivial, by simp⟩
  | arrayFirst => exact ⟨hs, trivial, expects_element hs.sound _⟩
  | arrayRest hfirst htransfer =>
      obtain ⟨hconsistent, -, hsettled⟩ :=
        consistent_known hA hs (expects_element hs.sound _) hfirst
      have htransfer := calm_recordTransfer hconsistent.sound hsettled htransfer
      exact ⟨consistent_of_mild hconsistent htransfer.toMild, hsettled.mono htransfer.tables.types⟩
  | closureBody hopen => exact ⟨consistent_openClosure hs hopen, trivial⟩
  | closureEnd hopen hbody =>
      exact ⟨consistent_checkStmts hA (consistent_openClosure hs hopen) hbody, trivial⟩
  | argsFirst => exact ⟨hs, trivial, by simp⟩
  | argsRest hfirst => exact ⟨(consistent_known hA hs (by simp) hfirst).1, trivial⟩
  | elementsFirst => exact ⟨hs, trivial, expects_some hready⟩
  | elementsRest hfirst _ htransfer =>
      obtain ⟨hconsistent, hstays, -⟩ := consistent_known hA hs (expects_some hready) hfirst
      have hsettled := mono_of_stays hstays hready
      have htransfer := calm_recordTransfer hconsistent.sound hsettled htransfer
      exact ⟨consistent_of_mild hconsistent htransfer.toMild, hsettled.mono htransfer.tables.types⟩
  | bind => exact ⟨hs, trivial⟩
  | init hlower =>
      obtain ⟨hcalm, hdeclared⟩ := settled_lowerOptional hs.sound hlower
      exact ⟨consistent_of_mild hs hcalm.toMild, trivial, hdeclared⟩
  | assignTarget => exact ⟨hs, trivial, by simp⟩
  | assignValue htarget _ =>
      obtain ⟨hconsistent, -, hsettled⟩ := consistent_known hA hs (by simp) htarget
      exact ⟨hconsistent, trivial, expects_some hsettled⟩
  | expr => exact ⟨hs, trivial, by simp⟩
  | ifCond => exact ⟨hs, trivial, by simp⟩
  | ifTrue hcond henter =>
      have hcond := consistent_visit hA hs hcond trivial
      exact ⟨consistent_of_mild hcond (calm_enterScope hcond.sound henter).toMild, trivial⟩
  | ifFalse hcond henter honTrue hleave henter' =>
      have hcond := consistent_visit hA hs hcond trivial
      have henter := consistent_of_mild hcond (calm_enterScope hcond.sound henter).toMild
      have honTrue := consistent_checkStmts hA henter honTrue
      have hleave := calm_leaveScope honTrue.sound hleave
      have henter' := hleave.trans (calm_enterScope hleave.sound henter')
      exact ⟨consistent_of_mild honTrue henter'.toMild, trivial⟩
  | whileCond => exact ⟨hs, trivial, by simp⟩
  | whileBody hcond hloop henter =>
      have hcond := consistent_visit hA hs hcond trivial
      have hloop := steps_enterLoop hcond.sound hloop
      have henter := hloop.trans (calm_enterScope hloop.sound henter).steps
      exact ⟨consistent_of_steps hcond henter, trivial⟩
  | ret hframe => exact ⟨hs, trivial, expects_result hs.sound hframe⟩
  | block henter =>
      exact ⟨consistent_of_mild hs (calm_enterScope hs.sound henter).toMild, trivial⟩
  | func hdeclare =>
      have hdeclares := declares_declareFunc hs.sound hdeclare
      exact ⟨⟨hdeclares.sound, hs.signed.grow hs.sound hdeclares.grows fun _ => by
        rw [hdeclares.exprs]⟩, trivial⟩
  | stmtsFirst => exact ⟨hs, trivial⟩
  | stmtsRest hfirst => exact ⟨((runs_checkStmt hA _ hfirst).consistent hs trivial).1, trivial⟩

/-! ## Tables where parts begin -/

omit hA in
/-- Nothing is taken back where a body begins, whatever the nodes mean. -/
theorem BeginsBody.enlarges {func : SymbolId} {info : FuncInfo} {body : List Stmt}
    (h : BeginsBody settings func info body s s') : s.Enlarges s' := by
  obtain ⟨-, -, -, hstart, -, hscope, hopen⟩ := h
  obtain ⟨-, rfl⟩ := gives_modifyAt.mp hstart
  obtain ⟨_, hopens⟩ := entering_openBody.opens hopen
  obtain ⟨_, hget⟩ := Option.isSome_iff_exists.mp hscope
  have hpreserves : s.tables.symbols.Preserves (s.tables.symbols.modifyFunc func fun info =>
      { info with state := .inProgress }) :=
    SymbolTable.preserves_of_eq fun _ => SymbolTable.identity?_modifyFunc
  refine ⟨hopens.types, hpreserves.trans hopens.symbols, ScopeGraph.grows_setCursor.trans hopens.scopes,
    hopens.rows, fun hs => hopens.arises ?_⟩
  have hmoved : CheckState.Arises { s with scopes := s.scopes.setCursor _ } :=
    hs.setCursor (ScopeGraph.lt_size_of_get? hget)
  exact hmoved.aside rfl rfl

theorem restores_visit {context : ExprContext} {expected : Option TypeId} {e : Expr} {type : ExprType}
    (h : (visit analyze context expected e).Gives settings s type s') : s.Restores s' :=
  (runs_visit hA context expected e h).restores

theorem restores_known {expected : Option TypeId} {e : Expr} {span : Span} {type : ExprType}
    (h : (known span (visit analyze .value expected e)).Gives settings s type s') : s.Restores s' :=
  restores_visit hA (gives_known.mp h).1

/-- Nothing is taken back on the way to the parts of a part, whatever the nodes mean. -/
theorem ComesTo.enlarges {part part' : Part} (h : ComesTo settings analyze part s part' s') :
    s.Enlarges s' := by
  cases h with
  | callee hsurvivors huse _ _ _ =>
      exact (((quiet_survivors _).restores hsurvivors).trans (quiet_useSymbol.restores huse)).toEnlarges
  | value _ huse _ _ _ => exact (quiet_useSymbol.restores huse).toEnlarges
  | identValue _ hlookup => exact lookupRequired_state hlookup ▸ .refl _
  | memberModule hpath _ | memberObject hpath => exact ((quiet_staticPath _).restores hpath).toEnlarges
  | memberStatic hpath htype _ _ _ _ =>
      exact (((quiet_staticPath _).restores hpath).trans (quiet_typeOfSymbol.restores htype)).toEnlarges
  | memberMethod hpath hobject _ _ _ _ =>
      exact (((quiet_staticPath _).restores hpath).trans (restores_known hA hobject)).toEnlarges
  | callCallee hargs => exact (runs_visitArgs hA _ hargs).restores.toEnlarges
  | indexSubscript hbase _ => exact (restores_known hA hbase).toEnlarges
  | binaryRhs hlhs => exact (restores_visit hA hlhs).toEnlarges
  | ternaryTrue hcond => exact (restores_visit hA hcond).toEnlarges
  | ternaryFalse hcond hleft =>
      exact ((restores_visit hA hcond).trans (restores_visit hA hleft)).toEnlarges
  | arrayRest hfirst htransfer =>
      exact ((restores_known hA hfirst).trans ((quiet_recordTransfer _ _).restores htransfer)).toEnlarges
  | elementsRest hfirst _ htransfer =>
      exact ((restores_known hA hfirst).trans ((quiet_recordTransfer _ _).restores htransfer)).toEnlarges
  | closureBody hopen =>
      obtain ⟨_, hopens⟩ := entering_openClosure.opens hopen
      exact hopens.toEnlarges
  | closureEnd hopen hbody =>
      obtain ⟨_, hopens⟩ := entering_openClosure.opens hopen
      exact (hopens.trans (runs_checkStmts hA _ hbody).restores).toEnlarges
  | argsRest hfirst => exact (restores_known hA hfirst).toEnlarges
  | init hlower => exact (quiet_lowerOptional.restores hlower).toEnlarges
  | assignValue htarget _ => exact (restores_known hA htarget).toEnlarges
  | ifTrue hcond henter =>
      exact (restores_visit hA hcond).toEnlarges.trans (opens_enterScope henter).toEnlarges
  | ifFalse hcond henter honTrue hleave henter' =>
      have honTrue := restores_block henter (runs_checkStmts hA _ honTrue).restores hleave
      exact ((restores_visit hA hcond).trans honTrue).toEnlarges.trans (opens_enterScope henter').toEnlarges
  | whileBody hcond hloop henter =>
      have hloop := (relooped_enterLoop hloop).enlarges
      exact (restores_visit hA hcond).toEnlarges.trans (hloop.trans (opens_enterScope henter).toEnlarges)
  | block henter => exact (opens_enterScope henter).toEnlarges
  | func hdeclare => exact (restoring_declareFunc.restores hdeclare).toEnlarges
  | stmtsRest hfirst => exact (runs_checkStmt hA _ hfirst).restores.toEnlarges
  | _ => exact .refl _

end

end Check

/-! ## The end of a body -/

namespace CheckState

variable {s : CheckState} {func : SymbolId} {pending ret : TypeId}

/-- The types of expressions that return the placeholder of a function have its parameters. -/
theorem Consistent.awaitsOne (h : s.Consistent)
    (hpending : s.tables.types.get? pending = some (.pending func)) : s.AwaitsOne pending := by
  have hparams {params : List (RefKind × TypeId)} (hawaits : s.Awaits pending params) :
      ∃ info, s.tables.symbols.func? func = some info ∧
        params = info.params.map fun p => (p.refKind, p.type) := by
    obtain ⟨node, typing, htyping, hfunc⟩ := hawaits
    have hactive : s.tables.InProgress func := by
      rcases h.sound.exprs node typing htyping with
        (hsettled | ⟨_, -, htype⟩) | ⟨_, _, htype, other, hactive, hret⟩
      · exact absurd hpending ((hsettled.2 _ _ hfunc).get?_ne func)
      · cases hfunc.symm.trans htype
      · obtain ⟨-, rfl⟩ := Ty.func.inj (Option.some.inj (hfunc.symm.trans htype))
        obtain rfl := Ty.pending.inj (Option.some.inj (hpending.symm.trans hret))
        exact hactive
    obtain ⟨info, hinfo, -⟩ := Option.map_eq_some_iff.mp hactive
    exact ⟨info, hinfo, h.signed node typing htyping params pending func info hfunc hpending hinfo⟩
  intro params params' hawaits hawaits'
  obtain ⟨info, hinfo, rfl⟩ := hparams hawaits
  obtain ⟨info', hinfo', rfl⟩ := hparams hawaits'
  rw [Option.some.inj (hinfo.symm.trans hinfo')]

/-- Replacing the placeholder of a function by its result does not depend on the order in which the
expressions are visited. -/
structure ResolvesInAnyOrder (s : CheckState) (func : SymbolId) (ret : TypeId) : Prop where
  /-- The function types of expressions that return the placeholder are one type. -/
  alike : ∀ pending params params' node node' typing typing',
    s.tables.types.get? pending = some (.pending func) →
    s.exprTypes.get? node = some typing → s.exprTypes.get? node' = some typing' →
    s.tables.types.get? typing.type.type = some (.func params pending) →
    s.tables.types.get? typing'.type.type = some (.func params' pending) →
    typing.type.type = typing'.type.type
  /-- Nothing is entered, or only that type with its result. -/
  entered : (s.resolvePending func ret).tables.types = s.tables.types ∨ ∃ pending params,
    s.tables.types.get? pending = some (.pending func) ∧ s.Awaits pending params ∧
      (s.resolvePending func ret).tables.types = (s.tables.types.intern (.func params ret)).2
  size : (s.resolvePending func ret).tables.types.size ≤ s.tables.types.size + 1
  /-- Every order of the expressions with types leads to the same state. -/
  order : ∀ nodes : List Nat, nodes.Perm (s.exprTypes.toList.map (·.1)) →
    s.resolveInOrder func ret nodes = s.resolvePending func ret

theorem resolvesInAnyOrder (ht : s.tables.types.Sound) (hrange : s.InRange)
    (hret : s.tables.types.Settled ret)
    (hone : ∀ pending, s.tables.types.get? pending = some (.pending func) → s.AwaitsOne pending) :
    s.ResolvesInAnyOrder func ret := by
  have hentered : (s.resolvePending func ret).tables.types = s.tables.types ∨ ∃ pending params,
      s.tables.types.get? pending = some (.pending func) ∧ s.Awaits pending params ∧
        (s.resolvePending func ret).tables.types = (s.tables.types.intern (.func params ret)).2 := by
    unfold resolvePending
    split
    · exact .inl rfl
    · next pending hfind =>
      have hpending := TypeTable.get?_of_find? hfind
      exact (types_settleExprs ht hpending hret hrange (hone _ hpending) _).imp_right
        fun ⟨params, hawaits, heq⟩ => ⟨pending, params, hpending, hawaits, heq⟩
  refine ⟨fun pending params params' node node' typing typing' hpending htyping htyping' hfunc hfunc' => ?_,
    hentered, ?_, fun nodes hperm => ?_⟩
  · obtain rfl := hone pending hpending params params' ⟨node, typing, htyping, hfunc⟩
      ⟨node', typing', htyping', hfunc'⟩
    exact ht.injective _ _ _ hfunc hfunc'
  · rcases hentered with heq | ⟨pending, params, -, -, heq⟩
    · exact heq ▸ Nat.le_succ _
    · exact heq ▸ TypeTable.size_intern_le _ _
  · rw [resolvePending_eq]
    unfold resolveInOrder
    split
    · rfl
    · next pending hfind =>
      have hpending := TypeTable.get?_of_find? hfind
      refine settleExprs_perm ht hpending hret hrange (hone _ hpending) NodeMap.nodup_toList hperm
        fun node typing htyping => ?_
      exact List.mem_map.mpr ⟨(node, typing), NodeMap.mem_toList.mpr htyping, rfl⟩

end CheckState

namespace Check

variable {settings : Settings} {s s' : CheckState}

/-- The end of a body up to the replacement of its placeholder: the function or closure that ends, and its
result type. -/
def endBody (body : List Stmt) (span : Span) : Check (SymbolId × TypeId) := do
  let frame ← popFrame
  let ret ← judgeBody frame body span
  return (frame.symbol, ret)

theorem resolvesInAnyOrder_endBody (hs : s.Consistent) {body : List Stmt} {span : Span}
    {func : SymbolId} {ret : TypeId} (h : (endBody body span).Gives settings s (func, ret) s') :
    s'.ResolvesInAnyOrder func ret := by
  simp only [endBody, gives_bind, gives_pure] at h
  obtain ⟨frame, s₁, hpop, ret, s₂, hjudge, heq, rfl⟩ := h
  obtain ⟨rfl, rfl⟩ := Prod.mk.inj heq
  obtain ⟨rest, hframes, rfl⟩ := gives_popFrame.mp hpop
  obtain ⟨hexpected, -, -, rfl⟩ := judgeBody_gives hjudge
  exact CheckState.resolvesInAnyOrder hs.sound.tables.types
    (fun node => inRange_of_sound hs.sound node) (settled_of_expected hs.sound hframes hexpected)
    fun pending hpending => hs.awaitsOne hpending

end Check

end Stela
