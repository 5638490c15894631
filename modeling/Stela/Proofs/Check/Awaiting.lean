import Stela.Proofs.Check.Preservation
import Stela.Proofs.Check.Storage

/-!
# Values that wait for a result

While the body of a function is under analysis, a call of it has a placeholder
for its type unless the function declares its result type. Bitwise and arithmetic
operations and conditional expressions pass placeholders on if both sides have
one. No other value has a placeholder for its type.
-/

namespace Stela

/-- The result type of the function is not declared but found from its body. -/
def Tables.Infers (t : Tables) (func : SymbolId) : Prop :=
  ∃ info, t.symbols.func? func = some info ∧ info.decl.sig.ret = none ∧ info.decl.body.isSome

theorem Tables.Infers.mono {t t' : Tables} {func : SymbolId} (h : t.Infers func)
    (hc : t.Contained t') : t'.Infers func := by
  obtain ⟨info, hinfo, hret, hbody⟩ := h
  obtain ⟨info', hinfo', hbecomes⟩ := hc.func hinfo
  exact ⟨info', hinfo', hbecomes.decl ▸ hret, hbecomes.decl ▸ hbody⟩

namespace CheckState

variable {s s' : CheckState} {type : TypeId} {node : Nat} {value callee : Prop}

/-- The node means a function whose result type is found from its body. -/
def Infers (s : CheckState) (node : Nat) : Prop :=
  ∃ func, s.meanings.exprs.get? node = some func ∧ s.tables.Infers func

/-- The type of the expression may not be known when it is visited: it is a call of a function whose
result type is found from its body, or it has the type of such calls. -/
inductive Waits (s : CheckState) : Expr → Prop
  | call {node callee args} (hcallee : s.Infers callee.id) : Waits s (.call node callee args)
  | binary {node op lhs rhs} (hop : ∀ operand, op.resultType operand = operand)
      (hlhs : Waits s lhs) (hrhs : Waits s rhs) : Waits s (.binary node op lhs rhs)
  | ternary {node cond onTrue onFalse} (honTrue : Waits s onTrue) (honFalse : Waits s onFalse) :
      Waits s (.ternary node cond onTrue onFalse)

theorem Infers.mono (h : s.Infers node) (hc : s.tables.Contained s'.tables)
    (hm : s.meanings.Within s'.meanings) : s'.Infers node := by
  obtain ⟨func, hfunc, hinfers⟩ := h
  exact ⟨func, hm.exprs _ _ hfunc, hinfers.mono hc⟩

theorem Waits.mono {e : Expr} (h : s.Waits e) (hc : s.tables.Contained s'.tables)
    (hm : s.meanings.Within s'.meanings) : s'.Waits e := by
  induction h with
  | call hcallee => exact .call (hcallee.mono hc hm)
  | binary hop _ _ ihLhs ihRhs => exact .binary hop ihLhs ihRhs
  | ternary _ _ ihOnTrue ihOnFalse => exact .ternary ihOnTrue ihOnFalse

/-- A function that declares its result type has it. -/
def Annotated (s : CheckState) : Prop :=
  ∀ func info, s.tables.symbols.func? func = some info → info.decl.sig.ret.isSome → info.ret.isSome

/-- Functions that are not new keep what is known of them. -/
theorem Annotated.mono (h : s.Annotated) (hc : s.tables.Contained s'.tables)
    (hnew : ∀ func info', s'.tables.symbols.func? func = some info' →
      (info'.decl.sig.ret.isSome → info'.ret.isSome) ∨
        ∃ info, s.tables.symbols.func? func = some info) : s'.Annotated := by
  intro func info' hinfo' hret
  rcases hnew func info' hinfo' with hsome | ⟨info, hinfo⟩
  · exact hsome hret
  · obtain ⟨info'', hinfo'', hbecomes⟩ := hc.func hinfo
    obtain rfl := Option.some.inj (hinfo''.symm.trans hinfo')
    obtain ⟨ret, heq⟩ := Option.isSome_iff_exists.mp (h func info hinfo (hbecomes.decl ▸ hret))
    exact Option.isSome_iff_exists.mpr ⟨ret, hbecomes.ret ret heq⟩

/-- A function whose progress is not changed is not new. -/
theorem func_of_states {func : SymbolId} {info' : FuncInfo}
    (hstate : (s'.tables.symbols.func? func).map FuncInfo.state =
      (s.tables.symbols.func? func).map FuncInfo.state)
    (hinfo' : s'.tables.symbols.func? func = some info') :
    ∃ info, s.tables.symbols.func? func = some info := by
  rw [hinfo', Option.map_some, eq_comm, Option.map_eq_some_iff] at hstate
  exact hstate.imp fun _ h => h.1

theorem Leads.annotated (h : s.Leads s') (hs' : s'.Sound) (ha : s.Annotated) : s'.Annotated := by
  refine ha.mono h.grows.toContained fun func info' hinfo' => ?_
  rcases h.states func info' hinfo' with hdone | ⟨info, hinfo, -⟩
  · obtain ⟨ret, heq, -⟩ := Check.settled_ret_of_done hs' hinfo' hdone
    exact .inl fun _ => Option.isSome_iff_exists.mpr ⟨ret, heq⟩
  · exact .inr ⟨info, hinfo⟩

theorem Stays.annotated (h : s.Stays s') (ha : s.Annotated) : s'.Annotated :=
  h.leads.annotated h.sound ha

/-- A function under analysis without a result type does not declare one. -/
theorem Annotated.infers (h : s.Annotated) (hs : s.Sound) {func : SymbolId} {info : FuncInfo}
    (hfunc : s.tables.symbols.func? func = some info) (hret : info.ret = none)
    (hstate : info.state = .inProgress) : s.tables.Infers func := by
  have hbody := (hs.tables.kinds _ _ (SymbolTable.func?_eq_some.mp hfunc)).2.2.2
  refine ⟨info, hfunc, ?_, hbody (by simp [hstate])⟩
  by_contra hdeclared
  have hsome := h func info hfunc (Option.isSome_iff_ne_none.mpr hdeclared)
  simp [hret] at hsome

/-- Why a type is not settled: it is a placeholder, or a function type with one for its result. -/
inductive Stems (s : CheckState) (type : TypeId) (value callee : Prop) : Prop
  | settled (hsettled : s.tables.types.Settled type)
  | value {func} (htype : s.tables.types.get? type = some (.pending func)) (hvalue : value)
  | callee {params ret func} (htype : s.tables.types.get? type = some (.func params ret))
      (hret : s.tables.types.get? ret = some (.pending func)) (hcallee : callee)

theorem Stems.mono {value' callee' : Prop} (h : s.Stems type value callee)
    (hw : s.tables.types.Within s'.tables.types) (hvalue : value → value')
    (hcallee : callee → callee') : s'.Stems type value' callee' := by
  cases h with
  | settled h => exact .settled (h.mono hw)
  | value htype h => exact .value (hw _ _ htype) (hvalue h)
  | callee htype hret h => exact .callee (hw _ _ htype) (hw _ _ hret) (hcallee h)

theorem Stems.of_stays {e : Expr} (h : s.Stems type (s.Waits e) (s.Infers node))
    (hstays : s.Stays s') : s'.Stems type (s'.Waits e) (s'.Infers node) :=
  have hc := hstays.leads.grows.toContained
  h.mono hc.types (fun h => h.mono hc hstays.leads.meanings) fun h => h.mono hc hstays.leads.meanings

/-- Only the first reason is there for a placeholder. -/
theorem Stems.of_pending (h : s.Stems type value callee) {func : SymbolId}
    (hpending : s.tables.types.get? type = some (.pending func)) : value := by
  cases h with
  | settled h => exact absurd hpending (h.1.get?_ne func)
  | value _ h => exact h
  | callee htype _ _ => simp [hpending] at htype

end CheckState

namespace Check

open CheckState

variable {settings : Settings} {s s' : CheckState} {visited visited' : List Nat}

/-! ## Single rules -/

/-- The type of an expression stems from the expression after it is recorded. -/
theorem stems_record {e : Expr} {context : ExprContext} {type r : ExprType}
    (hrecord : (record e.node context type).Gives settings s r s')
    (h : s.Stems type.type (s.Waits e) (s.Infers e.id)) :
    s'.Stems r.type (s'.Waits e) (s'.Infers e.id) := by
  obtain ⟨rfl, rfl, -⟩ := record_gives hrecord
  exact h.mono (.refl _) (fun h => h.mono (.refl _) (.refl _)) fun h => h.mono (.refl _) (.refl _)

/-- The placeholder in the type of a function is that for its result. -/
theorem stems_funcType (hs : s.Sound) {func : SymbolId} {ret type : TypeId} {s₁ : CheckState}
    (hstays : s.Stays s₁) (hret : s₁.tables.Held ret)
    (h : s₁.Stems ret (s₁.tables.Infers func) False)
    (hintern : (intern (.func ((((s.tables.symbols.func? func).map FuncInfo.params).getD []).map
      fun p => (p.refKind, p.type)) ret)).Gives settings s₁ type s') :
    s'.Stems type False (s'.tables.Infers func) := by
  obtain ⟨hcalm, hcallable⟩ := callable_funcType hs hstays hret hintern
  obtain ⟨rfl, rfl⟩ := gives_intern.mp hintern
  have htype := TypeTable.get?_intern s₁.tables.types (.func ((((s.tables.symbols.func? func).map
    FuncInfo.params).getD []).map fun p => (p.refKind, p.type)) ret)
  cases h with
  | settled hsettled =>
      have hknown := (hsettled.mono hcalm.tables.types).pending?_eq_none
      exact .settled (settled_of_callable hcallable htype hknown)
  | value hpending hinfers =>
      exact .callee htype (hcalm.tables.types _ _ hpending) (hinfers.mono hcalm.tables.toContained)
  | callee _ _ hfalse => exact hfalse.elim

/-- A call of a function type with a placeholder for its result has that for its type. -/
theorem stems_finishCall (hs : s.Sound) {node : Node} {callee : Expr} {exprs : List Expr}
    {args : List (Expr × ExprType)} {calleeType type : ExprType}
    (h : s.Stems calleeType.type (s.Waits callee) (s.Infers callee.id))
    (hfinish : (finishCall node callee calleeType args).Gives settings s type s') :
    s'.Stems type.type (s'.Waits (.call node callee exprs)) (s'.Infers node.id) := by
  obtain ⟨params, ret, hnone, hconcrete, -, htransfer, rfl⟩ := finishCall_gives hfinish
  have hcalm := calm_transferArgs params args hs (hs.tables.types.settled_param hconcrete) htransfer
  cases h with
  | settled hsettled =>
      have hresult := (hs.tables.settled_concrete hsettled).2 params ret hconcrete
      exact .settled ((hs.tables.types.settled_ret hconcrete hresult).mono hcalm.tables.types)
  | value hpending _ => simp [TypeTable.pending?_eq_some.mpr hpending] at hnone
  | callee htype hret hinfers =>
      rw [Tables.concreteTy?_of_plain htype (by simp)] at hconcrete
      obtain ⟨rfl, rfl⟩ := Ty.func.inj (Option.some.inj hconcrete)
      exact .value (hcalm.tables.types _ _ hret)
        (.call (hinfers.mono hcalm.tables.toContained hcalm.meanings))

/-- Of two sides that are settled, the left one keeps a placeholder only if both have one. -/
theorem settlePending_pending {a b a' b' : ExprType} {span : Span} {func : SymbolId}
    (h : (settlePending a b span).Gives settings s (a', b') s')
    (hpending : s'.tables.types.get? a'.type = some (.pending func)) :
    s = s' ∧ a' = a ∧ ∃ func', s.tables.types.get? b.type = some (.pending func') := by
  rw [← TypeTable.pending?_eq_some] at hpending
  rcases settlePending_gives h with ⟨_, -, hnone, hnote, rfl, rfl⟩ | ⟨_, hnone, -, hnote, rfl, rfl⟩ |
    ⟨hboth, rfl, rfl, rfl⟩
  · obtain rfl := gives_update.mp hnote
    simp [hnone] at hpending
  · obtain rfl := gives_update.mp hnote
    simp [hnone] at hpending
  · rw [hpending, Option.isSome_some, eq_comm, Option.isSome_iff_exists] at hboth
    obtain ⟨func', hfunc'⟩ := hboth
    exact ⟨rfl, rfl, func', TypeTable.pending?_eq_some.mp hfunc'⟩

/-- The type that two sides have in common is settled, or both sides wait. -/
theorem stems_settlePending (hs : s.Sound) {left right left' right' : ExprType} {lhs rhs : Expr}
    {span : Span} {callee callee' : Prop} (hleft : s.tables.Held left.type)
    (hright : s.tables.Held right.type) (hlhs : s.Stems left.type (s.Waits lhs) callee)
    (hrhs : s.Stems right.type (s.Waits rhs) callee')
    (h : (settlePending left right span).Gives settings s (left', right') s') :
    s'.Stems left'.type (s'.Waits lhs ∧ s'.Waits rhs) False := by
  obtain ⟨-, hheld, -⟩ := held_settlePending hs hleft hright h
  rcases hheld with hsettled | ⟨func, -, hpending⟩
  · exact .settled hsettled
  · obtain ⟨rfl, rfl, func', hright⟩ := settlePending_pending h hpending
    exact .value hpending ⟨hlhs.of_pending hpending, hrhs.of_pending hright⟩

/-- An operation has a placeholder for its type only if both operands wait. -/
theorem stems_finishBinary (hs : s.Sound) {op : BinOp} {left right type : ExprType}
    {node : Node} {lhs rhs : Expr} {span : Span} {callee callee' : Prop}
    (hleft : s.tables.Held left.type) (hright : s.tables.Held right.type)
    (hlhs : s.Stems left.type (s.Waits lhs) callee)
    (hrhs : s.Stems right.type (s.Waits rhs) callee')
    (h : (finishBinary op left right span).Gives settings s type s') :
    s'.Stems type.type (s'.Waits (.binary node op lhs rhs)) False := by
  obtain ⟨left', right', hsettle, htype, -⟩ := finishBinary_gives h
  rw [htype]
  rcases resultType_cases op with hop | hop
  · rw [hop]
    exact (stems_settlePending hs hleft hright hlhs hrhs hsettle).mono (.refl _)
      (fun ⟨hlhs, hrhs⟩ => .binary hop hlhs hrhs) id
  · rw [hop]
    have hcalm := (held_settlePending hs hleft hright hsettle).1
    exact .settled (hcalm.sound.tables.types.settled_builtin .bool)

/-! ## All rules -/

/-- Where the type that a part of the analysis finds stems from. -/
def Task.Stems (s' : CheckState) : Task → Prop
  | .expr _ _ e type => s'.Stems type.type (s'.Waits e) (s'.Infers e.id)
  | .callee node _ _ type | .entries node _ _ type => s'.Stems type.type False (s'.Infers node)
  | .funcType func type => s'.Stems type False (s'.tables.Infers func)
  | .result func type => s'.Stems type (s'.tables.Infers func) False
  | _ => True

/-- Only values that wait for a result have a placeholder for their type, by induction on the run. -/
theorem Runs.stems {task : Task} (run : Runs settings task s visited s' visited') (hs : s.Sound)
    (hready : task.Ready s.tables) (hannotated : s.Annotated) : task.Stems s' := by
  induction run with
  | resultNone _ => exact .settled (hs.tables.types.settled_builtin .void)
  | resultKnown hfunc hret =>
      exact .settled ((hs.tables.kinds _ _ (SymbolTable.func?_eq_some.mp hfunc)).2.1 _ hret)
  | resultAnalyzed hfunc _ hstate runBody _ =>
      exact .settled (settled_ret_of_analyzed hfunc hstate (runBody.preserves hs trivial))
  | resultPending hfunc hret hstate hintern =>
      obtain ⟨hcalm, htype⟩ := calm_intern hs hintern trivial rfl
      exact .value htype ((hannotated.infers hs hfunc hret hstate).mono hcalm.tables.toContained)
  | resultMissing _ _ _ => exact .settled (hs.tables.types.settled_builtin .void)
  | funcType runResult hintern ih =>
      obtain ⟨hstays, hret⟩ := runResult.preserves hs trivial
      exact stems_funcType hs hstays hret (ih hs trivial hannotated) hintern
  | calleeBuiltin hsurvivors huse _ hinst =>
      have hsurvivors := calm_survivors _ hs hready hsurvivors
      have hcalm := hsurvivors.trans (calm_useSymbol hsurvivors.sound huse)
      obtain ⟨hinst, hsettled⟩ := settled_instantiate hcalm.sound
        (fun a ha => (hready a ha).mono hcalm.tables.types) hinst
      exact .settled (settled_getD hinst.sound hsettled)
  | calleeObject hsurvivors huse hkind hcapture =>
      have hsurvivors := calm_survivors _ hs hready hsurvivors
      have hcalm := hsurvivors.trans (calm_useSymbol hsurvivors.sound huse)
      have hcapture := calm_noteCapture hcalm.sound hcapture
      exact .settled ((settled_object hcalm.sound hkind).mono hcapture.tables.types)
  | calleeFunc hsurvivors huse _ _ _ runFunc ih =>
      have hsurvivors := calm_survivors _ hs hready hsurvivors
      have hcalm := hsurvivors.trans (calm_useSymbol hsurvivors.sound huse)
      obtain ⟨hstays, -⟩ := runFunc.preserves hcalm.sound trivial
      exact (ih hcalm.sound trivial (hcalm.stays.annotated hannotated)).mono (.refl _) id
        fun hinfers => ⟨_, hstays.leads.meanings.exprs _ _ (meaning_useSymbol huse), hinfers⟩
  | entriesCallee _ ih => exact ih hs hready hannotated
  | entriesValue _ runValue _ => exact .settled (runValue.preserves hs trivial).2
  | literal htype hrecord =>
      exact stems_record hrecord (.settled (settled_literalType hs htype).2)
  | identCallee _ hrecord ih =>
      exact stems_record hrecord ((ih hs hready.1 hannotated).mono (.refl _) False.elim id)
  | identValue _ _ runValue hrecord _ =>
      exact stems_record hrecord (.settled (runValue.preserves hs trivial).2)
  | memberModule hpath _ _ hrecord ih =>
      have hpath := (calm_staticPath _ hs hpath).stays
      have hentries := ih hpath.sound (ready_of_stays hready.1 hpath) (hpath.annotated hannotated)
      exact stems_record hrecord (hentries.mono (.refl _) False.elim id)
  | memberCase hpath htype _ _ _ huse _ hrecord =>
      have hpath := calm_staticPath _ hs hpath
      obtain ⟨hcalm, hwritten⟩ := written_typeOfSymbol hpath.sound htype
      have huse := calm_useSymbol hcalm.sound huse
      exact stems_record hrecord (.settled (hwritten.1.mono huse.tables.types))
  | memberStatic hpath htype _ _ _ _ _ hrecord ih =>
      have hpath := calm_staticPath _ hs hpath
      have hcalm := (hpath.trans (written_typeOfSymbol hpath.sound htype).1).stays
      have hentries := ih hcalm.sound (ready_of_stays hready.1 hcalm) (hcalm.annotated hannotated)
      exact stems_record hrecord (hentries.mono (.refl _) False.elim id)
  | memberField hpath runObject _ _ _ _ hkind huse hrecord _ =>
      have hpath := (calm_staticPath _ hs hpath).stays
      obtain ⟨hstays, -⟩ := runObject.preserves hpath.sound ⟨trivial, by simp⟩
      have huse := calm_useSymbol hstays.sound huse
      have hsettled : TypeTable.Settled _ _ := hstays.sound.tables.kinds _ _ hkind
      exact stems_record hrecord (.settled (hsettled.mono huse.tables.types))
  | memberMethod hpath runObject _ _ _ _ _ _ _ _ hrecord _ ihCallee =>
      have hpath := (calm_staticPath _ hs hpath).stays
      obtain ⟨hobject, -⟩ := runObject.preserves hpath.sound ⟨trivial, by simp⟩
      have hstays := hpath.trans hobject
      have hcallee :=
        ihCallee hstays.sound (ready_of_stays hready.1 hstays) (hstays.annotated hannotated)
      exact stems_record hrecord (hcallee.mono (.refl _) False.elim id)
  | memberHost hpath runObject _ _ hkind hfield hrecord _ =>
      have hpath := (calm_staticPath _ hs hpath).stays
      obtain ⟨hstays, -⟩ := runObject.preserves hpath.sound ⟨trivial, by simp⟩
      have hslots := (hstays.sound.tables.kinds _ _ hkind).2
      exact stems_record hrecord (.settled (hslots _ (List.mem_of_find?_eq_some hfield)))
  | call runArgs runCallee hfinish hrecord _ ihCallee =>
      obtain ⟨hargs, hsettled⟩ := runArgs.preserves hs trivial
      have hready := ready_callee hsettled
      obtain ⟨hcallee, -⟩ := runCallee.preserves hargs.sound ⟨hready, by simp⟩
      have hstems := ihCallee hargs.sound ⟨hready, by simp⟩ (hargs.annotated hannotated)
      exact stems_record hrecord (stems_finishCall hcallee.sound hstems hfinish)
  | index runBase _ helement runIndex _ _ hrecord _ _ =>
      obtain ⟨hbase, -⟩ := runBase.preserves hs ⟨trivial, by simp⟩
      obtain ⟨hindex, -⟩ := runIndex.preserves hbase.sound ⟨trivial, by simp⟩
      have hsettled := hbase.sound.tables.types.settled_element helement
      exact stems_record hrecord (.settled (mono_of_stays hindex hsettled))
  | unary runOperand hknown hop hrecord _ =>
      obtain ⟨-, hheld⟩ := runOperand.preserves hs ⟨trivial, by simp⟩
      obtain ⟨rfl, -⟩ := checkUnary_gives hop
      exact stems_record hrecord (.settled (Tables.Held.settled hheld hknown))
  | binary runLhs runRhs hfinish hrecord ihLhs ihRhs =>
      obtain ⟨hlhs, hleft⟩ := runLhs.preserves hs ⟨trivial, by simp⟩
      obtain ⟨hrhs, hright⟩ := runRhs.preserves hlhs.sound ⟨trivial, by simp⟩
      have hstems := (ihLhs hs ⟨trivial, by simp⟩ hannotated).of_stays hrhs
      have hstems' := ihRhs hlhs.sound ⟨trivial, by simp⟩ (hlhs.annotated hannotated)
      exact stems_record hrecord ((stems_finishBinary hrhs.sound (held_of_stays hrhs hleft) hright
        hstems hstems' hfinish).mono (.refl _) id False.elim)
  | ternary runCond runOnTrue runOnFalse hsettle _ hrecord _ ihOnTrue ihOnFalse =>
      obtain ⟨hcond, -⟩ := runCond.preserves hs ⟨trivial, by simp⟩
      obtain ⟨honTrue, hleft⟩ := runOnTrue.preserves hcond.sound ⟨trivial, by simp⟩
      obtain ⟨honFalse, hright⟩ := runOnFalse.preserves honTrue.sound ⟨trivial, by simp⟩
      have hannotated := hcond.annotated hannotated
      have hstems := (ihOnTrue hcond.sound ⟨trivial, by simp⟩ hannotated).of_stays honFalse
      have hstems' := ihOnFalse honTrue.sound ⟨trivial, by simp⟩ (honTrue.annotated hannotated)
      exact stems_record hrecord ((stems_settlePending honFalse.sound
        (held_of_stays honFalse hleft) hright hstems hstems' hsettle).mono (.refl _)
        (fun ⟨honTrue, honFalse⟩ => .ternary honTrue honFalse) False.elim)
  | emptyArray hempty hrecord =>
      obtain ⟨array, hexpected, rfl⟩ := emptyArray_gives hempty
      exact stems_record hrecord (.settled (hready.2 array hexpected))
  | array runFirst hknown htransfer runRest hintern hrecord _ _ =>
      obtain ⟨hfirst, hheld⟩ := runFirst.preserves hs ⟨trivial, expects_element hs _⟩
      have hsettled := Tables.Held.settled hheld hknown
      have htransfer := calm_recordTransfer hfirst.sound hsettled htransfer
      have hsettled := hsettled.mono htransfer.tables.types
      have hrest := runRest.preserves htransfer.sound hsettled
      have hwritten := (written_internArray hrest.sound (mono_of_stays hrest hsettled) hintern).2
      exact stems_record hrecord (.settled hwritten.1)
  | closure hopen runBody hclose hrecord _ =>
      obtain ⟨s₁, frame, hopens, hkind, -⟩ := opens_openClosure hs hopen
      have hkeeps := runBody.preserves hopens.sound trivial
      have hframes := hkeeps.frames
      rw [← hopens.push, hopens.calm.frames] at hframes
      obtain ⟨frame', hframes', hbecomes⟩ := hframes.cons_inv
      obtain ⟨ret, hcloses, -⟩ := closesClosure_closeClosure hkeeps.sound hframes'
        (hbecomes.kind.trans hkind) hclose
      exact stems_record hrecord (.settled hcloses.settled)
  | _ => trivial

end Check

end Stela
