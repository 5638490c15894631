import Stela.Proofs.Check.Preservation

/-!
# Signatures of functions under analysis

A function type whose result is the placeholder of a function is the type of that function and no
other: it has its parameters. Only where a callee is chosen is such a type found, and it is recorded
for the callee alone, so every step of the analysis keeps this.
-/

namespace Stela

/-- If the result of the function type is a placeholder, it has the parameters of that function. -/
def Tables.Signs (t : Tables) (type : TypeId) : Prop :=
  ∀ params ret func info, t.types.get? type = some (.func params ret) →
    t.types.get? ret = some (.pending func) → t.symbols.func? func = some info →
    params = info.params.map fun p => (p.refKind, p.type)

namespace Tables

variable {t t' : Tables} {type : TypeId}

theorem signs_of_settled (h : t.types.Settled type) : t.Signs type :=
  fun params ret func _ hfunc hret _ => absurd hret ((h.2 params ret hfunc).get?_ne func)

/-- The type of a value has no placeholder for a result. -/
theorem Held.signs (h : t.Held type) : t.Signs type := by
  rcases h with hsettled | ⟨func, -, hpending⟩
  · exact signs_of_settled hsettled
  · intro params ret _ _ hfunc
    cases hpending.symm.trans hfunc

/-- What a function takes does not change. -/
theorem Signs.mono (h : t.Signs type) (hcallable : t.Callable type) (hgrows : t.Grows t') :
    t'.Signs type := by
  rcases hcallable with (hsettled | ⟨func, -, hpending⟩) | ⟨params, ret, htype, func, hactive, hret⟩
  · exact signs_of_settled (hsettled.mono hgrows.types)
  · intro params ret _ _ hfunc
    cases (hgrows.types _ _ hpending).symm.trans hfunc
  · intro params' ret' func' info' htype' hret' hinfo'
    obtain ⟨rfl, rfl⟩ := Ty.func.inj (Option.some.inj ((hgrows.types _ _ htype).symm.trans htype'))
    obtain rfl := Ty.pending.inj (Option.some.inj ((hgrows.types _ _ hret).symm.trans hret'))
    obtain ⟨info, hinfo, -⟩ := Option.map_eq_some_iff.mp hactive
    obtain ⟨info'', hinfo'', hbecomes⟩ := hgrows.func hinfo
    obtain rfl := Option.some.inj (hinfo''.symm.trans hinfo')
    rw [hbecomes.params]
    exact h params ret func info htype hret hinfo

end Tables

/-- Every recorded function type has the parameters of the function that its result stands for. -/
def CheckState.Signed (s : CheckState) : Prop :=
  ∀ node typing, s.exprTypes.get? node = some typing → s.tables.Signs typing.type.type

namespace CheckState

variable {s s' : CheckState}

theorem Signed.grow (h : s.Signed) (hs : s.Sound) (hgrows : s.tables.Grows s'.tables)
    (hexprs : ∀ node, s'.exprTypes.get? node = s.exprTypes.get? node) : s'.Signed :=
  fun node typing htyping =>
    have hold := (hexprs node).symm.trans htyping
    (h node typing hold).mono (hs.exprs node typing hold) hgrows

theorem Signed.mild (h : s.Signed) (hs : s.Sound) (hmild : s.Mild s') : s'.Signed :=
  h.grow hs hmild.tables.toGrows fun _ => by rw [hmild.exprs]

theorem Signed.steps (h : s.Signed) (hs : s.Sound) (hsteps : s.Steps s') : s'.Signed :=
  h.grow hs hsteps.leads.grows fun _ => by rw [hsteps.exprs]

end CheckState

namespace Check

open CheckState

variable {settings : Settings} {s s' : CheckState}

/-! ## Recording and settling -/

theorem signed_record (hsigned : s.Signed) {node : Node} {context : ExprContext} {type r : ExprType}
    (h : (record node context type).Gives settings s r s') (htype : s.tables.Signs type.type) :
    s'.Signed ∧ s'.tables.Signs r.type := by
  obtain ⟨rfl, rfl, -⟩ := record_gives h
  refine ⟨fun other typing htyping => ?_, htype⟩
  by_cases heq : other = node.id
  · subst heq
    rw [NodeMap.get?_insert_self] at htyping
    exact Option.some.inj htyping ▸ htype
  · exact hsigned other typing ((NodeMap.get?_insert_ne heq).symm.trans htyping)

theorem signed_record_held (hsigned : s.Signed) {node : Node} {context : ExprContext}
    {type r : ExprType} (h : (record node context type).Gives settings s r s')
    (htype : s.tables.Held type.type) : s'.Signed ∧ s'.tables.Signs r.type :=
  signed_record hsigned h htype.signs

/-- When a body ends, function types with its placeholder get a known result, and others stay. -/
theorem signed_closesFunc (hs : s.Sound) (hsigned : s.Signed) {frame : Frame} {rest : List Frame}
    {ret : TypeId} (h : ClosesFunc s frame rest ret s') : s'.Signed := by
  have hgrows := h.grows
  obtain ⟨s₁, hcloses, htouches, heq⟩ := h.closes
  have hret := hcloses.settled.mono hcloses.settles.within
  intro node typing' htyping'
  rw [heq] at htyping'
  cases hnode : s.exprTypes.get? node with
  | none => cases (hcloses.settles.untyped node hnode).symm.trans htyping'
  | some typing =>
      obtain ⟨type', htype', hsettling⟩ := hcloses.settles.typed node typing hnode trivial
      obtain rfl := Option.some.inj (htype'.symm.trans htyping')
      cases hsettling with
      | placeholder _ => exact Tables.signs_of_settled (htouches.types ▸ hret)
      | result _ _ htype'' =>
          intro params result func info hfunc hpending _
          rw [htouches.types] at hfunc hpending
          obtain ⟨-, rfl⟩ := Ty.func.inj (Option.some.inj (htype''.symm.trans hfunc))
          exact absurd hpending (hret.1.get?_ne func)
      | other _ _ => exact (hsigned node typing hnode).mono (hs.exprs node typing hnode) hgrows

/-- The type of a function has its parameters. -/
theorem signs_funcType {func : SymbolId} {ret type : TypeId} {s₁ : CheckState}
    (hgrows : s.tables.Grows s₁.tables)
    (hret : ∀ other, s₁.tables.types.get? ret = some (.pending other) →
      other = func ∧ (s.tables.symbols.func? func).isSome)
    (hcalm : s₁.Calm s') (hrange : ∃ ty, s₁.tables.types.get? ret = some ty)
    (h : (intern (.func ((((s.tables.symbols.func? func).map FuncInfo.params).getD []).map
      fun p => (p.refKind, p.type)) ret)).Gives settings s₁ type s') : s'.tables.Signs type := by
  have htype : s'.tables.types.get? type = some (.func ((((s.tables.symbols.func? func).map
      FuncInfo.params).getD []).map fun p => (p.refKind, p.type)) ret) := by
    obtain ⟨rfl, rfl⟩ := gives_intern.mp h
    exact TypeTable.get?_intern _ _
  intro params ret' other info hfunc hpending hinfo
  obtain ⟨rfl, rfl⟩ := Ty.func.inj (Option.some.inj (htype.symm.trans hfunc))
  obtain ⟨ty, hty⟩ := hrange
  obtain rfl := Option.some.inj ((hcalm.tables.types _ _ hty).symm.trans hpending)
  obtain ⟨rfl, hsome⟩ := hret other hty
  obtain ⟨info₀, hinfo₀⟩ := Option.isSome_iff_exists.mp hsome
  obtain ⟨info₁, hinfo₁, hbecomes⟩ := (hgrows.trans hcalm.tables.toGrows).func hinfo₀
  obtain rfl := Option.some.inj (hinfo₁.symm.trans hinfo)
  rw [hinfo₀, hbecomes.params]
  rfl

/-! ## All rules -/

/-- What is known about the function types that a part of the analysis finds. -/
def Task.Signs (s s' : CheckState) : Task → Prop
  | .expr _ _ _ type => s'.tables.Signs type.type
  | .result func type => ∀ other, s'.tables.types.get? type = some (.pending other) →
      other = func ∧ (s.tables.symbols.func? func).isSome
  | .funcType _ type => s'.tables.Signs type
  | .callee _ _ _ type => s'.tables.Signs type.type
  | .entries _ _ _ type => s'.tables.Signs type.type
  | _ => True

/-- A known result is no placeholder. -/
theorem result_of_settled {func : SymbolId} {type : TypeId} (h : s'.tables.types.Settled type) :
    Task.Signs s s' (.result func type) := fun other hpending => absurd hpending (h.1.get?_ne other)

/-- The analysis keeps the signatures of recorded function types, by induction on its run. -/
theorem Runs.signed {task : Task} {visited visited' : List Nat}
    (run : Runs settings task s visited s' visited') (hs : s.Sound) (hready : task.Ready s.tables)
    (hsigned : s.Signed) : s'.Signed ∧ task.Signs s s' := by
  induction run with
  | resultNone _ => exact ⟨hsigned, result_of_settled (hs.tables.types.settled_builtin .void)⟩
  | resultKnown hfunc hret =>
      exact ⟨hsigned, result_of_settled
        ((hs.tables.kinds _ _ (SymbolTable.func?_eq_some.mp hfunc)).2.1 _ hret)⟩
  | resultAnalyzed hfunc _ hstate runBody ih =>
      have hanalyzed : Analyzed _ _ _ := runBody.preserves hs trivial
      exact ⟨(ih hs trivial hsigned).1,
        result_of_settled (settled_ret_of_analyzed hfunc hstate hanalyzed)⟩
  | resultPending hfunc _ _ hintern =>
      obtain ⟨hcalm, htype⟩ := calm_intern hs hintern trivial rfl
      refine ⟨hsigned.mild hs hcalm.toMild, fun other hpending => ?_⟩
      obtain rfl := Ty.pending.inj (Option.some.inj (htype.symm.trans hpending))
      exact ⟨rfl, Option.isSome_iff_exists.mpr ⟨_, hfunc⟩⟩
  | resultMissing _ _ _ =>
      exact ⟨hsigned, result_of_settled (hs.tables.types.settled_builtin .void)⟩
  | funcType runResult hintern ih =>
      obtain ⟨hstays, hheld⟩ := runResult.preserves hs trivial
      obtain ⟨hsigned, hresult⟩ := ih hs trivial hsigned
      obtain ⟨hcalm, -⟩ := callable_funcType hs hstays hheld hintern
      exact ⟨hsigned.mild hstays.sound hcalm.toMild, signs_funcType hstays.leads.grows hresult hcalm
        (exists_get?_of_callable (.inl hheld)) hintern⟩
  | calleeBuiltin hsurvivors huse _ hinst =>
      have hsurvivors := calm_survivors _ hs hready hsurvivors
      have hcalm := hsurvivors.trans (calm_useSymbol hsurvivors.sound huse)
      obtain ⟨hinst, hsettled⟩ := settled_instantiate hcalm.sound
        (fun a ha => (hready a ha).mono hcalm.tables.types) hinst
      exact ⟨hsigned.mild hs (hcalm.trans hinst).toMild,
        Tables.signs_of_settled (settled_getD hinst.sound hsettled)⟩
  | calleeObject hsurvivors huse hkind hcapture =>
      have hsurvivors := calm_survivors _ hs hready hsurvivors
      have hcalm := hsurvivors.trans (calm_useSymbol hsurvivors.sound huse)
      have hcapture := calm_noteCapture hcalm.sound hcapture
      exact ⟨hsigned.mild hs (hcalm.trans hcapture).toMild,
        Tables.signs_of_settled ((settled_object hcalm.sound hkind).mono hcapture.tables.types)⟩
  | calleeFunc hsurvivors huse _ _ _ _ ih =>
      have hsurvivors := calm_survivors _ hs hready hsurvivors
      have hcalm := hsurvivors.trans (calm_useSymbol hsurvivors.sound huse)
      exact ih hcalm.sound trivial (hsigned.mild hs hcalm.toMild)
  | valueObject hkind huse hcapture =>
      have huse := calm_useSymbol hs huse
      exact ⟨hsigned.mild hs (huse.trans (calm_noteCapture huse.sound hcapture)).toMild, trivial⟩
  | valueFunc _ huse _ _ _ ih =>
      have huse := calm_useSymbol hs huse
      exact ⟨(ih huse.sound trivial (hsigned.mild hs huse.toMild)).1, trivial⟩
  | entriesCallee _ ih => exact ih hs hready hsigned
  | entriesValue hcontext runValue ih =>
      obtain ⟨-, hsettled⟩ := runValue.preserves hs trivial
      exact ⟨(ih hs trivial hsigned).1, Tables.signs_of_settled hsettled⟩
  | literal htype hrecord =>
      obtain ⟨hcalm, hsettled⟩ := settled_literalType hs htype
      exact signed_record_held (hsigned.mild hs hcalm.toMild) hrecord (.inl hsettled)
  | identCallee _ hrecord ih =>
      obtain ⟨hsigned, hsigns⟩ := ih hs hready.1 hsigned
      exact signed_record hsigned hrecord hsigns
  | identValue _ _ runValue hrecord ih =>
      obtain ⟨-, hsettled⟩ := runValue.preserves hs trivial
      exact signed_record_held (ih hs trivial hsigned).1 hrecord (.inl hsettled)
  | memberModule hpath _ _ hrecord ih =>
      have hpath := calm_staticPath _ hs hpath
      obtain ⟨hsigned, hsigns⟩ := ih hpath.sound (ready_of_stays hready.1 hpath.stays)
        (hsigned.mild hs hpath.toMild)
      exact signed_record hsigned hrecord hsigns
  | memberCase hpath htype _ _ _ huse _ hrecord =>
      have hpath := calm_staticPath _ hs hpath
      obtain ⟨htype, hwritten⟩ := written_typeOfSymbol hpath.sound htype
      have huse := calm_useSymbol htype.sound huse
      exact signed_record_held (hsigned.mild hs ((hpath.trans htype).trans huse).toMild) hrecord
        (.inl (hwritten.1.mono huse.tables.types))
  | memberStatic hpath htype _ _ _ _ _ hrecord ih =>
      have hpath := calm_staticPath _ hs hpath
      have hcalm := hpath.trans (written_typeOfSymbol hpath.sound htype).1
      obtain ⟨hsigned, hsigns⟩ := ih hcalm.sound (ready_of_stays hready.1 hcalm.stays)
        (hsigned.mild hs hcalm.toMild)
      exact signed_record hsigned hrecord hsigns
  | memberField hpath runObject _ _ _ _ hkind huse hrecord ih =>
      have hpath := calm_staticPath _ hs hpath
      obtain ⟨hobject, -⟩ := runObject.preserves hpath.sound ⟨trivial, by simp⟩
      obtain ⟨hsigned, -⟩ := ih hpath.sound ⟨trivial, by simp⟩ (hsigned.mild hs hpath.toMild)
      have huse := calm_useSymbol hobject.sound huse
      have hsettled := hobject.sound.tables.kinds _ _ hkind
      exact signed_record_held (hsigned.mild hobject.sound huse.toMild) hrecord
        (.inl (TypeTable.Settled.mono hsettled huse.tables.types))
  | memberMethod hpath runObject _ _ _ _ _ _ _ _ hrecord ihObject ihCallee =>
      have hpath := calm_staticPath _ hs hpath
      obtain ⟨hobject, -⟩ := runObject.preserves hpath.sound ⟨trivial, by simp⟩
      obtain ⟨hsigned, -⟩ := ihObject hpath.sound ⟨trivial, by simp⟩ (hsigned.mild hs hpath.toMild)
      obtain ⟨hsigned, hsigns⟩ := ihCallee hobject.sound
        (ready_of_stays hready.1 (hpath.stays.trans hobject)) hsigned
      exact signed_record hsigned hrecord hsigns
  | memberHost hpath runObject _ _ hkind hfield hrecord ih =>
      have hpath := calm_staticPath _ hs hpath
      obtain ⟨hobject, -⟩ := runObject.preserves hpath.sound ⟨trivial, by simp⟩
      obtain ⟨hsigned, -⟩ := ih hpath.sound ⟨trivial, by simp⟩ (hsigned.mild hs hpath.toMild)
      exact signed_record_held hsigned hrecord
        (.inl ((hobject.sound.tables.kinds _ _ hkind).2 _ (List.mem_of_find?_eq_some hfield)))
  | call runArgs runCallee hfinish hrecord ihArgs ihCallee =>
      obtain ⟨hargs, hsettled⟩ := runArgs.preserves hs trivial
      obtain ⟨hsigned, -⟩ := ihArgs hs trivial hsigned
      obtain ⟨hcallee, hcallable⟩ := runCallee.preserves hargs.sound ⟨ready_callee hsettled, by simp⟩
      obtain ⟨hsigned, -⟩ := ihCallee hargs.sound ⟨ready_callee hsettled, by simp⟩ hsigned
      obtain ⟨hcalm, hheld⟩ := held_finishCall hcallee.sound hcallable hfinish
      exact signed_record_held (hsigned.mild hcallee.sound hcalm.toMild) hrecord hheld
  | index runBase _ helement runIndex _ _ hrecord ihBase ihIndex =>
      obtain ⟨hbase, -⟩ := runBase.preserves hs ⟨trivial, by simp⟩
      obtain ⟨hindex, -⟩ := runIndex.preserves hbase.sound ⟨trivial, by simp⟩
      obtain ⟨hsigned, -⟩ := ihBase hs ⟨trivial, by simp⟩ hsigned
      obtain ⟨hsigned, -⟩ := ihIndex hbase.sound ⟨trivial, by simp⟩ hsigned
      have hsettled := mono_of_stays hindex (hbase.sound.tables.types.settled_element helement)
      exact signed_record_held hsigned hrecord (.inl hsettled)
  | unary runOperand _ hop hrecord ih =>
      obtain ⟨-, hheld⟩ := runOperand.preserves hs ⟨trivial, by simp⟩
      obtain ⟨rfl, -⟩ := checkUnary_gives hop
      exact signed_record_held (ih hs ⟨trivial, by simp⟩ hsigned).1 hrecord hheld
  | binary runLhs runRhs hfinish hrecord ihLhs ihRhs =>
      obtain ⟨hlhs, hleft⟩ := runLhs.preserves hs ⟨trivial, by simp⟩
      obtain ⟨hrhs, hright⟩ := runRhs.preserves hlhs.sound ⟨trivial, by simp⟩
      obtain ⟨hsigned, -⟩ := ihLhs hs ⟨trivial, by simp⟩ hsigned
      obtain ⟨hsigned, -⟩ := ihRhs hlhs.sound ⟨trivial, by simp⟩ hsigned
      obtain ⟨hcalm, hheld⟩ :=
        held_finishBinary hrhs.sound (held_of_stays hrhs hleft) hright hfinish
      exact signed_record_held (hsigned.mild hrhs.sound hcalm.toMild) hrecord hheld
  | ternary runCond runOnTrue runOnFalse hsettle _ hrecord ihCond ihOnTrue ihOnFalse =>
      obtain ⟨hcond, -⟩ := runCond.preserves hs ⟨trivial, by simp⟩
      obtain ⟨honTrue, hleft⟩ := runOnTrue.preserves hcond.sound ⟨trivial, by simp⟩
      obtain ⟨honFalse, hright⟩ := runOnFalse.preserves honTrue.sound ⟨trivial, by simp⟩
      obtain ⟨hsigned, -⟩ := ihCond hs ⟨trivial, by simp⟩ hsigned
      obtain ⟨hsigned, -⟩ := ihOnTrue hcond.sound ⟨trivial, by simp⟩ hsigned
      obtain ⟨hsigned, -⟩ := ihOnFalse honTrue.sound ⟨trivial, by simp⟩ hsigned
      obtain ⟨hcalm, hheld, -⟩ :=
        held_settlePending honFalse.sound (held_of_stays honFalse hleft) hright hsettle
      exact signed_record_held (hsigned.mild honFalse.sound hcalm.toMild) hrecord hheld
  | emptyArray hempty hrecord =>
      obtain ⟨array, hexpected, rfl⟩ := emptyArray_gives hempty
      exact signed_record_held hsigned hrecord (.inl (hready.2 array hexpected))
  | array runFirst hknown htransfer runRest hintern hrecord ihFirst ihRest =>
      obtain ⟨hfirst, hheld⟩ := runFirst.preserves hs ⟨trivial, expects_element hs _⟩
      have hsettled := Tables.Held.settled hheld hknown
      have htransfer := calm_recordTransfer hfirst.sound hsettled htransfer
      have hsettled := hsettled.mono htransfer.tables.types
      have hrest := runRest.preserves htransfer.sound hsettled
      obtain ⟨hsigned, -⟩ := ihFirst hs ⟨trivial, expects_element hs _⟩ hsigned
      obtain ⟨hsigned, -⟩ := ihRest htransfer.sound hsettled
        (hsigned.mild hfirst.sound htransfer.toMild)
      obtain ⟨hcalm, hwritten⟩ := written_internArray hrest.sound (mono_of_stays hrest hsettled) hintern
      exact signed_record_held (hsigned.mild hrest.sound hcalm.toMild) hrecord (.inl hwritten.1)
  | closure hopen runBody hclose hrecord ih =>
      obtain ⟨s₁, frame, hopens, hkind, -⟩ := opens_openClosure hs hopen
      have hkeeps := runBody.preserves hopens.sound trivial
      have hframes := hkeeps.frames
      rw [← hopens.push, hopens.calm.frames] at hframes
      obtain ⟨frame', hframes', hbecomes⟩ := hframes.cons_inv
      obtain ⟨ret, hcloses, -⟩ := closesClosure_closeClosure hkeeps.sound hframes'
        (hbecomes.kind.trans hkind) hclose
      have hopened := hsigned.grow hs hopens.leads.grows fun _ => by
        rw [← hopens.push, hopens.calm.exprs]
      obtain ⟨hsigned, -⟩ := ih hopens.sound trivial hopened
      exact signed_record_held (hsigned.grow hkeeps.sound hcloses.leads.grows hcloses.exprs) hrecord
        (.inl hcloses.settled)
  | argsNil => exact ⟨hsigned, trivial⟩
  | argsCons runExpr _ _ ihExpr ihRest =>
      obtain ⟨hexpr, -⟩ := runExpr.preserves hs ⟨trivial, by simp⟩
      obtain ⟨hsigned, -⟩ := ihExpr hs ⟨trivial, by simp⟩ hsigned
      exact ⟨(ihRest hexpr.sound trivial hsigned).1, trivial⟩
  | elementsNil => exact ⟨hsigned, trivial⟩
  | elementsCons runExpr _ _ htransfer _ ihExpr ihRest =>
      obtain ⟨hexpr, -⟩ := runExpr.preserves hs ⟨trivial, expects_some hready⟩
      obtain ⟨hsigned, -⟩ := ihExpr hs ⟨trivial, expects_some hready⟩ hsigned
      have hsettled := mono_of_stays hexpr hready
      have htransfer := calm_recordTransfer hexpr.sound hsettled htransfer
      exact ⟨(ihRest htransfer.sound (hsettled.mono htransfer.tables.types)
        (hsigned.mild hexpr.sound htransfer.toMild)).1, trivial⟩
  | bindInit hlower runInit hknown hfinish ih =>
      obtain ⟨hcalm, hdeclared⟩ := settled_lowerOptional hs hlower
      obtain ⟨hinit, hheld⟩ := runInit.preserves hcalm.sound ⟨trivial, hdeclared⟩
      obtain ⟨hsigned, -⟩ := ih hcalm.sound ⟨trivial, hdeclared⟩ (hsigned.mild hs hcalm.toMild)
      have hsettled := Tables.Held.settled hheld hknown
      have hfinish := calm_finishBinding hinit.sound
        (fun type htype => mono_of_stays hinit (hdeclared type htype))
        (fun p hp => Option.some.inj hp ▸ hsettled) hfinish
      exact ⟨hsigned.mild hinit.sound hfinish.toMild, trivial⟩
  | bindDefault hlower hfinish =>
      obtain ⟨hcalm, hdeclared⟩ := settled_lowerOptional hs hlower
      have hfinish := calm_finishBinding hcalm.sound hdeclared (by simp) hfinish
      exact ⟨hsigned.mild hs (hcalm.trans hfinish).toMild, trivial⟩
  | bind _ ih => exact ih hs trivial hsigned
  | assign runTarget hplace _ runValue _ hfinish ihTarget ihValue =>
      obtain ⟨htarget, hheld⟩ := runTarget.preserves hs ⟨trivial, by simp⟩
      have hsettled := Tables.Held.settled hheld hplace
      obtain ⟨hvalue, -⟩ := runValue.preserves htarget.sound ⟨trivial, expects_some hsettled⟩
      obtain ⟨hsigned, -⟩ := ihTarget hs ⟨trivial, by simp⟩ hsigned
      obtain ⟨hsigned, -⟩ := ihValue htarget.sound ⟨trivial, expects_some hsettled⟩ hsigned
      have hfinish := calm_finishAssign hvalue.sound (mono_of_stays hvalue hsettled) hfinish
      exact ⟨hsigned.mild hvalue.sound hfinish.toMild, trivial⟩
  | exprStmt _ ih => exact ⟨(ih hs ⟨trivial, by simp⟩ hsigned).1, trivial⟩
  | ifOnly runCond henter runOnTrue hleave ihCond ihOnTrue =>
      obtain ⟨hcond, -⟩ := runCond.preserves hs ⟨trivial, by simp⟩
      have henter := calm_enterScope hcond.sound henter
      have honTrue := runOnTrue.preserves henter.sound trivial
      obtain ⟨hsigned, -⟩ := ihCond hs ⟨trivial, by simp⟩ hsigned
      obtain ⟨hsigned, -⟩ := ihOnTrue henter.sound trivial (hsigned.mild hcond.sound henter.toMild)
      exact ⟨hsigned.mild honTrue.sound (calm_leaveScope honTrue.sound hleave).toMild, trivial⟩
  | ifElse runCond henter runOnTrue hleave henter' runOnFalse hleave' ihCond ihOnTrue ihOnFalse =>
      obtain ⟨hcond, -⟩ := runCond.preserves hs ⟨trivial, by simp⟩
      have henter := calm_enterScope hcond.sound henter
      have honTrue := runOnTrue.preserves henter.sound trivial
      have hleave := calm_leaveScope honTrue.sound hleave
      have henter' := hleave.trans (calm_enterScope hleave.sound henter')
      have honFalse := runOnFalse.preserves henter'.sound trivial
      obtain ⟨hsigned, -⟩ := ihCond hs ⟨trivial, by simp⟩ hsigned
      obtain ⟨hsigned, -⟩ := ihOnTrue henter.sound trivial (hsigned.mild hcond.sound henter.toMild)
      obtain ⟨hsigned, -⟩ := ihOnFalse henter'.sound trivial (hsigned.mild honTrue.sound henter'.toMild)
      exact ⟨hsigned.mild honFalse.sound (calm_leaveScope honFalse.sound hleave').toMild, trivial⟩
  | whileLoop runCond hloop henter runBody hleave hend ihCond ihBody =>
      obtain ⟨hcond, -⟩ := runCond.preserves hs ⟨trivial, by simp⟩
      have hloop := steps_enterLoop hcond.sound hloop
      have henter := calm_enterScope hloop.sound henter
      have hbody := runBody.preserves henter.sound trivial
      have hleave := calm_leaveScope hbody.sound hleave
      obtain ⟨hsigned, -⟩ := ihCond hs ⟨trivial, by simp⟩ hsigned
      obtain ⟨hsigned, -⟩ := ihBody henter.sound trivial
        (hsigned.steps hcond.sound (hloop.trans henter.steps))
      exact ⟨hsigned.steps hbody.sound (hleave.steps.trans (steps_leaveLoop hleave.sound hend)), trivial⟩
  | retValue hframe runValue hreturn ih =>
      obtain ⟨hvalue, hheld⟩ := runValue.preserves hs ⟨trivial, expects_result hs hframe⟩
      obtain ⟨hsigned, -⟩ := ih hs ⟨trivial, expects_result hs hframe⟩ hsigned
      exact ⟨hsigned.steps hvalue.sound
        (steps_checkReturned (hvalue.frames.trans hframe) hvalue.sound hheld hreturn), trivial⟩
  | retBare hframe hreturn =>
      exact ⟨hsigned.steps hs (steps_checkBareReturn hframe hs hreturn), trivial⟩
  | breakLoop hloop => exact ⟨checkLoopControl_state hloop ▸ hsigned, trivial⟩
  | continueLoop hloop => exact ⟨checkLoopControl_state hloop ▸ hsigned, trivial⟩
  | block henter runBody hleave ih =>
      have henter := calm_enterScope hs henter
      have hbody := runBody.preserves henter.sound trivial
      obtain ⟨hsigned, -⟩ := ih henter.sound trivial (hsigned.mild hs henter.toMild)
      exact ⟨hsigned.mild hbody.sound (calm_leaveScope hbody.sound hleave).toMild, trivial⟩
  | funcStmt hdeclare _ ih =>
      have hdeclares := declares_declareFunc hs hdeclare
      have hsigned := hsigned.grow hs hdeclares.grows fun _ => by rw [hdeclares.exprs]
      exact ⟨(ih hdeclares.sound trivial hsigned).1, trivial⟩
  | stmtsNil => exact ⟨hsigned, trivial⟩
  | stmtsCons runStmt _ ihStmt ihRest =>
      have hstmt := runStmt.preserves hs trivial
      exact ⟨(ihRest hstmt.sound trivial (ihStmt hs trivial hsigned).1).1, trivial⟩
  | bodySkip _ => exact ⟨hsigned, trivial⟩
  | bodyNone hfunc hstate hbody _ =>
      have hsome := (hs.tables.kinds _ _ (SymbolTable.func?_eq_some.mp hfunc)).2.2.2
      simp [hstate, hbody] at hsome
  | bodyRun hfunc hstate _ hstart _ _ hopen runBody hclose hfinish ih =>
      obtain ⟨frame, hopens⟩ := opensFunc_openBody hs hfunc hstate hstart hopen
      have hkeeps := runBody.preserves hopens.sound trivial
      have hframes := hkeeps.frames
      rw [hopens.frames] at hframes
      obtain ⟨frame', hframes', hbecomes⟩ := hframes.cons_inv
      have hsymbol := hbecomes.symbol.trans hopens.symbol
      rw [← hsymbol] at hfinish
      have hopened := hsigned.grow hs hopens.grows fun _ => by rw [hopens.exprs]
      obtain ⟨hsigned, -⟩ := ih hopens.sound trivial hopened
      exact ⟨signed_closesFunc hkeeps.sound hsigned (closesFunc_closeBody hkeeps.sound hframes'
        (hbecomes.kind.trans hopens.kind) hclose hfinish), trivial⟩

end Check

end Stela
