import Stela.Proofs.Check.Functions
import Stela.Proofs.Check.Runs

/-!
# The analysis keeps states sound

What every rule of `Runs` preserves. A part of the analysis that starts in a
sound state ends in one, and the type it finds is settled or a placeholder of a
function under analysis, as far as its context allows.
-/

namespace Stela

/-- The type of an expression as its context may use it. -/
def Tables.Typed (t : Tables) (context : ExprContext) (type : TypeId) : Prop :=
  match context with
  | .value => t.Held type
  | .condition => t.types.Settled type
  | .callee _ => t.Callable type

/-- The types of the arguments that a callee is chosen for are settled. -/
def Tables.Ready (t : Tables) : ExprContext → Prop
  | .callee args => ∀ a ∈ args, t.types.Settled a.type
  | .value | .condition => True

namespace Check

open CheckState

/-- What a part of the analysis needs to know about the types it is given. -/
def Task.Ready (t : Tables) : Task → Prop
  | .expr context expected _ _ =>
    t.Ready context ∧ ∀ type, expected = some type → t.types.Settled type
  | .elements element _ => t.types.Settled element
  | .callee _ _ given _ => ∀ a ∈ given, t.types.Settled a.type
  | .entries _ _ context _ => t.Ready context
  | _ => True

/-- What a part of the analysis preserves, and what is known about the type it finds. -/
def Task.Preserves (s s' : CheckState) : Task → Prop
  | .expr context _ _ type => s.Stays s' ∧ s'.tables.Typed context type.type
  | .args _ types => s.Stays s' ∧ ∀ p ∈ types, s'.tables.types.Settled p.2.type
  | .elements _ _ => s.Stays s'
  | .stmt _ | .stmts _ => s.Keeps s'
  | .binding _ _ => s.Stays s'
  | .body func => Analyzed s func s'
  | .result _ type => s.Stays s' ∧ s'.tables.Held type
  | .funcType _ type => s.Stays s' ∧ s'.tables.Callable type
  | .callee _ _ _ type => s.Stays s' ∧ s'.tables.Callable type.type
  | .value _ _ type => s.Stays s' ∧ s'.tables.types.Settled type.type
  | .entries _ _ context type => s.Stays s' ∧ s'.tables.Callable type.type ∧
      ((∀ given, context ≠ .callee given) → s'.tables.types.Settled type.type)

variable {settings : Settings} {s s' : CheckState}

/-! ## Single rules -/

theorem mono_of_stays {type : TypeId} (h : s.Stays s') (htype : s.tables.types.Settled type) :
    s'.tables.types.Settled type := htype.mono h.leads.grows.types

theorem held_of_stays {type : TypeId} (h : s.Stays s') (htype : s.tables.Held type) :
    s'.tables.Held type := htype.mono h.leads.grows.types h.leads.progress

/-- Recording the type of an expression. -/
theorem typed_record (hs : s.Sound) {node : Node} {context : ExprContext} {type r : ExprType}
    (h : (record node context type).Gives settings s r s')
    (htype : s.tables.Callable type.type)
    (hvalue : (∀ args, context ≠ .callee args) → s.tables.Held type.type) :
    s.Stays s' ∧ s'.tables.Typed context r.type := by
  obtain ⟨rfl, rfl, hknown⟩ := record_gives h
  refine ⟨⟨⟨hs.tables, fun other typing htyping => ?_, hs.frames, hs.distinct, hs.assumptions,
    hs.transfers, hs.defaults, hs.remembered, hs.statics⟩, ⟨.refl _, fun _ info' h => .inr ⟨info', h, rfl⟩,
    fun _ h => h, fun _ h => h, .refl _, fun _ h => h⟩, rfl⟩, ?_⟩
  · by_cases heq : other = node.id
    · subst heq
      rw [NodeMap.get?_insert_self] at htyping
      exact Option.some.inj htyping ▸ htype
    · exact hs.exprs other typing ((NodeMap.get?_insert_ne heq).symm.trans htyping)
  · cases context with
    | value => exact hvalue (by simp)
    | condition => exact (hvalue (by simp)).settled (hknown rfl)
    | callee args => exact htype

/-- Recording a type that is no function type with a placeholder for its result. -/
theorem typed_record_held (hs : s.Sound) {node : Node} {context : ExprContext} {type r : ExprType}
    (h : (record node context type).Gives settings s r s') (htype : s.tables.Held type.type) :
    s.Stays s' ∧ s'.tables.Typed context r.type :=
  typed_record hs h (.inl htype) fun _ => htype

/-- A type that a rule expects is settled where it is. -/
theorem expects_some {t : Tables} {a : TypeId} (h : t.types.Settled a) :
    ∀ type, some a = some type → t.types.Settled type :=
  fun _ htype => Option.some.inj htype ▸ h

theorem expects_element (hs : s.Sound) (expected : Option TypeId) :
    ∀ type, expected.bind s.tables.element? = some type → s.tables.types.Settled type := by
  intro type htype
  obtain ⟨array, -, helement⟩ := Option.bind_eq_some_iff.mp htype
  exact hs.tables.settled_element? helement

theorem expects_result (hs : s.Sound) {frame : Frame} {rest : List Frame}
    (hframe : s.frames = frame :: rest) :
    ∀ type, frame.ret.expected = some type → s.tables.types.Settled type :=
  fun _ htype => hs.tables.settled_result
    (htype ▸ (hs.frames frame (hframe ▸ List.mem_cons_self)).result)

/-- The result of a function that is not under analysis is noted with it. -/
theorem settled_ret_of_done (hs : s.Sound) {func : SymbolId} {info : FuncInfo}
    (hfunc : s.tables.symbols.func? func = some info) (hdone : info.state = .done) :
    ∃ ret, info.ret = some ret ∧ s.tables.types.Settled ret := by
  obtain ⟨-, hret, hsome, -⟩ := hs.tables.kinds _ _ (SymbolTable.func?_eq_some.mp hfunc)
  obtain ⟨ret, heq⟩ := Option.isSome_iff_exists.mp (hsome hdone)
  exact ⟨ret, heq, hret ret heq⟩

/-- A function that is analyzed on demand has a result afterwards. -/
theorem settled_ret_of_analyzed {func : SymbolId} {info : FuncInfo}
    (hfunc : s.tables.symbols.func? func = some info) (hstate : info.state = .unchecked)
    (hanalyzed : Analyzed s func s') :
    s'.tables.types.Settled (((s'.tables.symbols.func? func).bind FuncInfo.ret).getD
      Builtin.void.typeId) := by
  obtain ⟨info', hinfo', -⟩ := hanalyzed.leads.grows.func hfunc
  have hdone := hanalyzed.done (by simp [Tables.InProgress, hfunc, hstate]) info' hinfo'
  obtain ⟨ret, hret, hsettled⟩ := settled_ret_of_done hanalyzed.sound hinfo' hdone
  rw [hinfo', Option.bind_some, hret]
  exact hsettled

/-- The placeholder for the result of a function under analysis. -/
theorem held_pending (hs : s.Sound) {func : SymbolId} {info : FuncInfo} {type : TypeId}
    (hfunc : s.tables.symbols.func? func = some info) (hstate : info.state = .inProgress)
    (h : (intern (.pending func)).Gives settings s type s') :
    s.Calm s' ∧ s'.tables.Held type := by
  obtain ⟨hcalm, htype⟩ := calm_intern hs h trivial rfl
  refine ⟨hcalm, .inr ⟨func, ?_, htype⟩⟩
  exact hcalm.tables.inProgress.mpr (by simp [Tables.InProgress, hfunc, hstate])

/-- The type of a function, whose result may be a placeholder. -/
theorem callable_funcType (hs : s.Sound) {func : SymbolId} {ret type : TypeId} {s₁ : CheckState}
    (hstays : s.Stays s₁) (hret : s₁.tables.Held ret)
    (h : (intern (.func ((((s.tables.symbols.func? func).map FuncInfo.params).getD []).map
      fun p => (p.refKind, p.type)) ret)).Gives settings s₁ type s') :
    s₁.Calm s' ∧ s'.tables.Callable type := by
  have hparams : ∀ p ∈ (((s.tables.symbols.func? func).map FuncInfo.params).getD []).map
      fun p => (p.refKind, p.type), s₁.tables.types.Settled p.2 := by
    intro p hp
    obtain ⟨q, hq, rfl⟩ := List.mem_map.mp hp
    cases hfunc : s.tables.symbols.func? func with
    | none => simp [hfunc] at hq
    | some info =>
        rw [hfunc] at hq
        exact mono_of_stays hstays ((hs.tables.kinds _ _ (SymbolTable.func?_eq_some.mp hfunc)).1 q hq)
  rcases hret with hsettled | hplaceholder
  · obtain ⟨hcalm, hwritten⟩ := written_internFunc hstays.sound hparams hsettled h
    exact ⟨hcalm, .inl (.inl hwritten.1)⟩
  · obtain ⟨hcalm, htype⟩ :=
      calm_intern hstays.sound h ⟨hparams, .inr (hplaceholder.imp fun _ h => h.2)⟩ rfl
    exact ⟨hcalm, .inr ⟨_, ret, htype,
      hplaceholder.mono hcalm.tables.types fun _ => hcalm.tables.inProgress.mpr⟩⟩

/-- A function type with a known result is settled. -/
theorem settled_of_callable {type ret : TypeId} {params : List (RefKind × TypeId)}
    (hcallable : s.tables.Callable type)
    (htype : s.tables.types.get? type = some (.func params ret))
    (hknown : s.tables.types.pending? ret = none) : s.tables.types.Settled type := by
  rcases hcallable with (hsettled | ⟨func, -, hpending⟩) | ⟨params', ret', htype', func, -, hret⟩
  · exact hsettled
  · simp [htype] at hpending
  · obtain ⟨-, rfl⟩ := Ty.func.inj (Option.some.inj (htype.symm.trans htype'))
    simp [TypeTable.pending?_eq_some.mpr hret] at hknown

/-- The arguments of a call are settled when its callee is chosen. -/
theorem ready_callee {args : List (Expr × ExprType)}
    (hargs : ∀ p ∈ args, s.tables.types.Settled p.2.type) :
    s.tables.Ready (.callee (args.map (·.2))) := by
  intro a ha
  obtain ⟨p, hp, rfl⟩ := List.mem_map.mp ha
  exact hargs p hp

/-- Settled arguments stay settled. -/
theorem ready_of_stays {context : ExprContext} (h : s.tables.Ready context) (hstays : s.Stays s') :
    s'.tables.Ready context := by
  cases context with
  | callee args => exact fun a ha => mono_of_stays hstays (h a ha)
  | value => trivial
  | condition => trivial

/-- A type that is found, or `void`. -/
theorem settled_getD (hs : s.Sound) {found : Option TypeId}
    (hfound : ∀ type, found = some type → s.tables.types.Settled type) :
    s.tables.types.Settled (found.getD Builtin.void.typeId) := by
  cases found with
  | none => exact hs.tables.types.settled_builtin .void
  | some type => exact hfound type rfl

/-- The type of an object is settled. -/
theorem settled_object (hs : s.Sound) {id : SymbolId} {info : ObjectInfo}
    (h : s.tables.symbols.kind? id = some (.object info)) : s.tables.types.Settled info.type.type :=
  hs.tables.kinds _ _ h

/-- A function that is declared and analyzed in a body. -/
theorem keeps_funcStmt {decl : FuncDecl} {func : SymbolId} {s₁ : CheckState}
    (hdeclares : Declares s decl func s₁) (hanalyzed : Analyzed s₁ func s') : s.Keeps s' := by
  obtain ⟨info₁, hinfo₁, -, hstate⟩ := hdeclares.declared
  have hdone := hanalyzed.done <| by
    cases hbody : decl.body <;> simp [Tables.InProgress, hinfo₁, hstate, hbody]
  have hleads := hanalyzed.leads
  refine ⟨hanalyzed.sound, ⟨hdeclares.grows.trans hleads.grows, fun other info' hinfo' => ?_,
    fun other hother => hleads.progress other ?_,
    fun a ha => hleads.assumptions a (hdeclares.assumptions a ha),
    hdeclares.meanings.trans hleads.meanings,
    hdeclares.separates.trans hdeclares.grows hleads.separates⟩, ?_⟩
  · by_cases heq : other = func
    · subst heq
      exact .inl (hdone info' hinfo')
    · rcases hleads.states other info' hinfo' with hdone | ⟨info₂, hinfo₂, heq₂⟩
      · exact .inl hdone
      · have hothers := hdeclares.others other heq
        rw [hinfo₂, Option.map_some, eq_comm, Option.map_eq_some_iff] at hothers
        obtain ⟨info, hinfo, heq'⟩ := hothers
        exact .inr ⟨info, hinfo, heq'.trans heq₂⟩
  · have hne : other ≠ func := by
      rintro rfl
      simp [Tables.InProgress, hdeclares.fresh] at hother
    exact (hdeclares.others other hne).trans hother
  · rw [hanalyzed.frames, hdeclares.frames]
    exact .refl s.frames

/-! ## All rules -/

/-- The analysis keeps states sound, by induction on its run. -/
theorem Runs.preserves {task : Task} {visited visited' : List Nat}
    (run : Runs settings task s visited s' visited') (hs : s.Sound) (hready : task.Ready s.tables) :
    task.Preserves s s' := by
  induction run with
  | resultNone _ => exact ⟨.refl hs, .inl (hs.tables.types.settled_builtin .void)⟩
  | resultKnown hfunc hret =>
      exact ⟨.refl hs, .inl ((hs.tables.kinds _ _ (SymbolTable.func?_eq_some.mp hfunc)).2.1 _ hret)⟩
  | resultAnalyzed hfunc _ hstate _ ih =>
      have hanalyzed := ih hs trivial
      exact ⟨hanalyzed.toStays, .inl (settled_ret_of_analyzed hfunc hstate hanalyzed)⟩
  | resultPending hfunc _ hstate hintern =>
      obtain ⟨hcalm, hheld⟩ := held_pending hs hfunc hstate hintern
      exact ⟨hcalm.stays, hheld⟩
  | resultMissing _ _ _ => exact ⟨.refl hs, .inl (hs.tables.types.settled_builtin .void)⟩
  | funcType _ hintern ih =>
      obtain ⟨hstays, hret⟩ := ih hs trivial
      obtain ⟨hcalm, hcallable⟩ := callable_funcType hs hstays hret hintern
      exact ⟨hstays.trans hcalm.stays, hcallable⟩
  | calleeBuiltin hsurvivors huse _ hinst =>
      have hsurvivors := calm_survivors _ hs hready hsurvivors
      have hcalm := hsurvivors.trans (calm_useSymbol hsurvivors.sound huse)
      obtain ⟨hinst, hsettled⟩ := settled_instantiate hcalm.sound
        (fun a ha => (hready a ha).mono hcalm.tables.types) hinst
      exact ⟨(hcalm.trans hinst).stays, .inl (.inl (settled_getD hinst.sound hsettled))⟩
  | calleeObject hsurvivors huse hkind hcapture =>
      have hsurvivors := calm_survivors _ hs hready hsurvivors
      have hcalm := hsurvivors.trans (calm_useSymbol hsurvivors.sound huse)
      have hcapture := calm_noteCapture hcalm.sound hcapture
      exact ⟨(hcalm.trans hcapture).stays,
        .inl (.inl ((settled_object hcalm.sound hkind).mono hcapture.tables.types))⟩
  | calleeFunc hsurvivors huse _ _ _ _ ih =>
      have hsurvivors := calm_survivors _ hs hready hsurvivors
      have hcalm := hsurvivors.trans (calm_useSymbol hsurvivors.sound huse)
      obtain ⟨hstays, hcallable⟩ := ih hcalm.sound trivial
      exact ⟨hcalm.stays.trans hstays, hcallable⟩
  | valueObject hkind huse hcapture =>
      have huse := calm_useSymbol hs huse
      have hcalm := huse.trans (calm_noteCapture huse.sound hcapture)
      exact ⟨hcalm.stays, (settled_object hs hkind).mono hcalm.tables.types⟩
  | valueFunc _ huse _ htype hknown ih =>
      have huse := calm_useSymbol hs huse
      obtain ⟨hstays, hcallable⟩ := ih huse.sound trivial
      exact ⟨huse.stays.trans hstays, settled_of_callable hcallable htype hknown⟩
  | entriesCallee _ ih =>
      obtain ⟨hstays, hcallable⟩ := ih hs hready
      exact ⟨hstays, hcallable, fun hnot => absurd rfl (hnot _)⟩
  | entriesValue _ _ ih =>
      obtain ⟨hstays, hsettled⟩ := ih hs trivial
      exact ⟨hstays, .inl (.inl hsettled), fun _ => hsettled⟩
  | literal htype hrecord =>
      obtain ⟨hcalm, hsettled⟩ := settled_literalType hs htype
      obtain ⟨hstays, htyped⟩ := typed_record_held hcalm.sound hrecord (.inl hsettled)
      exact ⟨hcalm.stays.trans hstays, htyped⟩
  | identCallee _ hrecord ih =>
      obtain ⟨hstays, hcallable⟩ := ih hs hready.1
      obtain ⟨hstays', htyped⟩ := typed_record hstays.sound hrecord hcallable
        fun hnot => absurd rfl (hnot _)
      exact ⟨hstays.trans hstays', htyped⟩
  | identValue _ _ _ hrecord ih =>
      obtain ⟨hstays, hsettled⟩ := ih hs trivial
      obtain ⟨hstays', htyped⟩ := typed_record_held hstays.sound hrecord (.inl hsettled)
      exact ⟨hstays.trans hstays', htyped⟩
  | memberModule hpath _ _ hrecord ih =>
      have hpath := (calm_staticPath _ hs hpath).stays
      obtain ⟨hstays, hcallable, hvalue⟩ := ih hpath.sound (ready_of_stays hready.1 hpath)
      obtain ⟨hstays', htyped⟩ := typed_record hstays.sound hrecord hcallable
        fun hnot => .inl (hvalue hnot)
      exact ⟨(hpath.trans hstays).trans hstays', htyped⟩
  | memberCase hpath htype _ _ _ huse _ hrecord =>
      have hpath := calm_staticPath _ hs hpath
      obtain ⟨hcalm, hwritten⟩ := written_typeOfSymbol hpath.sound htype
      have huse := calm_useSymbol hcalm.sound huse
      obtain ⟨hstays, htyped⟩ := typed_record_held huse.sound hrecord
        (.inl (hwritten.1.mono huse.tables.types))
      exact ⟨((hpath.trans hcalm).trans huse).stays.trans hstays, htyped⟩
  | memberStatic hpath htype _ _ _ _ _ hrecord ih =>
      have hpath := calm_staticPath _ hs hpath
      have hcalm := (hpath.trans (written_typeOfSymbol hpath.sound htype).1).stays
      obtain ⟨hstays, hcallable, hvalue⟩ := ih hcalm.sound (ready_of_stays hready.1 hcalm)
      obtain ⟨hstays', htyped⟩ := typed_record hstays.sound hrecord hcallable
        fun hnot => .inl (hvalue hnot)
      exact ⟨(hcalm.trans hstays).trans hstays', htyped⟩
  | memberField hpath _ _ _ _ _ hkind huse hrecord ih =>
      have hpath := (calm_staticPath _ hs hpath).stays
      obtain ⟨hstays, -⟩ := ih hpath.sound ⟨trivial, by simp⟩
      have huse := calm_useSymbol hstays.sound huse
      have hsettled := hstays.sound.tables.kinds _ _ hkind
      obtain ⟨hstays', htyped⟩ := typed_record_held huse.sound hrecord
        (.inl (TypeTable.Settled.mono hsettled huse.tables.types))
      exact ⟨((hpath.trans hstays).trans huse.stays).trans hstays', htyped⟩
  | memberMethod hpath _ _ _ _ _ _ _ _ _ hrecord ihObject ihCallee =>
      have hpath := (calm_staticPath _ hs hpath).stays
      obtain ⟨hobject, -⟩ := ihObject hpath.sound ⟨trivial, by simp⟩
      obtain ⟨hcallee, hcallable⟩ :=
        ihCallee hobject.sound (ready_of_stays hready.1 (hpath.trans hobject))
      obtain ⟨hstays, htyped⟩ := typed_record hcallee.sound hrecord hcallable
        fun hnot => absurd rfl (hnot _)
      exact ⟨((hpath.trans hobject).trans hcallee).trans hstays, htyped⟩
  | memberHost hpath _ _ _ hkind hfield hrecord ih =>
      have hpath := (calm_staticPath _ hs hpath).stays
      obtain ⟨hstays, -⟩ := ih hpath.sound ⟨trivial, by simp⟩
      have hsettled := (hstays.sound.tables.kinds _ _ hkind).2 _ (List.mem_of_find?_eq_some hfield)
      obtain ⟨hstays', htyped⟩ := typed_record_held hstays.sound hrecord (.inl hsettled)
      exact ⟨(hpath.trans hstays).trans hstays', htyped⟩
  | call _ _ hfinish hrecord ihArgs ihCallee =>
      obtain ⟨hargs, hsettled⟩ := ihArgs hs trivial
      obtain ⟨hcallee, hcallable⟩ := ihCallee hargs.sound ⟨ready_callee hsettled, by simp⟩
      obtain ⟨hcalm, hheld⟩ := held_finishCall hcallee.sound hcallable hfinish
      obtain ⟨hstays, htyped⟩ := typed_record_held hcalm.sound hrecord hheld
      exact ⟨((hargs.trans hcallee).trans hcalm.stays).trans hstays, htyped⟩
  | index _ _ helement _ _ _ hrecord ihBase ihIndex =>
      obtain ⟨hbase, -⟩ := ihBase hs ⟨trivial, by simp⟩
      obtain ⟨hindex, -⟩ := ihIndex hbase.sound ⟨trivial, by simp⟩
      have hsettled := mono_of_stays hindex (hbase.sound.tables.types.settled_element helement)
      obtain ⟨hstays, htyped⟩ := typed_record_held hindex.sound hrecord (.inl hsettled)
      exact ⟨(hbase.trans hindex).trans hstays, htyped⟩
  | unary _ _ hop hrecord ih =>
      obtain ⟨hstays, hheld⟩ := ih hs ⟨trivial, by simp⟩
      obtain ⟨rfl, -⟩ := checkUnary_gives hop
      obtain ⟨hstays', htyped⟩ := typed_record_held hstays.sound hrecord hheld
      exact ⟨hstays.trans hstays', htyped⟩
  | binary _ _ hfinish hrecord ihLhs ihRhs =>
      obtain ⟨hlhs, hleft⟩ := ihLhs hs ⟨trivial, by simp⟩
      obtain ⟨hrhs, hright⟩ := ihRhs hlhs.sound ⟨trivial, by simp⟩
      obtain ⟨hcalm, hheld⟩ :=
        held_finishBinary hrhs.sound (held_of_stays hrhs hleft) hright hfinish
      obtain ⟨hstays, htyped⟩ := typed_record_held hcalm.sound hrecord hheld
      exact ⟨((hlhs.trans hrhs).trans hcalm.stays).trans hstays, htyped⟩
  | ternary _ _ _ hsettle _ hrecord ihCond ihOnTrue ihOnFalse =>
      obtain ⟨hcond, -⟩ := ihCond hs ⟨trivial, by simp⟩
      obtain ⟨honTrue, hleft⟩ := ihOnTrue hcond.sound ⟨trivial, by simp⟩
      obtain ⟨honFalse, hright⟩ := ihOnFalse honTrue.sound ⟨trivial, by simp⟩
      obtain ⟨hcalm, hheld, -⟩ :=
        held_settlePending honFalse.sound (held_of_stays honFalse hleft) hright hsettle
      obtain ⟨hstays, htyped⟩ := typed_record_held hcalm.sound hrecord hheld
      exact ⟨(((hcond.trans honTrue).trans honFalse).trans hcalm.stays).trans hstays, htyped⟩
  | emptyArray hempty hrecord =>
      obtain ⟨array, hexpected, rfl⟩ := emptyArray_gives hempty
      exact typed_record_held hs hrecord (.inl (hready.2 array hexpected))
  | array _ hknown htransfer _ hintern hrecord ihFirst ihRest =>
      obtain ⟨hfirst, hheld⟩ := ihFirst hs ⟨trivial, expects_element hs _⟩
      have hsettled := Tables.Held.settled hheld hknown
      have htransfer := calm_recordTransfer hfirst.sound hsettled htransfer
      have hrest := ihRest htransfer.sound (hsettled.mono htransfer.tables.types)
      obtain ⟨hcalm, hwritten⟩ := written_internArray hrest.sound
        (mono_of_stays hrest (hsettled.mono htransfer.tables.types)) hintern
      obtain ⟨hstays, htyped⟩ := typed_record_held hcalm.sound hrecord (.inl hwritten.1)
      exact ⟨(((hfirst.trans htransfer.stays).trans hrest).trans hcalm.stays).trans hstays, htyped⟩
  | closure hopen _ hclose hrecord ih =>
      obtain ⟨s₁, frame, hopens, hkind, -⟩ := opens_openClosure hs hopen
      have hkeeps := ih hopens.sound trivial
      have hframes := hkeeps.frames
      rw [← hopens.push, hopens.calm.frames] at hframes
      obtain ⟨frame', hframes', hbecomes⟩ := hframes.cons_inv
      obtain ⟨ret, hcloses, -⟩ := closesClosure_closeClosure hkeeps.sound hframes'
        (hbecomes.kind.trans hkind) hclose
      obtain ⟨hstays, htyped⟩ := typed_record_held hcloses.sound hrecord (.inl hcloses.settled)
      have hleads := (hopens.leads.trans hkeeps.leads).trans hcloses.leads
      exact ⟨Stays.trans ⟨hcloses.sound, hleads, hcloses.frames⟩ hstays, htyped⟩
  | argsNil => exact ⟨.refl hs, by simp⟩
  | argsCons _ hknown _ ihExpr ihRest =>
      obtain ⟨hexpr, hheld⟩ := ihExpr hs ⟨trivial, by simp⟩
      obtain ⟨hrest, hsettled⟩ := ihRest hexpr.sound trivial
      refine ⟨hexpr.trans hrest, fun p hp => ?_⟩
      rcases List.mem_cons.mp hp with rfl | hp
      · exact mono_of_stays hrest (Tables.Held.settled hheld hknown)
      · exact hsettled p hp
  | elementsNil => exact .refl hs
  | elementsCons _ _ _ htransfer _ ihExpr ihRest =>
      obtain ⟨hexpr, -⟩ := ihExpr hs ⟨trivial, expects_some hready⟩
      have htransfer := calm_recordTransfer hexpr.sound (mono_of_stays hexpr hready) htransfer
      have hsteps := hexpr.trans htransfer.stays
      exact hsteps.trans (ihRest hsteps.sound (mono_of_stays hsteps hready))
  | bindInit hlower _ hknown hfinish ih =>
      obtain ⟨hcalm, hdeclared⟩ := settled_lowerOptional hs hlower
      obtain ⟨hinit, hheld⟩ := ih hcalm.sound ⟨trivial, hdeclared⟩
      have hsettled := Tables.Held.settled hheld hknown
      have hfinish := calm_finishBinding hinit.sound
        (fun type htype => mono_of_stays hinit (hdeclared type htype))
        (fun p hp => Option.some.inj hp ▸ hsettled) hfinish
      exact (hcalm.stays.trans hinit).trans hfinish.stays
  | bindDefault hlower hfinish =>
      obtain ⟨hcalm, hdeclared⟩ := settled_lowerOptional hs hlower
      exact (hcalm.trans (calm_finishBinding hcalm.sound hdeclared (by simp) hfinish)).stays
  | bind _ ih => exact (ih hs trivial).keeps
  | assign _ hplace _ _ _ hfinish ihTarget ihValue =>
      obtain ⟨htarget, hheld⟩ := ihTarget hs ⟨trivial, by simp⟩
      have hsettled := Tables.Held.settled hheld hplace
      obtain ⟨hvalue, -⟩ := ihValue htarget.sound ⟨trivial, expects_some hsettled⟩
      have hfinish := calm_finishAssign hvalue.sound (mono_of_stays hvalue hsettled) hfinish
      exact ((htarget.trans hvalue).trans hfinish.stays).keeps
  | exprStmt _ ih => exact (ih hs ⟨trivial, by simp⟩).1.keeps
  | ifOnly _ henter _ hleave ihCond ihOnTrue =>
      obtain ⟨hcond, -⟩ := ihCond hs ⟨trivial, by simp⟩
      have henter := calm_enterScope hcond.sound henter
      have honTrue := ihOnTrue henter.sound trivial
      exact ((hcond.keeps.trans henter.keeps).trans honTrue).trans
        (calm_leaveScope honTrue.sound hleave).keeps
  | ifElse _ henter _ hleave henter' _ hleave' ihCond ihOnTrue ihOnFalse =>
      obtain ⟨hcond, -⟩ := ihCond hs ⟨trivial, by simp⟩
      have henter := calm_enterScope hcond.sound henter
      have honTrue := ihOnTrue henter.sound trivial
      have hleave := calm_leaveScope honTrue.sound hleave
      have henter' := calm_enterScope hleave.sound henter'
      have honFalse := ihOnFalse henter'.sound trivial
      exact ((hcond.keeps.trans henter.keeps).trans (honTrue.trans hleave.keeps)).trans
        ((henter'.keeps.trans honFalse).trans (calm_leaveScope honFalse.sound hleave').keeps)
  | whileLoop _ hloop henter _ hleave hend ihCond ihBody =>
      obtain ⟨hcond, -⟩ := ihCond hs ⟨trivial, by simp⟩
      have hloop := steps_enterLoop hcond.sound hloop
      have henter := calm_enterScope hloop.sound henter
      have hbody := ihBody henter.sound trivial
      have hleave := calm_leaveScope hbody.sound hleave
      exact ((hcond.keeps.trans hloop.toKeeps).trans (henter.keeps.trans hbody)).trans
        (hleave.keeps.trans (steps_leaveLoop hleave.sound hend).toKeeps)
  | retValue hframe _ hreturn ih =>
      obtain ⟨hvalue, hheld⟩ := ih hs ⟨trivial, expects_result hs hframe⟩
      exact hvalue.keeps.trans
        (steps_checkReturned (hvalue.frames.trans hframe) hvalue.sound hheld hreturn).toKeeps
  | retBare hframe hreturn => exact (steps_checkBareReturn hframe hs hreturn).toKeeps
  | breakLoop hloop => exact checkLoopControl_state hloop ▸ .refl hs
  | continueLoop hloop => exact checkLoopControl_state hloop ▸ .refl hs
  | block henter _ hleave ih =>
      have henter := calm_enterScope hs henter
      have hbody := ih henter.sound trivial
      exact (henter.keeps.trans hbody).trans (calm_leaveScope hbody.sound hleave).keeps
  | funcStmt hdeclare _ ih =>
      have hdeclares := declares_declareFunc hs hdeclare
      exact keeps_funcStmt hdeclares (ih hdeclares.sound trivial)
  | stmtsNil => exact .refl hs
  | stmtsCons _ _ ihStmt ihRest =>
      have hstmt := ihStmt hs trivial
      exact hstmt.trans (ihRest hstmt.sound trivial)
  | bodySkip hskip =>
      refine ⟨.refl hs, fun hnot info hinfo => ?_⟩
      cases hstate : info.state with
      | unchecked => exact absurd hstate (hskip info hinfo)
      | inProgress => exact absurd (by simp [Tables.InProgress, hinfo, hstate]) hnot
      | done => rfl
  | bodyNone hfunc hstate hbody _ =>
      have hsome := (hs.tables.kinds _ _ (SymbolTable.func?_eq_some.mp hfunc)).2.2.2
      simp [hstate, hbody] at hsome
  | bodyRun hfunc hstate _ hstart _ _ hopen _ hclose hfinish ih =>
      obtain ⟨frame, hopens⟩ := opensFunc_openBody hs hfunc hstate hstart hopen
      have hkeeps := ih hopens.sound trivial
      have hframes := hkeeps.frames
      rw [hopens.frames] at hframes
      obtain ⟨frame', hframes', hbecomes⟩ := hframes.cons_inv
      have hsymbol := hbecomes.symbol.trans hopens.symbol
      rw [← hsymbol] at hfinish
      exact analyzed_func hs hfunc hstate hopens hkeeps hbecomes
        (closesFunc_closeBody hkeeps.sound hframes' (hbecomes.kind.trans hopens.kind) hclose hfinish)

end Check

end Stela
