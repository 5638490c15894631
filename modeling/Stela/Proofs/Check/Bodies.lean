import Stela.Proofs.Check.Frames
import Stela.Proofs.Types.Stability

/-!
# Opening and closing bodies

A body is opened by pushing a frame that agrees with its symbol, and closed by
settling its result. Once a function is done, no placeholder of it is left in
the state: the frames around it were there before its body was opened, when
there was no placeholder of it yet.
-/

namespace Stela

/-- Where a variable is declared that is noted there. -/
def Check.BindingPlace.origin : Check.BindingPlace → Origin
  | .stmt _ => .body
  | .decl _ => .global

/-- The symbol that a variable was found to have. -/
def Meanings.variable? (m : Meanings) : Check.BindingPlace → Option SymbolId
  | .stmt node => m.locals.get? node
  | .decl node => m.decls.get? node

theorem Meanings.Within.variable? {m m' : Meanings} (h : m.Within m') {place : Check.BindingPlace}
    {symbol : SymbolId} (hsymbol : m.variable? place = some symbol) :
    m'.variable? place = some symbol := by
  cases place with
  | stmt node => exact h.locals node symbol hsymbol
  | decl node => exact h.decls node symbol hsymbol

namespace Check

open CheckState

variable {settings : Settings} {s s' : CheckState}

/-! ## Variables and assignments -/

/-- The type of a variable is the annotated one, which the initializer has to have, or the one of
the initializer. -/
theorem bindingType_gives {name : Ident} {declared : Option TypeId}
    {init : Option (Expr × ExprType)} {type : TypeId}
    (h : (bindingType name declared init).Gives settings s type s') :
    s = s' ∧ (declared = some type ∨ declared = none ∧ ∃ expr value, init = some (expr, value) ∧
      value.type = type) ∧
      ∀ expr value, init = some (expr, value) → declared = some type →
        s.tables.same type value.type = true := by
  unfold bindingType at h
  split at h
  · simp only [gives_bind, gives_same] at h
    obtain ⟨_, _, ⟨⟨-, rfl⟩, rfl⟩, h⟩ := h
    rw [gives_ite] at h
    split at h
    · simp at h
    · next hsame =>
      obtain ⟨rfl, rfl⟩ := gives_pure.mp h
      refine ⟨rfl, .inl rfl, fun expr value heq _ => ?_⟩
      cases heq
      simpa using hsame
  · obtain ⟨rfl, rfl⟩ := gives_pure.mp h
    exact ⟨rfl, .inl rfl, by simp⟩
  · obtain ⟨rfl, rfl⟩ := gives_pure.mp h
    exact ⟨rfl, .inr ⟨rfl, _, _, rfl, rfl⟩, by simp⟩
  · simp at h

theorem calm_declareVariable (hs : s.Sound) {place : BindingPlace} {name : Ident}
    {type : ExprType} {symbol : SymbolId} (htype : s.tables.types.Settled type.type)
    (h : (declareVariable place name type).Gives settings s symbol s') :
    s.Calm s' ∧ s'.meanings.variable? place = some symbol ∧
      s'.tables.symbols.kind? symbol = some (.object ⟨type, place.origin⟩) := by
  cases place with
  | stmt node =>
      simp only [declareVariable, gives_bind, gives_pure] at h
      obtain ⟨symbol, s₁, hobject, _, _, hset, rfl, rfl⟩ := h
      obtain ⟨hobject, hkind⟩ := calm_declareObject hs htype hobject
      have hcalm := calm_setLocalSymbol hobject.sound hset
      obtain ⟨filled, hfill, rfl⟩ := gives_fill.mp hset
      exact ⟨hobject.trans hcalm, (NodeMap.get?_of_fill? hfill).1, hkind⟩
  | decl node =>
      simp only [declareVariable, gives_bind, gives_pure] at h
      obtain ⟨symbol, s₁, hobject, _, _, hset, rfl, rfl⟩ := h
      obtain ⟨hobject, hkind⟩ := calm_declareObject hs htype hobject
      have hcalm := calm_setDeclSymbol hobject.sound hset
      obtain ⟨filled, hfill, rfl⟩ := gives_fill.mp hset
      exact ⟨hobject.trans hcalm, (NodeMap.get?_of_fill? hfill).1, hkind⟩

/-- A variable is declared with a settled type that is not `void`, and the type of its first value is
the same. -/
theorem finishBinding_gives (hs : s.Sound) {place : BindingPlace} {binding : Binding}
    {declared : Option TypeId} {init : Option (Expr × ExprType)}
    (hdeclared : ∀ type, declared = some type → s.tables.types.Settled type)
    (hinit : ∀ p, init = some p → s.tables.types.Settled p.2.type)
    (h : (finishBinding place binding declared init).Gives settings s () s') :
    ∃ type symbol s₁, s.tables.types.Settled type ∧ s.tables.isVoid type = false ∧
      (∀ expr value, init = some (expr, value) → s.tables.same type value.type = true) ∧
      (declareVariable place binding.name (.named type binding.mutability)).Gives settings s symbol
        s₁ ∧
      (s₁.Sound → s₁.tables.types.Settled type → s₁.Calm s') := by
  simp only [finishBinding, gives_bind, gives_isVoid] at h
  obtain ⟨type, _, htype, _, _, ⟨⟨-, rfl⟩, rfl⟩, h⟩ := h
  obtain ⟨rfl, hfrom, hsame⟩ := bindingType_gives htype
  rw [gives_ite] at h
  split at h
  · simp at h
  next hvoid =>
  rw [gives_bind] at h
  obtain ⟨symbol, s₁, hdeclare, h⟩ := h
  refine ⟨type, symbol, s₁, ?_, by simpa using hvoid, fun expr value heq => ?_, hdeclare,
    fun hs₁ hsettled => ?_⟩
  · rcases hfrom with heq | ⟨-, expr, value, heq, rfl⟩
    · exact hdeclared type heq
    · exact hinit _ heq
  · rcases hfrom with hdeclared | ⟨-, expr', value', heq', rfl⟩
    · exact hsame expr value heq hdeclared
    · obtain ⟨rfl, rfl⟩ := Prod.mk.inj (Option.some.inj (heq.symm.trans heq'))
      exact hs.tables.same_refl _
  · split at h
    · exact calm_recordTransfer hs₁ hsettled h
    · obtain rfl := gives_update.mp h
      refine hs₁.calm hs₁.tables (.refl _) rfl rfl (fun _ h => h) (fun _ h => .inl h)
        (fun _ h => .inl h) (fun d hd => ?_) (fun _ _ h => .inl h) (.refl _) (fun _ h => .inl h)
        fun _ => rfl
      rcases List.mem_append.mp hd with hold | hnew
      · exact .inl hold
      · obtain rfl := List.mem_singleton.mp hnew
        exact .inr hsettled

theorem calm_finishBinding (hs : s.Sound) {place : BindingPlace} {binding : Binding}
    {declared : Option TypeId} {init : Option (Expr × ExprType)}
    (hdeclared : ∀ type, declared = some type → s.tables.types.Settled type)
    (hinit : ∀ p, init = some p → s.tables.types.Settled p.2.type)
    (h : (finishBinding place binding declared init).Gives settings s () s') : s.Calm s' := by
  obtain ⟨type, symbol, s₁, hsettled, -, -, hdeclare, hrest⟩ :=
    finishBinding_gives hs hdeclared hinit h
  have hdeclare := (calm_declareVariable hs hsettled hdeclare).1
  exact hdeclare.trans (hrest hdeclare.sound (hsettled.mono hdeclare.tables.types))

theorem calm_finishAssign (hs : s.Sound) {op : Option BinOp} {place assigned : ExprType}
    {value : Expr} {span : Span} (hplace : s.tables.types.Settled place.type)
    (h : (finishAssign op place value assigned span).Gives settings s () s') : s.Calm s' := by
  unfold finishAssign at h
  split at h
  · rw [gives_bind] at h
    obtain ⟨result, _, hbinary, h⟩ := h
    obtain ⟨-, -, -, rfl⟩ := checkBinary_gives hbinary
    simp only [gives_bind, gives_same] at h
    obtain ⟨_, _, ⟨⟨-, rfl⟩, rfl⟩, h⟩ := h
    rw [gives_ite] at h
    split at h
    · simp at h
    · exact (gives_pure.mp h).2 ▸ .refl hs
  · simp only [gives_bind, gives_same] at h
    obtain ⟨_, _, ⟨⟨-, rfl⟩, rfl⟩, h⟩ := h
    rw [gives_ite] at h
    split at h
    · simp at h
    · exact calm_recordTransfer hs hplace h

/-! ## Declared functions -/

theorem inProgress_add {t : Tables} {func : SymbolId} {entry : Symbol} (h : t.InProgress func) :
    Tables.InProgress { t with symbols := (t.symbols.add entry).2 } func := by
  obtain ⟨info, hinfo, hstate⟩ := Option.map_eq_some_iff.mp h
  rw [SymbolTable.func?_eq_some] at hinfo
  refine Option.map_eq_some_iff.mpr ⟨info, SymbolTable.func?_eq_some.mpr ?_, hstate⟩
  rw [SymbolTable.kind?_add, if_neg (Nat.ne_of_lt (SymbolTable.lt_size_of_kind? hinfo)), hinfo]

/-- Frames speak of symbols that are there. -/
theorem lt_size_of_frameSound {t : Tables} {frame : Frame} (hf : t.FrameSound frame) :
    frame.symbol < t.symbols.size := by
  have hresult := hf.result
  unfold Tables.result? at hresult
  split at hresult
  · obtain ⟨info, hinfo, -⟩ := Option.map_eq_some_iff.mp hresult
    exact SymbolTable.lt_size_of_kind? (SymbolTable.func?_eq_some.mp hinfo)
  · obtain ⟨info, hinfo, -⟩ := Option.map_eq_some_iff.mp hresult
    exact SymbolTable.lt_size_of_kind? (SymbolTable.closure?_eq_some.mp hinfo)

theorem frameSound_add {t : Tables} {frame : Frame} {entry : Symbol} (hf : t.FrameSound frame) :
    Tables.FrameSound { t with symbols := (t.symbols.add entry).2 } frame := by
  have hlt := lt_size_of_frameSound hf
  have hkind : (t.symbols.add entry).2.kind? frame.symbol = t.symbols.kind? frame.symbol := by
    rw [SymbolTable.kind?_add, if_neg (Nat.ne_of_lt hlt)]
  have hfunc : (t.symbols.add entry).2.func? frame.symbol = t.symbols.func? frame.symbol := by
    simp only [SymbolTable.func?, hkind]
  refine ⟨?_, fun hk => ?_, fun call hcall => ?_⟩
  · have hresult := hf.result
    simp only [Tables.result?, SymbolTable.closure?, hkind, hfunc] at hresult ⊢
    exact hresult
  · exact (congrArg (Option.map FuncInfo.state) hfunc).trans (hf.active hk)
  · exact inProgress_add (hf.pending call hcall)

theorem settled_declaredResult (hs : s.Sound) {decl : FuncDecl} {ret : Option TypeId}
    (h : (declaredResult decl).Gives settings s ret s') :
    s.Calm s' ∧ (∀ type, ret = some type → s'.tables.types.Settled type) ∧
      (decl.body = none ∨ decl.sig.ret.isSome → ret.isSome) := by
  unfold declaredResult at h
  split at h
  · simp only [gives_bind, gives_pure] at h
    obtain ⟨type, _, hlower, rfl, rfl⟩ := h
    obtain ⟨hcalm, hwritten⟩ := written_lowerType hs hlower
    exact ⟨hcalm, fun type' heq => Option.some.inj heq ▸ hwritten.1, fun _ => rfl⟩
  · obtain ⟨rfl, rfl⟩ := gives_pure.mp h
    exact ⟨.refl hs, fun type heq => Option.some.inj heq ▸ hs.tables.types.settled_builtin .void,
      fun _ => rfl⟩
  · next hret hbody =>
    obtain ⟨rfl, rfl⟩ := gives_pure.mp h
    exact ⟨.refl hs, by simp, by simp [hret, hbody]⟩

/-- What is known about a function that was just declared. -/
structure Declares (s : CheckState) (decl : FuncDecl) (func : SymbolId) (s' : CheckState) :
    Prop where
  sound : s'.Sound
  frames : s'.frames = s.frames
  grows : s.tables.Grows s'.tables
  declared : ∃ info, s'.tables.symbols.func? func = some info ∧ info.decl = decl ∧
    info.state = if decl.body.isSome then .unchecked else .done
  /-- It is the only new function. -/
  fresh : s.tables.symbols.func? func = none
  others : ∀ other, other ≠ func → (s'.tables.symbols.func? other).map FuncInfo.state =
    (s.tables.symbols.func? other).map FuncInfo.state
  exprs : s'.exprTypes = s.exprTypes
  assumptions : ∀ a ∈ s.assumptions, a ∈ s'.assumptions
  meanings : s.meanings.Within s'.meanings
  separates : s.Separates s'
  symbol : s'.meanings.decls.get? decl.node.id = some func
  annotated : ∀ info, s'.tables.symbols.func? func = some info → decl.sig.ret.isSome →
    info.ret.isSome

theorem declares_declareFunc (hs : s.Sound) {decl : FuncDecl} {owner : Option SymbolId}
    {func : SymbolId} (h : (declareFunc decl owner).Gives settings s func s') :
    Declares s decl func s' := by
  simp only [declareFunc, gives_bind, gives_cursor, gives_newSymbol, gives_pure] at h
  obtain ⟨params, s₁, hparams, ret, s₂, hret, _, _, ⟨rfl, rfl⟩, _, _, ⟨rfl, rfl⟩, _, s₃, hset, _, _,
    hdeclare, rfl, rfl⟩ := h
  obtain ⟨hcalm₁, hparams⟩ := settled_lowerSignature _ hs hparams
  obtain ⟨hcalm₂, hret, hsome⟩ := settled_declaredResult hcalm₁.sound hret
  have hcalm := hcalm₁.trans hcalm₂
  have hs₂ := hcalm.sound
  let info : FuncInfo := {
    decl, params, ret, owner
    state := if decl.body.isSome then .unchecked else .done
    bodyScope := none }
  have hinfo : s₂.tables.KindSound s₂.tables.symbols.size (.func info) := by
    refine ⟨fun p hp => (hparams p hp).mono hcalm₂.tables.types, hret, fun hdone => ?_, fun hne => ?_⟩
    · refine hsome (.inl (Option.not_isSome_iff_eq_none.mp fun hbody => ?_))
      simp [info, hbody] at hdone
    · by_contra hnone
      exact hne (by simp [info, hnone])
  obtain ⟨t, ht⟩ : ∃ t : Tables, t = { s₂.tables with symbols := (s₂.tables.symbols.add
    ⟨decl.name.name, decl.name.span, .func info, s₂.scopes.cursor, false, false⟩).2 } := ⟨_, rfl⟩
  have hgrows : s₂.tables.Grows t := ht ▸ .add _ (by simp)
  have hadded : CheckState.Sound { s₂ with tables := t } := by
    refine hs₂.regrow (ht ▸ hs₂.tables.add hinfo) hgrows (fun _ => ht ▸ inProgress_add)
      (fun frame hframe => ?_) hs₂.distinct rfl rfl rfl rfl rfl rfl
    exact ht ▸ frameSound_add (hs₂.frames frame hframe)
  have hfunc (other : SymbolId) : t.symbols.func? other =
      if other = s₂.tables.symbols.size then some info else s₂.tables.symbols.func? other :=
    ht ▸ SymbolTable.func?_add rfl
  have hsymbol : s₃.meanings.decls.get? decl.node.id = some s₂.tables.symbols.size := by
    obtain ⟨filled, hfill, rfl⟩ := gives_fill.mp hset
    exact (NodeMap.get?_of_fill? hfill).1
  have hset := calm_setDeclSymbol hadded (ht ▸ hset)
  have hself : t.symbols.func? s₂.tables.symbols.size = some info := by rw [hfunc, if_pos rfl]
  have hrow := mild_declareRow hset.sound (fun _ => hset.tables.toContained.isSome_func (by
    cases owner <;> exact Option.isSome_iff_exists.mpr ⟨info, hself⟩)) hdeclare
  have hbind := hset.toMild.trans hrow
  have hseparates := (hcalm.separates.trans hcalm.tables.toGrows
    (separates_tables hgrows.toContained)).trans (hcalm.tables.toGrows.trans hgrows) hbind.separates
  refine ⟨hbind.sound, hbind.frames.trans hcalm.frames, hcalm.tables.toGrows.trans
    (hgrows.trans hbind.tables.toGrows), ?_, ?_, fun other hne => ?_,
    hbind.exprs.trans hcalm.exprs, fun a ha => hbind.assumptions a (hcalm.assumptions a ha),
    hcalm.meanings.trans hbind.meanings, hseparates, hrow.meanings.decls _ _ hsymbol,
    fun info' hinfo' hdeclared => ?_⟩
  · obtain ⟨info', hinfo', hbecomes⟩ := hbind.tables.toGrows.func hself
    refine ⟨info', hinfo', hbecomes.decl, ?_⟩
    have hstate := hbind.tables.states s₂.tables.symbols.size
    rw [hinfo'] at hstate
    simpa [hself, info] using hstate
  · have hstate := hcalm.tables.states s₂.tables.symbols.size
    rw [SymbolTable.func?_size] at hstate
    exact Option.map_eq_none_iff.mp hstate.symm
  · refine ((hbind.tables.states other).trans ?_).trans (hcalm.tables.states other)
    rw [hfunc, if_neg hne]
  · obtain ⟨info'', hinfo'', hbecomes⟩ := hbind.tables.toGrows.func hself
    obtain rfl := Option.some.inj (hinfo''.symm.trans hinfo')
    obtain ⟨type, htype⟩ := Option.isSome_iff_exists.mp (hsome (.inr hdeclared))
    exact Option.isSome_iff_exists.mpr ⟨type, hbecomes.ret type htype⟩

/-! ## Opening a body -/

/-- Changing a function in what neither its parameters nor its result nor its progress depend
on. -/
theorem calm_modifyFunc (hs : s.Sound) {func : SymbolId} {info : FuncInfo}
    {f : FuncInfo → FuncInfo} (hinfo : s.tables.symbols.func? func = some info)
    (hdecl : (f info).decl = info.decl) (hparams : (f info).params = info.params)
    (hret : (f info).ret = info.ret) (hstate : (f info).state = info.state) :
    s.Calm { s with tables.symbols := s.tables.symbols.modifyFunc func f } := by
  have hsound := hs.tables.kinds _ _ (SymbolTable.func?_eq_some.mp hinfo)
  have htouches := hs.tables.touchesFunc hinfo ⟨hdecl, hparams, fun _ h => hret.trans h⟩ <| by
    simpa only [Tables.KindSound, hdecl, hparams, hret, hstate] using hsound
  refine hs.calm_tables htouches.sound ⟨htouches.grows, fun other => ?_, fun kind other ret h => ?_⟩
  · by_cases heq : func = other
    · subst heq
      simp [Tables.func?_modifyFunc hinfo, hinfo, hstate]
    · exact congrArg _ (htouches.func? heq)
  · by_cases heq : func = other
    · subst heq
      cases kind with
      | function =>
          simp only [Tables.result?, hinfo, Tables.func?_modifyFunc hinfo, Option.map_some] at h ⊢
          rw [hret]
          exact h
      | closure =>
          obtain ⟨closure, hclosure, -⟩ := Option.map_eq_some_iff.mp h
          rw [SymbolTable.func?_eq_some] at hinfo
          rw [SymbolTable.closure?_eq_some, hinfo] at hclosure
          simp at hclosure
    · exact (htouches.result? heq kind).trans h

theorem sound_pushFrame (hs : s.Sound) {frame : Frame} (hframe : s.tables.FrameSound frame)
    (hfresh : frame.symbol ∉ s.frames.map Frame.symbol) :
    CheckState.Sound { s with frames := frame :: s.frames } := by
  refine hs.regrow hs.tables (.refl _) (fun _ h => h) (fun other hother => ?_) ?_ rfl rfl rfl rfl rfl
    rfl
  · rcases List.mem_cons.mp hother with rfl | hother
    · exact hframe
    · exact hs.frames other hother
  · exact List.nodup_cons.mpr ⟨hfresh, hs.distinct⟩

/-- The state in which the statements of a body are analyzed. -/
structure Opens (s : CheckState) (frame : Frame) (s₁ s' : CheckState) : Prop where
  calm : s.Calm s₁
  push : { s₁ with frames := frame :: s₁.frames } = s'
  sound : s'.Sound
  pending : frame.pendingReturns = []

theorem Opens.leads {frame : Frame} {s₁ : CheckState} (h : Opens s frame s₁ s') : s.Leads s' := by
  have hleads := h.calm.leads
  rw [← h.push]
  exact ⟨hleads.grows, hleads.states, hleads.progress, hleads.assumptions, hleads.meanings,
    hleads.separates⟩

theorem opens_openClosure (hs : s.Sound) {node : Node} {sig : Signature}
    (h : (openClosure node sig).Gives settings s () s') :
    ∃ s₁ frame, Opens s frame s₁ s' ∧ frame.kind = .closure ∧
      s₁.meanings.exprs.get? node.id = some frame.symbol ∧
      s.tables.symbols.size ≤ frame.symbol := by
  simp only [openClosure, gives_bind, gives_frame?, gives_cursor] at h
  obtain ⟨params, s₁, hparams, declared, s₂, hdeclared, _, _, ⟨rfl, rfl⟩, _, _, ⟨rfl, rfl⟩, _, _,
    ⟨rfl, rfl⟩, closure, s₃, hnew, _, s₄, huse, _, s₅, hnote, scope, s₆, henter, _, s₇, hscope, _,
    s₈, hdeclare, hpush⟩ := h
  obtain ⟨hcalm₁, hparams⟩ := settled_lowerSignature _ hs hparams
  obtain ⟨hcalm₂, hdeclared⟩ := settled_lowerOptional hcalm₁.sound hdeclared
  have hparams (p : ExprType) (hp : p ∈ params) := (hparams p hp).mono hcalm₂.tables.types
  obtain ⟨hcalm₃, hkind⟩ :=
    calm_newSymbol hcalm₂.sound hnew ⟨hparams, hdeclared, by simp⟩ (by simp) (by simp)
  obtain ⟨rfl, -⟩ := gives_newSymbol.mp hnew
  have hclosure := SymbolTable.closure?_eq_some.mpr hkind
  have hcalm₄ := calm_useSymbol hcalm₃.sound huse
  have hmeaning : s₄.meanings.exprs.get? node.id = some s₂.tables.symbols.size := by
    simp only [useSymbol, gives_bind] at huse
    obtain ⟨_, _, -, hset⟩ := huse
    obtain ⟨filled, hfill, rfl⟩ := gives_fill.mp hset
    exact (NodeMap.get?_of_fill? hfill).1
  have hcalm₅ : s₄.Calm s₅ := by
    obtain rfl := gives_update.mp hnote
    exact hcalm₄.sound.quiet rfl (.refl _) rfl rfl rfl rfl rfl rfl (.refl _) (fun _ h => .inl h)
      fun _ => rfl
  have hcalm₆ := calm_enterScope hcalm₅.sound henter
  have hcalm₇ : s₆.Calm s₇ := by
    obtain ⟨-, rfl⟩ := gives_modifyAt.mp hscope
    exact calm_modifyClosure hcalm₆.sound _ (fun _ => rfl) (fun _ => rfl) fun _ _ h => .inl h
  have hopened := ((hcalm₄.trans hcalm₅).trans hcalm₆).trans hcalm₇
  have hparams₇ : ∀ p ∈ sig.params.zip params, s₇.tables.types.Settled p.2.type := by
    intro p hp
    exact (hparams p.2 (List.of_mem_zip hp).2).mono (hcalm₃.tables.types.trans hopened.tables.types)
  have hcalm₈ := calm_declareParams _ hcalm₇.sound hparams₇ hdeclare
  have hcalm := ((hcalm₁.trans hcalm₂).trans hcalm₃).trans (hopened.trans hcalm₈)
  have hresult := (hopened.trans hcalm₈).tables.results .closure s₂.tables.symbols.size declared
    (by simp [Tables.result?, hclosure])
  have hle := (hcalm₁.trans hcalm₂).tables.toGrows.size_le
  obtain rfl := gives_update.mp hpush
  refine ⟨s₈, _, ⟨hcalm, rfl, sound_pushFrame hcalm.sound ⟨?_, by simp, by simp⟩ ?_, rfl⟩, rfl, ?_,
    hle⟩
  · cases declared <;> exact hresult
  · intro hmem
    obtain ⟨frame, hframe, heq⟩ := List.mem_map.mp hmem
    rw [hcalm.frames] at hframe
    have heq : frame.symbol = s₂.tables.symbols.size := heq
    exact absurd (heq ▸ lt_size_of_frameSound (hs.frames frame hframe)) (Nat.not_lt.mpr hle)
  · exact (((hcalm₅.trans hcalm₆).trans hcalm₇).trans hcalm₈).meanings.exprs _ _ hmeaning

theorem opens_openBody (hs : s.Sound) {func : SymbolId} {info : FuncInfo}
    (hinfo : s.tables.symbols.func? func = some { info with state := .inProgress })
    (hfresh : func ∉ s.frames.map Frame.symbol)
    (h : (openBody func info).Gives settings s () s') :
    ∃ s₁ frame, Opens s frame s₁ s' ∧ frame.symbol = func ∧ frame.kind = .function := by
  simp only [openBody, gives_bind] at h
  obtain ⟨scope, s₁, henter, _, s₂, hscope, h⟩ := h
  have hcalm₁ := calm_enterScope hs henter
  obtain ⟨info₁, hinfo₁, hbecomes⟩ := hcalm₁.tables.toGrows.func hinfo
  have hcalm₂ : s₁.Calm s₂ := by
    obtain ⟨-, rfl⟩ := gives_modifyAt.mp hscope
    exact calm_modifyFunc hcalm₁.sound hinfo₁ rfl rfl rfl rfl
  have hcalm := hcalm₁.trans hcalm₂
  have hparams : ∀ p ∈ info.params, s₂.tables.types.Settled p.type := fun p hp =>
    ((hs.tables.kinds _ _ (SymbolTable.func?_eq_some.mp hinfo)).1 p hp).mono hcalm.tables.types
  have finish {s₃ : CheckState} {ret : ReturnSlot} (hcalm₃ : s₂.Calm s₃) (h : Gives (do
      declareParams (info.decl.sig.params.zip info.params)
      pushFrame { symbol := func, kind := .function, scope := scope, ret := ret })
      settings s₃ () s')
      (hret : info.ret = none ∧ ret = .deduced none ∨
        ∃ type, info.ret = some type ∧ ret = .declared type) :
      ∃ s₁ frame, Opens s frame s₁ s' ∧ frame.symbol = func ∧ frame.kind = .function := by
    rw [gives_bind] at h
    obtain ⟨_, s₄, hdeclare, hpush⟩ := h
    have hcalm₄ := calm_declareParams _ hcalm₃.sound (fun p hp =>
      (hparams p.2 (List.of_mem_zip hp).2).mono hcalm₃.tables.types) hdeclare
    have hall := (hcalm.trans hcalm₃).trans hcalm₄
    obtain rfl := gives_update.mp hpush
    have hresult := hall.tables.results .function func info.ret (by simp [Tables.result?, hinfo])
    refine ⟨s₄, _, ⟨hall, rfl, sound_pushFrame hall.sound ⟨?_, fun _ => ?_, by simp⟩ ?_, rfl⟩, rfl,
      rfl⟩
    · rcases hret with ⟨hret, rfl⟩ | ⟨type, hret, rfl⟩ <;> rw [hret] at hresult <;> exact hresult
    · exact hall.tables.inProgress.mpr (congrArg (Option.map FuncInfo.state) hinfo)
    · rw [hall.frames]
      exact hfresh
  split at h
  · rw [gives_bind] at h
    obtain ⟨type, s₃, htype, h⟩ := h
    obtain ⟨hcalm₃, hwritten⟩ := written_typeOfSymbol hcalm₂.sound htype
    rw [gives_bind] at h
    obtain ⟨self, s₄, hself, h⟩ := h
    refine finish (hcalm₃.trans (calm_declareObject hcalm₃.sound hwritten.1 hself).1) h ?_
    cases info.ret <;> simp
  · refine finish (.refl hcalm₂.sound) h ?_
    cases info.ret <;> simp

/-! ## Closing a body -/

/-- The innermost body ends with a result. -/
structure Closes (s : CheckState) (frame : Frame) (rest : List Frame) (ret : TypeId)
    (s' : CheckState) : Prop where
  frames : s.frames = frame :: rest
  expected : frame.ret.expected = some ret ∨ frame.ret.expected = none ∧
    frame.pendingReturns = [] ∧ ret = Builtin.void.typeId
  verified : ∀ a ∈ s.assumptions ++ frame.notes ret, a.func = frame.symbol →
    s.tables.same a.type ret = true
  settled : s.tables.types.Settled ret
  settles : CheckState.SettlesTo { s with
    frames := rest
    assumptions := (s.assumptions ++ frame.notes ret).filter fun a => a.func != frame.symbol }
    frame.symbol ret (fun _ => True) s'

theorem exists_get?_of_callable {t : Tables} {type : TypeId} (h : t.Callable type) :
    ∃ ty, t.types.get? type = some ty := by
  rcases h with (h | ⟨func, -, h⟩) | ⟨params, ret, h, -⟩
  · exact h.1.imp fun _ h => h.1
  · exact ⟨_, h⟩
  · exact ⟨_, h⟩

/-- Every expression has a type that the table holds. -/
theorem inRange_of_sound (hs : s.Sound) : s.InRange :=
  fun node typing htyping => exists_get?_of_callable (hs.exprs node typing htyping)

/-- The result of the innermost body is settled when the body ends. -/
theorem settled_of_expected (hs : s.Sound) {frame : Frame} {rest : List Frame} {ret : TypeId}
    (hframes : s.frames = frame :: rest)
    (hexpected : frame.ret.expected = some ret ∨ frame.ret.expected = none ∧
      frame.pendingReturns = [] ∧ ret = Builtin.void.typeId) : s.tables.types.Settled ret := by
  have hframe := hs.frames frame (hframes ▸ List.mem_cons_self)
  rcases hexpected with hret | ⟨-, -, rfl⟩
  · exact hs.tables.settled_result (hret ▸ hframe.result)
  · exact hs.tables.types.settled_builtin .void

theorem closes_finishBody (hs : s.Sound) {frame : Frame} {body : List Stmt} {span : Span}
    {ret : TypeId} {s₁ : CheckState} (hpop : popFrame.Gives settings s frame s₁)
    (hfinish : (finishBody frame body span).Gives settings s₁ ret s') :
    ∃ rest, Closes s frame rest ret s' := by
  obtain ⟨rest, hframes, rfl⟩ := gives_popFrame.mp hpop
  obtain ⟨hexpected, hverified, -, rfl⟩ := finishBody_gives hfinish
  have hsettled := settled_of_expected hs hframes hexpected
  exact ⟨rest, hframes, hexpected, hverified, hsettled,
    settlesTo_resolvePending hs.tables.types hsettled fun node => inRange_of_sound hs node⟩

/-- A body with a result returns on every path through it. -/
theorem ends_finishBody {frame : Frame} {body : List Stmt} {span : Span} {ret : TypeId}
    {s₁ : CheckState} (hpop : popFrame.Gives settings s frame s₁)
    (hfinish : (finishBody frame body span).Gives settings s₁ ret s') :
    s.tables.isVoid ret = true ∨ stmtsReturn body = true := by
  obtain ⟨rest, -, rfl⟩ := gives_popFrame.mp hpop
  obtain ⟨-, -, hends, -⟩ := finishBody_gives hfinish
  exact hends.imp_left And.right

theorem ends_closeBody {decl : FuncDecl} {body : List Stmt} {ret : TypeId}
    (h : (closeBody decl body).Gives settings s ret s') :
    s.tables.isVoid ret = true ∨ stmtsReturn body = true := by
  simp only [closeBody, gives_bind, gives_pure] at h
  obtain ⟨frame, s₁, hpop, _, s₂, hfinish, _, _, -, rfl, -⟩ := h
  exact ends_finishBody hpop hfinish

namespace Closes

variable {frame : Frame} {rest : List Frame} {ret : TypeId} {t : Tables}

theorem symbols (h : Closes s frame rest ret s') : s'.tables.symbols = s.tables.symbols :=
  congrArg (·.tables.symbols) h.settles.rest

theorem grows (h : Closes s frame rest ret s') : s.tables.Grows s'.tables :=
  .of_alike h.settles.within (h.symbols ▸ .refl _)

theorem sound_tables (h : Closes s frame rest ret s') (hs : s.Sound) : s'.tables.Sound := by
  refine ⟨h.settles.sound, fun id kind hkind => ?_, fun type ty symbol htype hsymbol => ?_⟩
  · rw [h.symbols] at hkind
    exact (hs.tables.kinds id kind hkind).widens h.grows.widens
  · have hold := h.settles.named type ty symbol htype hsymbol
    exact Nat.lt_of_lt_of_le (hs.tables.named type ty symbol hold hsymbol) h.grows.size_le

/-- The type of an expression after the body has ended is built on other placeholders only. -/
theorem callable (h : Closes s frame rest ret s') {type type' : TypeId}
    (hcallable : s.tables.Callable type)
    (hsettling : s.tables.types.Settling s'.tables.types frame.symbol ret type type')
    (hw : s'.tables.types.Within t.types)
    (hp : ∀ func, frame.symbol ≠ func → s.tables.InProgress func → t.InProgress func) :
    t.Callable type' := by
  have hw' : s.tables.types.Within t.types := TypeTable.Within.trans h.settles.within hw
  cases hsettling with
  | placeholder _ => exact .inl (.inl (h.settled.mono hw'))
  | result _ _ htype' =>
      have htype' := hw _ _ htype'
      refine .inl (.inl ⟨⟨_, htype', by simp⟩, fun params' ret' hfunc => ?_⟩)
      obtain ⟨-, rfl⟩ := Ty.func.inj (Option.some.inj (htype'.symm.trans hfunc))
      exact h.settled.1.mono hw'
  | other hself hresult =>
      rcases hcallable with (hsettled | ⟨func, hfunc, htype⟩) | ⟨params, result, htype, func, hfunc,
        hpending⟩
      · exact .inl (.inl (hsettled.mono hw'))
      · have hne : frame.symbol ≠ func := fun heq => hself (heq ▸ htype)
        exact .inl (.inr ⟨func, hp func hne hfunc, hw' _ _ htype⟩)
      · have hne : frame.symbol ≠ func := fun heq => hresult params result htype (heq ▸ hpending)
        exact .inr ⟨params, result, hw' _ _ htype, func, hp func hne hfunc, hw' _ _ hpending⟩

/-- A state after a body has ended is sound, whatever is noted with the symbol of the body. -/
theorem sound (h : Closes s frame rest ret s') (hs : s.Sound)
    (htouches : s'.tables.Touches frame.symbol t)
    (hrest : ∀ other ∈ rest, ∀ call ∈ other.pendingReturns, call.callee ≠ frame.symbol) :
    CheckState.Sound { s' with tables := t } := by
  have hgrows := h.grows.trans htouches.grows
  have hw := hgrows.types
  have hsymbols := h.symbols
  have hp (func : SymbolId) (hne : frame.symbol ≠ func) (hf : s.tables.InProgress func) :
      t.InProgress func := by
    refine (htouches.inProgress hne).mpr ?_
    unfold Tables.InProgress
    rwa [hsymbols]
  have hdistinct := hs.distinct
  rw [h.frames, List.map_cons, List.nodup_cons] at hdistinct
  rw [h.settles.rest]
  refine ⟨htouches.sound, fun node typing' htyping' => ?_, fun other hother => ?_, hdistinct.2,
    fun a ha => ?_, fun r hr => (hs.transfers r hr).mono hw,
    fun d hd => (hs.defaults d hd).mono hw, fun node type h =>
      (hs.remembered node type h).widens hgrows.widens,
    fun id hid => hgrows.toContained.isSome_func (hs.statics id hid)⟩
  · cases hnode : s.exprTypes.get? node with
    | none => simp [h.settles.untyped node hnode] at htyping'
    | some typing =>
        obtain ⟨type', htype', hsettling⟩ := h.settles.typed node typing hnode trivial
        obtain rfl := Option.some.inj (htype'.symm.trans htyping')
        exact h.callable (hs.exprs node typing hnode) hsettling htouches.grows.types hp
  · have hne : frame.symbol ≠ other.symbol := fun heq =>
      hdistinct.1 (heq ▸ List.mem_map_of_mem hother)
    have hother' := hs.frames other (h.frames ▸ List.mem_cons_of_mem _ hother)
    refine ⟨(htouches.result? hne _).trans ?_, fun hk => hp _ hne (hother'.active hk),
      fun call hc => hp _ (hrest other hother call hc).symm (hother'.pending call hc)⟩
    have hresult := hother'.result
    unfold Tables.result? at hresult ⊢
    rwa [hsymbols]
  · obtain ⟨hmem, hne⟩ := List.mem_filter.mp ha
    have hne : frame.symbol ≠ a.func := fun heq => by simp [heq] at hne
    rcases List.mem_append.mp hmem with hold | hnew
    · exact ⟨hp _ hne (hs.assumptions a hold).1, (hs.assumptions a hold).2.mono hw⟩
    · obtain ⟨call, hcall, rfl⟩ := List.mem_map.mp hnew
      have hframe := hs.frames frame (h.frames ▸ List.mem_cons_self)
      exact ⟨hp _ hne (hframe.pending call (List.mem_filter.mp hcall).1), h.settled.mono hw⟩

end Closes

/-- Nothing that was assumed about other functions is lost. -/
theorem Closes.assumptions {frame : Frame} {rest : List Frame} {ret : TypeId}
    (h : Closes s frame rest ret s') {a : Assumption} (ha : a ∈ s.assumptions)
    (hne : a.func ≠ frame.symbol) : a ∈ s'.assumptions := by
  rw [h.settles.rest]
  exact List.mem_filter.mpr ⟨List.mem_append_left _ ha, by simpa using hne⟩

/-- A type found while the body was not under analysis is not replaced. -/
theorem eq_of_settling {t t₀ : Tables} {t' : TypeTable} {func : SymbolId} {ret type type' : TypeId}
    (h : t.types.Settling t' func ret type type') (hcallable : t₀.Callable type)
    (hnot : ¬ t₀.InProgress func) (hw : t₀.types.Within t.types) : type' = type := by
  have hne {other : SymbolId} (hother : t₀.InProgress other) : other ≠ func := by
    rintro rfl
    exact hnot hother
  rcases hcallable with (hsettled | ⟨other, hother, hpending⟩) | ⟨params, result, htype, other,
    hother, hpending⟩
  · exact h.eq_of_settled (hsettled.mono hw)
  · exact h.eq_of_pending (hw _ _ hpending) (hne hother)
  · have htype := hw _ _ htype
    have hpending := hw _ _ hpending
    cases h with
    | placeholder h => simp [htype] at h
    | result h hresult _ =>
        obtain ⟨-, rfl⟩ := Ty.func.inj (Option.some.inj (htype.symm.trans h))
        exact absurd (Ty.pending.inj (Option.some.inj (hpending.symm.trans hresult))) (hne hother)
    | other _ _ => rfl

/-- An expression that was typed while the body was not under analysis keeps its type. -/
theorem Closes.kept {frame : Frame} {rest : List Frame} {ret : TypeId} {s₀ : CheckState}
    (h : Closes s frame rest ret s') (hs₀ : s₀.Sound) (hnot : ¬ s₀.tables.InProgress frame.symbol)
    (hw : s₀.tables.types.Within s.tables.types) {node : Nat} {typing : Typing}
    (hnode₀ : s₀.exprTypes.get? node = some typing) (hnode : s.exprTypes.get? node = some typing) :
    s'.exprTypes.get? node = some typing := by
  obtain ⟨type', htype', hsettling⟩ := h.settles.typed node typing hnode trivial
  rw [htype', eq_of_settling hsettling (hs₀.exprs node typing hnode₀) hnot hw]

/-- A closure that ends has a settled type and leaves the bodies around it as they were. -/
structure ClosesClosure (s : CheckState) (frame : Frame) (rest : List Frame) (ret : TypeId)
    (type : ExprType) (s' : CheckState) : Prop where
  sound : s'.Sound
  leads : s.Leads s'
  frames : s'.frames = rest
  settled : s'.tables.types.Settled type.type
  exprs : ∀ node, s'.exprTypes.get? node = s.exprTypes.get? node
  states : ∀ func, (s'.tables.symbols.func? func).map FuncInfo.state =
    (s.tables.symbols.func? func).map FuncInfo.state
  result : s'.tables.result? .closure frame.symbol = some (some ret)
  expected : frame.ret.expected = some ret ∨ frame.ret.expected = none ∧
    frame.pendingReturns = [] ∧ ret = Builtin.void.typeId
  notes : ∀ a ∈ frame.notes ret, a ∈ s'.assumptions

theorem closesClosure_closeClosure (hs : s.Sound) {frame : Frame} {rest : List Frame}
    (hframes : s.frames = frame :: rest) (hkind : frame.kind = .closure) {node : Node}
    {body : List Stmt} {type : ExprType}
    (h : (closeClosure node body).Gives settings s type s') :
    ∃ ret, ClosesClosure s frame rest ret type s' ∧
      (s.tables.isVoid ret = true ∨ stmtsReturn body = true) := by
  simp only [closeClosure, gives_bind, gives_tables, gives_require, gives_pure] at h
  obtain ⟨frame', s₁, hpop, ret, s₂, hfinish, _, s₃, hleave, _, s₄, hresult, _, _, ⟨rfl, rfl⟩, info,
    _, ⟨hinfo, rfl⟩, _, _, hintern, rfl, rfl⟩ := h
  obtain ⟨rest', hcloses⟩ := closes_finishBody hs hpop hfinish
  obtain ⟨rfl, rfl⟩ := List.cons.inj (hcloses.frames.symm.trans hframes)
  obtain ⟨-, rfl⟩ := gives_leaveScope.mp hleave
  obtain ⟨-, rfl⟩ := gives_modifyAt.mp hresult
  have hframe := hs.frames frame' (hframes ▸ List.mem_cons_self)
  obtain ⟨closure, hclosure, hret⟩ : ∃ closure, s.tables.symbols.closure? frame'.symbol = some closure ∧
      closure.ret = frame'.ret.expected := by
    have hresult := hframe.result
    rw [hkind] at hresult
    exact Option.map_eq_some_iff.mp hresult
  have hne (func : SymbolId) (hf : s.tables.InProgress func) : func ≠ frame'.symbol := by
    rintro rfl
    obtain ⟨info, hinfo, -⟩ := Option.map_eq_some_iff.mp hf
    rw [SymbolTable.func?_eq_some] at hinfo
    rw [SymbolTable.closure?_eq_some, hinfo] at hclosure
    simp at hclosure
  have hold : ∃ old, s₂.tables.result? .closure frame'.symbol = some old ∧
      ∀ r, old = some r → r = ret := by
    refine ⟨frame'.ret.expected, ?_, fun r hr => ?_⟩
    · simp only [Tables.result?, hcloses.symbols, hclosure, Option.map_some, hret]
    · rcases hcloses.expected with heq | ⟨heq, -⟩
      · exact Option.some.inj (hr.symm.trans heq)
      · simp [heq] at hr
  have hsettled := hcloses.settled.mono hcloses.grows.types
  obtain ⟨htouches, hnoted, hstates⟩ := (hcloses.sound_tables hs).withResult hold hsettled
  have hsound := hcloses.sound hs htouches fun other hother call hcall =>
    hne _ ((hs.frames other (hframes ▸ List.mem_cons_of_mem _ hother)).pending call hcall)
  have hs₃ := (calm_leave hsound).sound
  have hstates (func : SymbolId) :
      ((s₂.tables.withResult .closure frame'.symbol ret).symbols.func? func).map FuncInfo.state =
        (s.tables.symbols.func? func).map FuncInfo.state :=
    (hstates func).trans (by rw [hcloses.symbols])
  have hparams : ∀ p ∈ info.params.map fun p => (p.refKind, p.type),
      s₂.tables.types.Settled p.2 := by
    intro p hp
    obtain ⟨q, hq, rfl⟩ := List.mem_map.mp hp
    exact (hs₃.tables.kinds _ _ (SymbolTable.closure?_eq_some.mp hinfo)).1 q hq
  obtain ⟨hcalm, hwritten⟩ := written_internFunc hs₃ hparams hsettled hintern
  have hrest := congrArg CheckState.frames hcloses.settles.rest
  have hmeanings := congrArg CheckState.meanings hcloses.settles.rest
  have hleads : s.Leads { s₂ with
      tables := s₂.tables.withResult .closure frame'.symbol ret
      scopes := s₂.scopes.leave } := by
    refine ⟨hcloses.grows.trans htouches.grows, fun func info' hinfo' => ?_,
      fun func hf => (hstates func).trans hf,
      fun a ha => hcloses.assumptions ha (hne _ (hs.assumptions a ha).1), ?_,
      separates_of_contained (hcloses.grows.trans htouches.grows).toContained fun scope => ?_⟩
    · refine .inr (Option.map_eq_some_iff.mp ?_)
      rw [← hstates func]
      exact congrArg (Option.map FuncInfo.state) hinfo'
    · exact hmeanings ▸ .refl _
    · exact congrArg (·.scopes.rows scope) hcloses.settles.rest
  refine ⟨ret, ⟨hcalm.sound, hleads.trans hcalm.leads, hcalm.frames.trans hrest, hwritten.1,
    fun node => ?_, fun func => (hcalm.tables.states func).trans (hstates func),
    hcalm.tables.results _ _ _ hnoted, hcloses.expected,
    fun a ha => hcalm.assumptions a ?_⟩, ends_finishBody hpop hfinish⟩
  · rw [hcalm.exprs]
    cases hnode : s.exprTypes.get? node with
    | none => exact hcloses.settles.untyped node hnode
    | some typing => exact hcloses.kept hs (fun hf => hne _ hf rfl) (.refl _) hnode hnode
  · change a ∈ s₂.assumptions
    rw [hcloses.settles.rest]
    refine List.mem_filter.mpr ⟨List.mem_append_right _ ha, ?_⟩
    obtain ⟨call, hcall, rfl⟩ := List.mem_map.mp ha
    exact (List.mem_filter.mp hcall).2

end Check

end Stela
