import Stela.Check.Body
import Stela.Proofs.Check.Lowering
import Stela.Proofs.Check.Settling

/-!
# The innermost body

Statements change the innermost frame only: a `return` may find the result type
of the body, or leave it to a call whose own result is not known yet. What the
frames say about results agrees with the symbols of the bodies all along.
-/

namespace Stela

/-- How a body under analysis may change. -/
structure Frame.Becomes (frame frame' : Frame) : Prop where
  symbol : frame'.symbol = frame.symbol
  kind : frame'.kind = frame.kind
  expected : ∀ type, frame.ret.expected = some type → frame'.ret.expected = some type
  pending : ∀ call ∈ frame.pendingReturns, call ∈ frame'.pendingReturns

theorem Frame.Becomes.refl (frame : Frame) : frame.Becomes frame :=
  ⟨rfl, rfl, fun _ h => h, fun _ h => h⟩

theorem Frame.Becomes.trans {frame frame' frame'' : Frame} (h : frame.Becomes frame')
    (h' : frame'.Becomes frame'') : frame.Becomes frame'' :=
  ⟨h'.symbol.trans h.symbol, h'.kind.trans h.kind,
    fun type ht => h'.expected type (h.expected type ht),
    fun call hc => h'.pending call (h.pending call hc)⟩

/-- The innermost frame changes at most. -/
inductive FramesGrow : List Frame → List Frame → Prop
  | nil : FramesGrow [] []
  | cons {frame frame' rest} (h : frame.Becomes frame') : FramesGrow (frame :: rest) (frame' :: rest)

theorem FramesGrow.refl (frames : List Frame) : FramesGrow frames frames := by
  cases frames with
  | nil => exact .nil
  | cons frame rest => exact .cons (.refl frame)

theorem FramesGrow.trans {frames frames' frames'' : List Frame} (h : FramesGrow frames frames')
    (h' : FramesGrow frames' frames'') : FramesGrow frames frames'' := by
  cases h with
  | nil => exact h'
  | cons h =>
      cases h' with
      | cons h' => exact .cons (h.trans h')

theorem FramesGrow.cons_inv {frame : Frame} {rest frames : List Frame}
    (h : FramesGrow (frame :: rest) frames) :
    ∃ frame', frames = frame' :: rest ∧ frame.Becomes frame' := by
  cases h with
  | cons h => exact ⟨_, rfl, h⟩

theorem FramesGrow.cons_of {frame' : Frame} {rest frames : List Frame}
    (h : FramesGrow frames (frame' :: rest)) :
    ∃ frame, frames = frame :: rest ∧ frame.Becomes frame' := by
  cases h with
  | cons h => exact ⟨_, rfl, h⟩

namespace CheckState

/-- What holds around any part of the analysis that starts in a sound state. -/
structure Keeps (s s' : CheckState) : Prop where
  sound : s'.Sound
  leads : s.Leads s'
  frames : FramesGrow s.frames s'.frames

variable {s s' s'' : CheckState}

theorem Keeps.trans (h : s.Keeps s') (h' : s'.Keeps s'') : s.Keeps s'' :=
  ⟨h'.sound, h.leads.trans h'.leads, h.frames.trans h'.frames⟩

theorem Mild.keeps (h : s.Mild s') : s.Keeps s' :=
  ⟨h.sound, h.leads, h.frames ▸ .refl s.frames⟩

theorem Keeps.refl (hs : s.Sound) : s.Keeps s := (Calm.refl hs).keeps

/-- What holds around a step that neither types an expression nor changes how far a body is. -/
structure Steps (s s' : CheckState) : Prop extends s.Keeps s' where
  states : ∀ func, (s'.tables.symbols.func? func).map FuncInfo.state =
    (s.tables.symbols.func? func).map FuncInfo.state
  exprs : s'.exprTypes = s.exprTypes

theorem Steps.trans (h : s.Steps s') (h' : s'.Steps s'') : s.Steps s'' :=
  ⟨h.toKeeps.trans h'.toKeeps, fun func => (h'.states func).trans (h.states func),
    h'.exprs.trans h.exprs⟩

theorem Mild.steps (h : s.Mild s') : s.Steps s' := ⟨h.keeps, h.tables.states, h.exprs⟩

theorem Steps.refl (hs : s.Sound) : s.Steps s := (Calm.refl hs).steps

/-- What holds around a part of the analysis that changes no frame. -/
structure Stays (s s' : CheckState) : Prop where
  sound : s'.Sound
  leads : s.Leads s'
  frames : s'.frames = s.frames

theorem Stays.trans (h : s.Stays s') (h' : s'.Stays s'') : s.Stays s'' :=
  ⟨h'.sound, h.leads.trans h'.leads, h'.frames.trans h.frames⟩

theorem Mild.stays (h : s.Mild s') : s.Stays s' := ⟨h.sound, h.leads, h.frames⟩

theorem Stays.refl (hs : s.Sound) : s.Stays s := (Calm.refl hs).stays

theorem Stays.keeps (h : s.Stays s') : s.Keeps s' :=
  ⟨h.sound, h.leads, h.frames ▸ .refl s.frames⟩

/-- A state stays sound if its tables grow and its frames are sound for them. -/
theorem Sound.regrow (hs : s.Sound) (ht : s'.tables.Sound) (hg : s.tables.Grows s'.tables)
    (hp : ∀ func, s.tables.InProgress func → s'.tables.InProgress func)
    (hframes : ∀ frame ∈ s'.frames, s'.tables.FrameSound frame)
    (hdistinct : (s'.frames.map Frame.symbol).Nodup) (hexprs : s'.exprTypes = s.exprTypes)
    (hassumptions : s'.assumptions = s.assumptions) (htransfers : s'.transfers = s.transfers)
    (hdefaults : s'.defaults = s.defaults) (hremembered : s'.meanings.types = s.meanings.types)
    (hscopes : s'.scopes = s.scopes) : s'.Sound := by
  have hw := hg.types
  refine ⟨ht, ?_, hframes, hdistinct, ?_, ?_, ?_, ?_, fun id hid => ?_⟩
  · intro node typing htyping
    exact (hs.exprs node typing (hexprs ▸ htyping)).mono hw hp
  · intro a ha
    obtain ⟨hfunc, htype⟩ := hs.assumptions a (hassumptions ▸ ha)
    exact ⟨hp _ hfunc, htype.mono hw⟩
  · intro r hr
    exact (hs.transfers r (htransfers ▸ hr)).mono hw
  · intro d hd
    exact (hs.defaults d (hdefaults ▸ hd)).mono hw
  · intro node type htype
    exact (hs.remembered node type (hremembered ▸ htype)).widens hg.widens
  · exact hg.toContained.isSome_func (hs.statics id (hscopes ▸ hid))

end CheckState

/-! ## Details of one function or closure -/

namespace Tables

/-- The details of one symbol change, as far as they may. -/
structure Touches (t : Tables) (id : SymbolId) (t' : Tables) : Prop where
  sound : t'.Sound
  grows : t.Grows t'
  types : t'.types = t.types
  others : ∀ other, id ≠ other → t'.symbols.kind? other = t.symbols.kind? other

variable {t t' : Tables} {id other : SymbolId} {frame : Frame}

namespace Touches

theorem func? (h : t.Touches id t') (hne : id ≠ other) :
    t'.symbols.func? other = t.symbols.func? other := by
  simp only [SymbolTable.func?, h.others other hne]

theorem result? (h : t.Touches id t') (hne : id ≠ other) (kind : FrameKind) :
    t'.result? kind other = t.result? kind other := by
  cases kind with
  | function => simp only [Tables.result?, h.func? hne]
  | closure => simp only [Tables.result?, SymbolTable.closure?, h.others other hne]

theorem inProgress (h : t.Touches id t') (hne : id ≠ other) :
    t'.InProgress other ↔ t.InProgress other := by
  simp only [InProgress, h.func? hne]

/-- What a frame of another body says still holds. -/
theorem frameSound (h : t.Touches id t') (hne : id ≠ frame.symbol) (hf : t.FrameSound frame)
    (hp : ∀ call ∈ frame.pendingReturns, t'.InProgress call.callee) : t'.FrameSound frame :=
  ⟨(h.result? hne _).trans hf.result, fun hk => (h.inProgress hne).mpr (hf.active hk), hp⟩

end Touches

theorem Sound.touchesFunc (h : t.Sound) {info : FuncInfo} {f : FuncInfo → FuncInfo}
    (hinfo : t.symbols.func? id = some info) (hbecomes : info.Becomes (f info))
    (hsound : t.KindSound id (.func (f info))) :
    t.Touches id { t with symbols := t.symbols.modifyFunc id f } := by
  rw [SymbolTable.func?_eq_some] at hinfo
  have hgrows : t.Grows { t with symbols := t.symbols.modifyFunc id f } := by
    refine .modifyKind t id fun kind hkind => ?_
    obtain rfl := Option.some.inj (hinfo.symm.trans hkind)
    exact .func hbecomes
  refine ⟨h.modifyKind hgrows.widens fun kind hkind _ => ?_, hgrows, rfl,
    fun other hne => SymbolTable.kind?_modifyKind_ne hne⟩
  obtain rfl := Option.some.inj (hinfo.symm.trans hkind)
  exact hsound

theorem Sound.touchesClosure (h : t.Sound) {info : ClosureInfo} {f : ClosureInfo → ClosureInfo}
    (hinfo : t.symbols.closure? id = some info) (hbecomes : info.Becomes (f info))
    (hsound : t.KindSound id (.closure (f info))) :
    t.Touches id { t with symbols := t.symbols.modifyClosure id f } := by
  rw [SymbolTable.closure?_eq_some] at hinfo
  have hgrows : t.Grows { t with symbols := t.symbols.modifyClosure id f } := by
    refine .modifyKind t id fun kind hkind => ?_
    obtain rfl := Option.some.inj (hinfo.symm.trans hkind)
    exact .closure hbecomes
  refine ⟨h.modifyKind hgrows.widens fun kind hkind _ => ?_, hgrows, rfl,
    fun other hne => SymbolTable.kind?_modifyKind_ne hne⟩
  obtain rfl := Option.some.inj (hinfo.symm.trans hkind)
  exact hsound

/-- A result that is noted is settled. -/
theorem Sound.settled_result (h : t.Sound) {kind : FrameKind} {ret : TypeId}
    (hresult : t.result? kind id = some (some ret)) : t.types.Settled ret := by
  cases kind with
  | function =>
      obtain ⟨info, hinfo, hret⟩ := Option.map_eq_some_iff.mp hresult
      exact (h.kinds _ _ (SymbolTable.func?_eq_some.mp hinfo)).2.1 ret hret
  | closure =>
      obtain ⟨info, hinfo, hret⟩ := Option.map_eq_some_iff.mp hresult
      exact (h.kinds _ _ (SymbolTable.closure?_eq_some.mp hinfo)).2.1 ret hret

theorem func?_modifyFunc {info : FuncInfo} {f : FuncInfo → FuncInfo}
    (hinfo : t.symbols.func? id = some info) :
    (t.symbols.modifyFunc id f).func? id = some (f info) := by
  rw [SymbolTable.func?_eq_some] at hinfo ⊢
  exact SymbolTable.kind?_modifyKind_of hinfo

theorem closure?_modifyClosure {info : ClosureInfo} {f : ClosureInfo → ClosureInfo}
    (hinfo : t.symbols.closure? id = some info) :
    (t.symbols.modifyClosure id f).closure? id = some (f info) := by
  rw [SymbolTable.closure?_eq_some] at hinfo ⊢
  exact SymbolTable.kind?_modifyKind_of hinfo

theorem func?_modifyClosure {f : ClosureInfo → ClosureInfo} :
    (t.symbols.modifyClosure id f).func? other = t.symbols.func? other := by
  refine Option.ext fun info => ?_
  simp only [SymbolTable.func?_eq_some, SymbolTable.modifyClosure, SymbolTable.kind?_modifyKind]
  split
  · cases h : t.symbols.kind? other with
    | none => simp
    | some kind => cases kind <;> simp
  · rfl

/-- Noting the result type of a function or closure that has none. -/
def withResult (t : Tables) (kind : FrameKind) (id : SymbolId) (type : TypeId) : Tables :=
  match kind with
  | .function => { t with symbols := t.symbols.modifyFunc id fun i => { i with ret := some type } }
  | .closure =>
    { t with symbols := t.symbols.modifyClosure id fun i => { i with ret := some type } }

theorem Sound.withResult (h : t.Sound) {kind : FrameKind} {type : TypeId}
    (hresult : ∃ old, t.result? kind id = some old ∧ ∀ ret, old = some ret → ret = type)
    (htype : t.types.Settled type) :
    t.Touches id (t.withResult kind id type) ∧
      (t.withResult kind id type).result? kind id = some (some type) ∧
      ∀ func, ((t.withResult kind id type).symbols.func? func).map FuncInfo.state =
        (t.symbols.func? func).map FuncInfo.state := by
  obtain ⟨old, hresult, hold⟩ := hresult
  cases kind with
  | function =>
      obtain ⟨info, hinfo, rfl⟩ := Option.map_eq_some_iff.mp hresult
      obtain ⟨hparams, -, hstate, hbody⟩ := h.kinds _ _ (SymbolTable.func?_eq_some.mp hinfo)
      have htouches := h.touchesFunc (f := fun i => { i with ret := some type }) hinfo
        ⟨rfl, rfl, fun ret hret => congrArg some (hold ret hret).symm⟩
        ⟨hparams, fun ret hret => Option.some.inj hret ▸ htype, fun _ => rfl, hbody⟩
      refine ⟨htouches, ?_, fun func => ?_⟩
      · simp [Tables.result?, Tables.withResult, func?_modifyFunc hinfo]
      · by_cases heq : id = func
        · subst heq
          simp [Tables.withResult, func?_modifyFunc hinfo, hinfo]
        · exact congrArg _ (htouches.func? heq)
  | closure =>
      obtain ⟨info, hinfo, rfl⟩ := Option.map_eq_some_iff.mp hresult
      obtain ⟨hparams, -, hcaptures⟩ := h.kinds _ _ (SymbolTable.closure?_eq_some.mp hinfo)
      have htouches := h.touchesClosure (f := fun i => { i with ret := some type }) hinfo
        ⟨rfl, fun ret hret => congrArg some (hold ret hret).symm⟩
        ⟨hparams, fun ret hret => Option.some.inj hret ▸ htype, hcaptures⟩
      refine ⟨htouches, ?_, fun func => ?_⟩
      · simp [Tables.result?, Tables.withResult, closure?_modifyClosure hinfo]
      · simp only [Tables.withResult, func?_modifyClosure]

end Tables

/-! ## Returns and loops -/

namespace Check

open CheckState

variable {settings : Settings} {s s' : CheckState} {frame : Frame} {rest : List Frame}

/-- The ways in which a returned value is accepted by the innermost body. -/
inductive Returned (settings : Settings) (frame : Frame) (rest : List Frame) (value : Expr)
    (returned : ExprType) (span : Span) (s s' : CheckState) : Prop
  /-- The result of the body is known and that of the call is not. -/
  | noted {func type} (hexpected : frame.ret.expected = some type)
      (hpending : s.tables.types.pending? returned.type = some func)
      (hnote : (noteAssumption func type span).Gives settings s () s')
  /-- Neither result is known. -/
  | held {func} (hexpected : frame.ret.expected = none)
      (hpending : s.tables.types.pending? returned.type = some func)
      (hframes : { s with frames := { frame with
        pendingReturns := frame.pendingReturns ++ [⟨func, span⟩] } :: rest } = s')
  | checked {type} (hexpected : frame.ret.expected = some type)
      (hknown : s.tables.types.pending? returned.type = none)
      (hsame : s.tables.same type returned.type = true)
      (htransfer : if s.tables.isVoid type then s = s' else
        (recordTransfer type .ret value returned).Gives settings s () s')
  /-- The value gives the result of the body. -/
  | deduced {s₁} (hexpected : frame.ret.expected = none)
      (hknown : s.tables.types.pending? returned.type = none)
      (hdeduce : (deduceReturn returned.type).Gives settings s () s₁)
      (htransfer : if s₁.tables.isVoid returned.type then s₁ = s' else
        (recordTransfer returned.type .ret value returned).Gives settings s₁ () s')

theorem gives_unless_void {type : TypeId} {p : Check Unit} :
    Gives (do if !(← isVoid type) then p) settings s () s' ↔ (s.tables.concrete? type).isSome ∧
      if s.tables.isVoid type then s = s' else p.Gives settings s () s' := by
  simp only [gives_bind, gives_isVoid]
  constructor
  · rintro ⟨_, _, ⟨⟨hread, rfl⟩, rfl⟩, h⟩
    refine ⟨hread, ?_⟩
    cases hvoid : s.tables.isVoid type <;> simpa [hvoid] using h
  · rintro ⟨hread, h⟩
    refine ⟨_, _, ⟨⟨hread, rfl⟩, rfl⟩, ?_⟩
    cases hvoid : s.tables.isVoid type <;> simpa [hvoid] using h

section

variable (hframes : s.frames = frame :: rest)

include hframes

theorem gives_modifyFrame {f : Frame → Frame} {u : Unit} :
    (modifyFrame f).Gives settings s u s' ↔ { s with frames := f frame :: rest } = s' := by
  simp only [modifyFrame, gives_update, hframes]

theorem checkReturned_gives {value : Expr} {returned : ExprType} {span : Span}
    (h : (checkReturned frame value returned span).Gives settings s () s') :
    Returned settings frame rest value returned span s s' := by
  simp only [checkReturned, gives_bind, gives_pendingOf] at h
  obtain ⟨_, _, ⟨⟨-, hfound⟩, rfl⟩, h⟩ := h
  split at h
  · split at h
    · exact .noted ‹_› hfound h
    · exact .held ‹_› hfound ((gives_modifyFrame hframes).mp h)
  · split at h
    · next type hexpected =>
      simp only [gives_bind, gives_isVoid] at h
      obtain ⟨_, _, ⟨-, rfl⟩, _, _, ⟨-, rfl⟩, h⟩ := h
      rw [gives_ite] at h
      split at h
      · simp at h
      · simp only [gives_bind, gives_same] at h
        obtain ⟨_, _, ⟨⟨-, rfl⟩, rfl⟩, h⟩ := h
        rw [gives_ite] at h
        split at h
        · simp at h
        · next hsame =>
          exact .checked hexpected hfound (by simpa using hsame) (gives_unless_void.mp h).2
    · rw [gives_bind] at h
      obtain ⟨_, s₁, hdeduce, h⟩ := h
      exact .deduced ‹_› hfound hdeduce (gives_unless_void.mp h).2

omit hframes in
/-- A bare `return` is accepted where nothing, or nothing yet, has to be returned. -/
theorem checkBareReturn_gives {span : Span}
    (h : (checkBareReturn frame span).Gives settings s () s') :
    (∃ type, frame.ret.expected = some type ∧ s.tables.isVoid type = true ∧ s = s') ∨
      frame.ret.expected = none ∧ (deduceReturn Builtin.void.typeId).Gives settings s () s' := by
  unfold checkBareReturn at h
  split at h
  · next type hexpected =>
    simp only [gives_bind, gives_isVoid] at h
    obtain ⟨_, _, ⟨⟨-, rfl⟩, rfl⟩, h⟩ := h
    rw [gives_ite] at h
    split at h
    · simp at h
    · next hvoid => exact .inl ⟨type, hexpected, by simpa using hvoid, (gives_pure.mp h).2⟩
  · exact .inr ⟨‹_›, h⟩

/-- Deducing a result notes it with the frame and with the symbol. -/
theorem deduceReturn_gives {type : TypeId} (h : (deduceReturn type).Gives settings s () s') :
    { s with
      tables := s.tables.withResult frame.kind frame.symbol type
      frames := { frame with ret := .deduced (some type) } :: rest } = s' := by
  simp only [deduceReturn, gives_bind, gives_frame?, hframes, List.head?_cons] at h
  obtain ⟨_, _, ⟨rfl, rfl⟩, h⟩ := h
  simp only [gives_bind, gives_modifyFrame hframes] at h
  obtain ⟨_, _, rfl, h⟩ := h
  split at h
  all_goals
    next hkind =>
    obtain ⟨-, rfl⟩ := gives_modifyAt.mp h
    simp only [Tables.withResult, hkind]

variable (hs : s.Sound)

include hs

/-- The frame of the innermost body may change in what no result depends on. -/
theorem steps_frame {frame' : Frame} (hbecomes : frame.Becomes frame')
    (hret : frame'.ret = frame.ret)
    (hpending : ∀ call ∈ frame'.pendingReturns, s.tables.InProgress call.callee) :
    s.Steps { s with frames := frame' :: rest } := by
  have hframe := hs.frames frame (hframes ▸ List.mem_cons_self)
  refine ⟨⟨hs.regrow hs.tables (.refl _) (fun _ h => h) (fun other hother => ?_) ?_ rfl rfl rfl rfl rfl
    rfl, ⟨.refl _, fun _ info' h => .inr ⟨info', h, rfl⟩, fun _ h => h, fun _ h => h,
    .refl _, fun _ h => h⟩, hframes ▸ .cons hbecomes⟩, fun _ => rfl, rfl⟩
  · rcases List.mem_cons.mp hother with rfl | hother
    · refine ⟨?_, fun hk => ?_, hpending⟩
      · rw [hbecomes.kind, hbecomes.symbol, hret]
        exact hframe.result
      · rw [hbecomes.symbol]
        exact hframe.active (hbecomes.kind ▸ hk)
    · exact hs.frames other (hframes ▸ List.mem_cons_of_mem _ hother)
  · have hdistinct := hs.distinct
    rw [hframes] at hdistinct
    simpa only [List.map_cons, hbecomes.symbol] using hdistinct

theorem steps_deduceReturn {type : TypeId} (hexpected : frame.ret.expected = none)
    (htype : s.tables.types.Settled type) (h : (deduceReturn type).Gives settings s () s') :
    s.Steps s' := by
  obtain rfl := deduceReturn_gives hframes h
  have hframe := hs.frames frame (hframes ▸ List.mem_cons_self)
  have hdistinct := hs.distinct
  rw [hframes, List.map_cons, List.nodup_cons] at hdistinct
  obtain ⟨htouches, hresult, hstates⟩ :=
    hs.tables.withResult ⟨_, hframe.result, by simp [hexpected]⟩ htype
  have hp (func : SymbolId) (hf : s.tables.InProgress func) :
      (s.tables.withResult frame.kind frame.symbol type).InProgress func :=
    (hstates func).trans hf
  refine ⟨⟨hs.regrow htouches.sound htouches.grows hp (fun other hother => ?_) ?_ rfl rfl rfl rfl rfl
    rfl,
    ⟨htouches.grows, fun func info' hinfo' => .inr (Option.map_eq_some_iff.mp ?_), hp,
      fun _ h => h, .refl _, separates_of_contained htouches.grows.toContained fun _ => rfl⟩,
    hframes ▸ .cons ⟨rfl, rfl, by simp [hexpected], fun _ h => h⟩⟩, hstates, rfl⟩
  · rcases List.mem_cons.mp hother with rfl | hother
    · exact ⟨hresult, fun hk => hp _ (hframe.active hk), fun call hc => hp _ (hframe.pending call hc)⟩
    · have hother' := hs.frames other (hframes ▸ List.mem_cons_of_mem _ hother)
      refine htouches.frameSound ?_ hother' fun call hc => hp _ (hother'.pending call hc)
      exact fun heq => hdistinct.1 (heq ▸ List.mem_map_of_mem hother)
  · rw [List.map_cons, List.nodup_cons]
    exact hdistinct
  · rw [← hstates func]
    exact congrArg (Option.map FuncInfo.state) hinfo'

/-- A `return` with a value of a held type leads to a sound state. -/
theorem steps_checkReturned {value : Expr} {returned : ExprType} {span : Span}
    (hreturned : s.tables.Held returned.type)
    (h : (checkReturned frame value returned span).Gives settings s () s') : s.Steps s' := by
  have hframe := hs.frames frame (hframes ▸ List.mem_cons_self)
  have hresult {type : TypeId} (hexpected : frame.ret.expected = some type) :
      s.tables.types.Settled type := hs.tables.settled_result (hexpected ▸ hframe.result)
  have htransfer {s : CheckState} (hs : s.Sound) {type : TypeId}
      (htype : s.tables.types.Settled type) (h : if s.tables.isVoid type then s = s' else
        (recordTransfer type .ret value returned).Gives settings s () s') : s.Calm s' := by
    split at h
    · exact h ▸ .refl hs
    · exact calm_recordTransfer hs htype h
  cases checkReturned_gives hframes h with
  | noted hexpected hpending hnote =>
      exact (calm_noteAssumption hs (hreturned.inProgress hpending) (hresult hexpected) hnote).steps
  | held _ hpending hs' =>
      subst hs'
      refine steps_frame hframes hs ⟨rfl, rfl, fun _ h => h, fun call hc =>
        List.mem_append_left _ hc⟩ rfl fun call hc => ?_
      rcases List.mem_append.mp hc with hold | hnew
      · exact hframe.pending call hold
      · exact List.mem_singleton.mp hnew ▸ hreturned.inProgress hpending
  | checked hexpected _ _ h => exact (htransfer hs (hresult hexpected) h).steps
  | deduced hexpected hknown hdeduce h =>
      have hdeduce := steps_deduceReturn hframes hs hexpected (hreturned.settled hknown) hdeduce
      exact hdeduce.trans (htransfer hdeduce.sound
        ((hreturned.settled hknown).mono hdeduce.leads.grows.types) h).steps

theorem steps_checkBareReturn {span : Span}
    (h : (checkBareReturn frame span).Gives settings s () s') : s.Steps s' := by
  rcases checkBareReturn_gives h with ⟨_, _, _, rfl⟩ | ⟨hexpected, hdeduce⟩
  · exact .refl hs
  · exact steps_deduceReturn hframes hs hexpected (hs.tables.types.settled_builtin .void) hdeduce

end

/-- Entering or leaving a loop. -/
theorem steps_loopDepth (hs : s.Sound) {f : Frame → Frame}
    (h : (modifyFrame f).Gives settings s () s')
    (hf : ∀ frame, frame.Becomes (f frame) ∧ (f frame).ret = frame.ret ∧
      (f frame).pendingReturns = frame.pendingReturns) : s.Steps s' := by
  cases hframes : s.frames with
  | nil =>
      simp only [modifyFrame, gives_update, hframes] at h
      exact h ▸ .refl hs
  | cons frame rest =>
      obtain rfl := (gives_modifyFrame hframes).mp h
      obtain ⟨hbecomes, hret, hpending⟩ := hf frame
      refine steps_frame hframes hs hbecomes hret fun call hc => ?_
      exact (hs.frames frame (hframes ▸ List.mem_cons_self)).pending call (hpending ▸ hc)

theorem steps_enterLoop (hs : s.Sound) (h : enterLoop.Gives settings s () s') : s.Steps s' :=
  steps_loopDepth hs h fun _ => ⟨⟨rfl, rfl, fun _ h => h, fun _ h => h⟩, rfl, rfl⟩

theorem steps_leaveLoop (hs : s.Sound) (h : leaveLoop.Gives settings s () s') : s.Steps s' := by
  simp only [leaveLoop, gives_bind, gives_frame?] at h
  obtain ⟨_, _, ⟨rfl, rfl⟩, h⟩ := h
  split at h
  · rw [gives_ite] at h
    split at h
    · simp at h
    · exact steps_loopDepth hs h fun _ => ⟨⟨rfl, rfl, fun _ h => h, fun _ h => h⟩, rfl, rfl⟩
  · exact (gives_pure.mp h).2 ▸ .refl hs

theorem checkLoopControl_state {keyword : String} {span : Span}
    (h : (checkLoopControl keyword span).Gives settings s () s') : s = s' := by
  simp only [checkLoopControl, gives_bind, gives_frame?] at h
  obtain ⟨_, _, ⟨rfl, rfl⟩, h⟩ := h
  split at h
  · rw [gives_ite] at h
    split at h
    · simp at h
    · exact (gives_pure.mp h).2
  · simp at h

end Check

end Stela
