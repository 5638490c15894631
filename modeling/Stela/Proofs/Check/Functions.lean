import Stela.Proofs.Check.Bodies

/-!
# Bodies of functions

A function is under analysis from the opening of its body to its end. Before, no
frame and no placeholder speaks of it; afterwards it is done and has a result.
-/

namespace Stela.Check

open CheckState

variable {settings : Settings} {s s' : CheckState} {func : SymbolId} {info : FuncInfo}

/-- The body of a function that was not analyzed yet is not among those under analysis. -/
theorem not_mem_frames (hs : s.Sound) (hfunc : s.tables.symbols.func? func = some info)
    (hstate : info.state = .unchecked) : func ∉ s.frames.map Frame.symbol := by
  intro hmem
  obtain ⟨frame, hframe, rfl⟩ := List.mem_map.mp hmem
  have hsound := hs.frames frame hframe
  cases hkind : frame.kind with
  | function =>
      have hactive := hsound.active hkind
      simp [Tables.InProgress, hfunc, hstate] at hactive
  | closure =>
      have hresult := hsound.result
      rw [hkind] at hresult
      obtain ⟨closure, hclosure, -⟩ := Option.map_eq_some_iff.mp hresult
      rw [SymbolTable.func?_eq_some] at hfunc
      rw [SymbolTable.closure?_eq_some, hfunc] at hclosure
      simp at hclosure

/-- The state in which the statements of the body of a function are analyzed. -/
structure OpensFunc (s : CheckState) (func : SymbolId) (frame : Frame) (s' : CheckState) :
    Prop where
  sound : s'.Sound
  grows : s.tables.Grows s'.tables
  active : s'.tables.InProgress func
  others : ∀ other, other ≠ func → (s'.tables.symbols.func? other).map FuncInfo.state =
    (s.tables.symbols.func? other).map FuncInfo.state
  frames : s'.frames = frame :: s.frames
  symbol : frame.symbol = func
  kind : frame.kind = .function
  pending : frame.pendingReturns = []
  exprs : s'.exprTypes = s.exprTypes
  assumptions : ∀ a ∈ s.assumptions, a ∈ s'.assumptions
  meanings : s.meanings.Within s'.meanings
  separates : s.Separates s'

/-- Noting how far a body is, in a sound state. -/
theorem touches_setBodyState (hs : s.Sound) (hfunc : s.tables.symbols.func? func = some info)
    {state : BodyState} (hdone : state = .done → info.ret.isSome)
    (hbody : state ≠ .done → info.decl.body.isSome) :
    s.tables.Touches func { s.tables with
      symbols := s.tables.symbols.modifyFunc func fun info => { info with state := state } } := by
  obtain ⟨hparams, hret, -, -⟩ := hs.tables.kinds _ _ (SymbolTable.func?_eq_some.mp hfunc)
  exact hs.tables.touchesFunc hfunc ⟨rfl, rfl, fun _ h => h⟩ ⟨hparams, hret, hdone, hbody⟩

theorem opensFunc_openBody (hs : s.Sound) (hfunc : s.tables.symbols.func? func = some info)
    (hstate : info.state = .unchecked) {s₁ : CheckState} {entry : Symbol}
    (hstart : (setBodyState func .inProgress).Gives settings s () s₁)
    (hopen : (openBody func info).Gives settings
      { s₁ with scopes := s₁.scopes.setCursor entry.scope } () s') :
    ∃ frame, OpensFunc s func frame s' := by
  have hbody := (hs.tables.kinds _ _ (SymbolTable.func?_eq_some.mp hfunc)).2.2.2
  have hfresh := not_mem_frames hs hfunc hstate
  have htouches := @touches_setBodyState s func info hs hfunc .inProgress (by simp)
    fun _ => hbody (by simp [hstate])
  obtain ⟨-, rfl⟩ := gives_modifyAt.mp hstart
  have hinfo := Tables.func?_modifyFunc (f := fun info => { info with state := .inProgress }) hfunc
  have hothers (other : SymbolId) (hne : other ≠ func) := htouches.func? hne.symm
  have hp (other : SymbolId) (hother : s.tables.InProgress other) :
      other ≠ func := by
    rintro rfl
    simp [Tables.InProgress, hfunc, hstate] at hother
  have hs₁ : CheckState.Sound { s with tables := _ } :=
    hs.regrow htouches.sound htouches.grows
      (fun other hother => (htouches.inProgress (hp other hother).symm).mpr hother)
      (fun frame hframe => ?_) hs.distinct rfl rfl rfl rfl rfl rfl
  · have hcursor := calm_setCursor hs₁ entry.scope
    obtain ⟨s₂, frame, hopens, hsymbol, hkind⟩ := opens_openBody hcursor.sound hinfo hfresh hopen
    have hcalm := hcursor.trans hopens.calm
    have hpush := hopens.push
    refine ⟨frame, hopens.sound, ?_, ?_, fun other hne => ?_, ?_, hsymbol, hkind, hopens.pending, ?_,
      ?_, ?_, ?_⟩
    · rw [← hpush]
      exact htouches.grows.trans hcalm.tables.toGrows
    · rw [← hpush]
      exact hcalm.tables.inProgress.mpr (congrArg (Option.map FuncInfo.state) hinfo)
    · rw [← hpush]
      exact (hcalm.tables.states other).trans (congrArg _ (hothers other hne))
    · rw [← hpush, ← hcalm.frames]
    · rw [← hpush]
      exact hcalm.exprs
    · rw [← hpush]
      exact hcalm.assumptions
    · rw [← hpush]
      exact hcalm.meanings
    · rw [← hpush]
      exact (separates_tables htouches.grows.toContained).trans htouches.grows hcalm.separates
  · have hsound := hs.frames frame hframe
    refine htouches.frameSound (fun heq => hfresh (heq ▸ List.mem_map_of_mem hframe)) hsound
      fun call hcall => ?_
    have hcallee := hsound.pending call hcall
    exact (htouches.inProgress (hp _ hcallee).symm).mpr hcallee

/-- A function that ends is done and has a result. -/
structure ClosesFunc (s : CheckState) (frame : Frame) (rest : List Frame) (ret : TypeId)
    (s' : CheckState) : Prop where
  closes : ∃ s₁, Closes s frame rest ret s₁ ∧ s₁.tables.Touches frame.symbol s'.tables ∧
    s' = { s₁ with tables := s'.tables, scopes := s'.scopes }
  statics : ∀ id, s'.scopes.Static id → s.scopes.Static id
  rows : ∀ scope, s'.scopes.rows scope = s.scopes.rows scope
  done : ∃ info, s'.tables.symbols.func? frame.symbol = some info ∧ info.state = .done ∧
    info.ret = some ret

theorem closesFunc_closeBody (hs : s.Sound) {frame : Frame} {rest : List Frame}
    (hframes : s.frames = frame :: rest) (hkind : frame.kind = .function) {decl : FuncDecl}
    {body : List Stmt} {ret : TypeId} {s₁ : CheckState} {cursor : ScopeId}
    (hclose : (closeBody decl body).Gives settings s ret s₁)
    (hfinish : (modifyFunc frame.symbol fun info =>
      { info with ret := some ret, state := .done }).Gives settings
      { s₁ with scopes := s₁.scopes.setCursor cursor } () s') :
    ClosesFunc s frame rest ret s' := by
  simp only [closeBody, gives_bind, gives_pure] at hclose
  obtain ⟨frame', s₂, hpop, _, s₃, hbody, _, _, hleave, rfl, rfl⟩ := hclose
  obtain ⟨rest', hcloses⟩ := closes_finishBody hs hpop hbody
  obtain ⟨rfl, rfl⟩ := List.cons.inj (hcloses.frames.symm.trans hframes)
  obtain ⟨-, rfl⟩ := gives_leaveScope.mp hleave
  obtain ⟨-, rfl⟩ := gives_modifyAt.mp hfinish
  have hframe := hs.frames frame' (hframes ▸ List.mem_cons_self)
  obtain ⟨info, hinfo, hret⟩ : ∃ info, s₃.tables.symbols.func? frame'.symbol = some info ∧
      info.ret = frame'.ret.expected := by
    have hresult := hframe.result
    rw [hkind] at hresult
    rw [hcloses.symbols]
    exact Option.map_eq_some_iff.mp hresult
  obtain ⟨hparams, -, -, -⟩ := (hcloses.sound_tables hs).kinds _ _ (SymbolTable.func?_eq_some.mp hinfo)
  have hscopes := congrArg CheckState.scopes hcloses.settles.rest
  refine ⟨⟨s₃, hcloses, ?_, rfl⟩, fun id hstatic => ?_, fun scope => ?_, _,
    Tables.func?_modifyFunc hinfo, rfl, rfl⟩
  case refine_2 => exact hscopes ▸ hstatic
  case refine_3 => exact congrArg (·.rows scope) hscopes
  refine (hcloses.sound_tables hs).touchesFunc hinfo ⟨rfl, rfl, fun old hold => ?_⟩
    ⟨hparams, fun r hr => ?_, fun _ => rfl, fun h => absurd rfl h⟩
  · rcases hcloses.expected with heq | ⟨heq, -⟩
    · exact heq.symm.trans (hret.symm.trans hold)
    · simp [hret, heq] at hold
  · obtain rfl := Option.some.inj hr
    exact hcloses.settled.mono hcloses.grows.types

namespace ClosesFunc

variable {frame : Frame} {rest : List Frame} {ret : TypeId}

theorem grows (h : ClosesFunc s frame rest ret s') : s.tables.Grows s'.tables := by
  obtain ⟨s₁, hcloses, htouches, -⟩ := h.closes
  exact hcloses.grows.trans htouches.grows

/-- No other function changes. -/
theorem func? (h : ClosesFunc s frame rest ret s') {other : SymbolId} (hne : other ≠ frame.symbol) :
    s'.tables.symbols.func? other = s.tables.symbols.func? other := by
  obtain ⟨s₁, hcloses, htouches, -⟩ := h.closes
  rw [htouches.func? hne.symm, hcloses.symbols]

theorem frames (h : ClosesFunc s frame rest ret s') : s'.frames = rest := by
  obtain ⟨s₁, hcloses, -, heq⟩ := h.closes
  have hframes := congrArg CheckState.frames hcloses.settles.rest
  rw [heq]
  exact hframes

theorem meanings (h : ClosesFunc s frame rest ret s') : s'.meanings = s.meanings := by
  obtain ⟨s₁, hcloses, -, heq⟩ := h.closes
  have hmeanings := congrArg CheckState.meanings hcloses.settles.rest
  rw [heq]
  exact hmeanings

theorem assumptions (h : ClosesFunc s frame rest ret s') {a : Assumption} (ha : a ∈ s.assumptions)
    (hne : a.func ≠ frame.symbol) : a ∈ s'.assumptions := by
  obtain ⟨s₁, hcloses, -, heq⟩ := h.closes
  rw [heq]
  exact hcloses.assumptions ha hne

/-- No body around it waits for a function that was unknown when they were suspended. -/
theorem sound (h : ClosesFunc s frame rest ret s') (hs : s.Sound)
    (hrest : ∀ other ∈ rest, ∀ call ∈ other.pendingReturns, call.callee ≠ frame.symbol) :
    s'.Sound := by
  obtain ⟨s₁, hcloses, htouches, heq⟩ := h.closes
  have hsound := hcloses.sound hs htouches hrest
  have hscopes := congrArg CheckState.scopes hcloses.settles.rest
  rw [heq]
  exact (calm_scopes hsound (fun id hstatic => hscopes ▸ h.statics id hstatic)
    fun scope => (h.rows scope).trans (congrArg (·.rows scope) hscopes.symm)).sound

end ClosesFunc

/-- What is known about a function whose body was analyzed on demand. -/
structure Analyzed (s : CheckState) (func : SymbolId) (s' : CheckState) : Prop
    extends s.Stays s' where
  done : ¬ s.tables.InProgress func →
    ∀ info, s'.tables.symbols.func? func = some info → info.state = .done

/-- A body that is opened, analyzed and closed. -/
theorem analyzed_func {frame : Frame} {ret : TypeId} {s₁ s₂ : CheckState} (hs : s.Sound)
    (hfunc : s.tables.symbols.func? func = some info) (hstate : info.state = .unchecked)
    (hopens : OpensFunc s func frame s₁) (hkeeps : s₁.Keeps s₂)
    {frame' : Frame} (hbecomes : frame.Becomes frame')
    (hcloses : ClosesFunc s₂ frame' s.frames ret s') : Analyzed s func s' := by
  have hsymbol : frame'.symbol = func := hbecomes.symbol.trans hopens.symbol
  have hne {other : SymbolId} (hother : s.tables.InProgress other) : other ≠ frame'.symbol := by
    rintro rfl
    rw [hsymbol] at hother
    simp [Tables.InProgress, hfunc, hstate] at hother
  refine ⟨⟨hcloses.sound hkeeps.sound fun other hother call hcall =>
    hne ((hs.frames other hother).pending call hcall), ⟨?_, fun other info' hinfo' => ?_,
    fun other hother => ?_, fun a ha => ?_, ?_, ?_⟩, hcloses.frames⟩,
    fun _ info' hinfo' => ?_⟩
  · exact hopens.grows.trans (hkeeps.leads.grows.trans hcloses.grows)
  · by_cases heq : other = frame'.symbol
    · obtain ⟨info'', hinfo'', hdone, -⟩ := hcloses.done
      rw [heq] at hinfo'
      obtain rfl := Option.some.inj (hinfo''.symm.trans hinfo')
      exact .inl hdone
    · rw [hcloses.func? heq] at hinfo'
      rcases hkeeps.leads.states other info' hinfo' with hdone | ⟨info₁, hinfo₁, heq₁⟩
      · exact .inl hdone
      · have hothers := hopens.others other (hsymbol ▸ heq)
        rw [hinfo₁, Option.map_some, eq_comm, Option.map_eq_some_iff] at hothers
        obtain ⟨info₀, hinfo₀, heq₀⟩ := hothers
        exact .inr ⟨info₀, hinfo₀, heq₀.trans heq₁⟩
  · unfold Tables.InProgress
    rw [hcloses.func? (hne hother)]
    exact hkeeps.leads.progress other ((hopens.others other (hsymbol ▸ hne hother)).trans hother)
  · exact hcloses.assumptions (hkeeps.leads.assumptions a (hopens.assumptions a ha))
      (hne (hs.assumptions a ha).1)
  · rw [hcloses.meanings]
    exact hopens.meanings.trans hkeeps.leads.meanings
  · exact (hopens.separates.trans hopens.grows hkeeps.leads.separates).trans
      (hopens.grows.trans hkeeps.leads.grows)
      (separates_of_contained hcloses.grows.toContained hcloses.rows)
  · obtain ⟨info'', hinfo'', hdone, -⟩ := hcloses.done
    rw [hsymbol] at hinfo''
    obtain rfl := Option.some.inj (hinfo''.symm.trans hinfo')
    exact hdone

end Stela.Check
