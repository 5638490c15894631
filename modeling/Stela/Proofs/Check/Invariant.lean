import Stela.Check.Body
import Stela.Proofs.Scopes
import Stela.Proofs.Types.Growth

/-!
# Sound states

Placeholders of several functions can be live at once: in the types of
expressions, in function types, in the results that a body returned and in what
was assumed about a result. A state is sound if each of them belongs to a
function whose body is under analysis, and every other type it holds is settled.
-/

namespace Stela

namespace Tables

variable {t t' t'' : Tables} {type : TypeId} {func : SymbolId} {frame : Frame}

/-- The body of the function is under analysis. -/
def InProgress (t : Tables) (func : SymbolId) : Prop :=
  (t.symbols.func? func).map FuncInfo.state = some .inProgress

/-- The type stands for the result of a function whose body is under analysis. -/
def Placeholder (t : Tables) (type : TypeId) : Prop :=
  ∃ func, t.InProgress func ∧ t.types.get? type = some (.pending func)

/-- The type of a value. -/
def Held (t : Tables) (type : TypeId) : Prop := t.types.Settled type ∨ t.Placeholder type

/-- The type of a value or of what is called. -/
def Callable (t : Tables) (type : TypeId) : Prop :=
  t.Held type ∨ ∃ params ret, t.types.get? type = some (.func params ret) ∧ t.Placeholder ret

/-- The result type noted with a function or a closure. -/
def result? (t : Tables) (kind : FrameKind) (symbol : SymbolId) : Option (Option TypeId) :=
  match kind with
  | .function => (t.symbols.func? symbol).map FuncInfo.ret
  | .closure => (t.symbols.closure? symbol).map ClosureInfo.ret

/-- A body under analysis and its symbol agree on the result type. -/
structure FrameSound (t : Tables) (frame : Frame) : Prop where
  result : t.result? frame.kind frame.symbol = some frame.ret.expected
  active : frame.kind = .function → t.InProgress frame.symbol
  pending : ∀ call ∈ frame.pendingReturns, t.InProgress call.callee

/-- The progress of functions and all results are as they were. -/
structure Steady (t t' : Tables) : Prop where
  states : ∀ func, (t'.symbols.func? func).map FuncInfo.state =
    (t.symbols.func? func).map FuncInfo.state
  results : ∀ kind symbol ret, t.result? kind symbol = some ret → t'.result? kind symbol = some ret

theorem Steady.isSome_func {id : SymbolId} (h : t.Steady t') :
    (t'.symbols.func? id).isSome = (t.symbols.func? id).isSome := by
  simpa using congrArg Option.isSome (h.states id)

/-- Growth that leaves the progress of functions and all results as they are. -/
structure Extends (t t' : Tables) : Prop extends t.Grows t', t.Steady t'

theorem Placeholder.mono (h : t.Placeholder type) (hw : t.types.Within t'.types)
    (hp : ∀ func, t.InProgress func → t'.InProgress func) : t'.Placeholder type := by
  obtain ⟨func, hfunc, htype⟩ := h
  exact ⟨func, hp func hfunc, hw _ _ htype⟩

theorem Held.mono (h : t.Held type) (hw : t.types.Within t'.types)
    (hp : ∀ func, t.InProgress func → t'.InProgress func) : t'.Held type := by
  rcases h with h | h
  · exact .inl (h.mono hw)
  · exact .inr (h.mono hw hp)

theorem Callable.mono (h : t.Callable type) (hw : t.types.Within t'.types)
    (hp : ∀ func, t.InProgress func → t'.InProgress func) : t'.Callable type := by
  rcases h with h | ⟨params, ret, htype, hret⟩
  · exact .inl (h.mono hw hp)
  · exact .inr ⟨params, ret, hw _ _ htype, hret.mono hw hp⟩

theorem Held.settled (h : t.Held type) (hknown : t.types.pending? type = none) :
    t.types.Settled type := by
  rcases h with h | ⟨func, -, htype⟩
  · exact h
  · simp [TypeTable.pending?_eq_some.mpr htype] at hknown

theorem Held.inProgress (h : t.Held type) (hpending : t.types.pending? type = some func) :
    t.InProgress func := by
  rw [TypeTable.pending?_eq_some] at hpending
  rcases h with h | ⟨func', hfunc, htype⟩
  · exact absurd hpending (h.1.get?_ne func)
  · obtain rfl : func' = func := by simpa [hpending] using htype.symm
    exact hfunc

theorem Steady.func?_eq_none {id : SymbolId} (h : t.Steady t') (hfunc : t.symbols.func? id = none) :
    t'.symbols.func? id = none := by
  simpa [hfunc] using h.states id

namespace Steady

theorem refl (t : Tables) : t.Steady t := ⟨fun _ => rfl, fun _ _ _ h => h⟩

theorem trans (h : t.Steady t') (h' : t'.Steady t'') : t.Steady t'' :=
  ⟨fun func => (h'.states func).trans (h.states func),
    fun kind symbol ret hret => h'.results kind symbol ret (h.results kind symbol ret hret)⟩

theorem inProgress (h : t.Steady t') : t'.InProgress func ↔ t.InProgress func := by
  simp only [InProgress, h.states]

theorem frameSound (h : t.Steady t') (hf : t.FrameSound frame) : t'.FrameSound frame :=
  ⟨h.results _ _ _ hf.result, fun hk => h.inProgress.mpr (hf.active hk),
    fun call hcall => h.inProgress.mpr (hf.pending call hcall)⟩

/-- The tables hold the same functions, and closures with the same results. -/
theorem of_kinds (hfunc : ∀ id, t'.symbols.func? id = t.symbols.func? id)
    (hclosure : ∀ id info, t.symbols.closure? id = some info →
      ∃ info', t'.symbols.closure? id = some info' ∧ info'.ret = info.ret) : t.Steady t' := by
  refine ⟨fun id => by rw [hfunc], fun kind symbol ret hret => ?_⟩
  cases kind with
  | function => simpa [result?, hfunc] using hret
  | closure =>
      obtain ⟨info, hinfo, hr⟩ := Option.map_eq_some_iff.mp hret
      obtain ⟨info', hinfo', hr'⟩ := hclosure _ _ hinfo
      simp [result?, hinfo', hr', hr]

theorem of_alike (h : t.symbols.Alike t'.symbols) : t.Steady t' := by
  refine .of_kinds (fun id => ?_) (fun id info hinfo => ⟨info, ?_, rfl⟩)
  · simp only [SymbolTable.func?, (h id).1]
  · simpa only [SymbolTable.closure?, (h id).1] using hinfo

/-- Adding a symbol that is no function. -/
theorem add (t : Tables) {entry : Symbol} (hentry : ∀ info, entry.kind ≠ .func info) :
    t.Steady { t with symbols := (t.symbols.add entry).2 } := by
  refine .of_kinds (fun id => ?_) (fun id info hinfo => ⟨info, ?_, rfl⟩)
  · refine Option.ext fun info => ?_
    simp only [SymbolTable.func?_eq_some, SymbolTable.kind?_add]
    split
    · next heq =>
      subst heq
      refine ⟨fun h => absurd (Option.some.inj h) (hentry info), fun h => ?_⟩
      exact absurd (SymbolTable.lt_size_of_kind? h) (Nat.lt_irrefl _)
    · rfl
  · rw [SymbolTable.closure?_eq_some] at hinfo ⊢
    rw [SymbolTable.kind?_add, if_neg (Nat.ne_of_lt (SymbolTable.lt_size_of_kind? hinfo)), hinfo]

/-- Changing the details of a symbol that is no function, but not the result of a closure. -/
theorem modifyKind (t : Tables) (id : SymbolId) {f : SymbolKind → SymbolKind}
    (hfunc : ∀ kind info, f kind = .func info ↔ kind = .func info)
    (hclosure : ∀ info, ∃ info', f (.closure info) = .closure info' ∧ info'.ret = info.ret) :
    t.Steady { t with symbols := t.symbols.modifyKind id f } := by
  refine .of_kinds (fun id => ?_) (fun id info hinfo => ?_)
  · refine Option.ext fun info => ?_
    simp only [SymbolTable.func?_eq_some, SymbolTable.kind?_modifyKind]
    split
    · simp [Option.map_eq_some_iff, hfunc]
    · rfl
  · rw [SymbolTable.closure?_eq_some] at hinfo
    simp only [SymbolTable.closure?_eq_some, SymbolTable.kind?_modifyKind, hinfo]
    split
    · obtain ⟨info', hf, hret⟩ := hclosure info
      exact ⟨info', by simp [hf], hret⟩
    · exact ⟨info, rfl, rfl⟩

end Steady

namespace Extends

theorem refl (t : Tables) : t.Extends t := ⟨.refl t, .refl t⟩

theorem trans (h : t.Extends t') (h' : t'.Extends t'') : t.Extends t'' :=
  ⟨h.toGrows.trans h'.toGrows, h.toSteady.trans h'.toSteady⟩

theorem of_alike (hw : t.types.Within t'.types) (h : t.symbols.Alike t'.symbols) :
    t.Extends t' := ⟨.of_alike hw h, .of_alike h⟩

theorem intern (t : Tables) (ty : Ty) : t.Extends { t with types := (t.types.intern ty).2 } :=
  .of_alike (TypeTable.within_intern t.types ty) (.refl _)

end Extends

/-- Only functions can share a name. -/
theorem conflicts_of_func?_eq_none {new existing : SymbolId} (h : t.symbols.func? new = none) :
    t.conflicts new existing = true := by
  unfold conflicts
  split
  · next a b hnew hexisting =>
    rw [SymbolTable.func?_eq_some.mpr hnew] at h
    cases h
  · rfl

/-- When the second symbol was bound, every alias was resolved, there were at most `bound` symbols,
and the second did not conflict with the first. -/
def ToldApart (t : Tables) (bound : Nat) (old new : SymbolId) : Prop :=
  ∃ u : Tables, u.Sound ∧ u.Complete ∧ u.symbols.size ≤ bound ∧ u.Contained t ∧
    u.conflicts new old = false

end Tables

/-- Nothing that an expression, a declaration or a variable was found to mean is lost. -/
structure Meanings.Within (m m' : Meanings) : Prop where
  exprs : ∀ node symbol, m.exprs.get? node = some symbol → m'.exprs.get? node = some symbol
  decls : ∀ node symbol, m.decls.get? node = some symbol → m'.decls.get? node = some symbol
  locals : ∀ node symbol, m.locals.get? node = some symbol → m'.locals.get? node = some symbol

theorem Meanings.Within.refl (m : Meanings) : m.Within m :=
  ⟨fun _ _ h => h, fun _ _ h => h, fun _ _ h => h⟩

theorem Meanings.Within.trans {m m' m'' : Meanings} (h : m.Within m') (h' : m'.Within m'') :
    m.Within m'' :=
  ⟨fun node symbol hs => h'.exprs node symbol (h.exprs node symbol hs),
    fun node symbol hs => h'.decls node symbol (h.decls node symbol hs),
    fun node symbol hs => h'.locals node symbol (h.locals node symbol hs)⟩

namespace CheckState

/-- Every placeholder in the state belongs to a body under analysis. -/
structure Sound (s : CheckState) : Prop where
  tables : s.tables.Sound
  exprs : ∀ node typing, s.exprTypes.get? node = some typing → s.tables.Callable typing.type.type
  frames : ∀ frame ∈ s.frames, s.tables.FrameSound frame
  distinct : (s.frames.map Frame.symbol).Nodup
  assumptions : ∀ a ∈ s.assumptions, s.tables.InProgress a.func ∧ s.tables.types.Settled a.type
  transfers : ∀ r ∈ s.transfers, s.tables.types.Settled r.type
  defaults : ∀ d ∈ s.defaults, s.tables.types.Settled d.2
  remembered : ∀ node type, s.meanings.types.get? node = some type → s.tables.Written type
  statics : ∀ id, s.scopes.Static id → (s.tables.symbols.func? id).isSome

/-- Symbols that share a name in a scope were told apart when the later of them was bound. -/
def Apart (s : CheckState) (bound : Nat) : Prop :=
  ∀ scope, (s.scopes.rows scope).Pairwise fun row row' =>
    row.name = row'.name → s.tables.ToldApart bound row.symbol row'.symbol

/-- With every alias resolved, a name is bound once more only to what is told apart. -/
def Separates (s s' : CheckState) : Prop :=
  s.tables.Complete → s.Apart s.tables.symbols.size → s'.Apart s'.tables.symbols.size

/-- What holds between the states around any part of the analysis: every function of the later
state is done or is as far as it was, nothing that was assumed or resolved is lost, and what a name
is bound to is told apart. -/
structure Leads (s s' : CheckState) : Prop where
  grows : s.tables.Grows s'.tables
  states : ∀ func info', s'.tables.symbols.func? func = some info' → info'.state = .done ∨
    ∃ info, s.tables.symbols.func? func = some info ∧ info.state = info'.state
  progress : ∀ func, s.tables.InProgress func → s'.tables.InProgress func
  assumptions : ∀ a ∈ s.assumptions, a ∈ s'.assumptions
  meanings : s.meanings.Within s'.meanings
  separates : s.Separates s'

/-- A step that leads to a sound state and neither types an expression nor ends or changes a
body. -/
structure Mild (s s' : CheckState) : Prop where
  sound : s'.Sound
  tables : s.tables.Extends s'.tables
  frames : s'.frames = s.frames
  exprs : s'.exprTypes = s.exprTypes
  assumptions : ∀ a ∈ s.assumptions, a ∈ s'.assumptions
  meanings : s.meanings.Within s'.meanings
  separates : s.Separates s'

/-- A mild step that binds no name of a scope once more, whether or not every alias is resolved. -/
structure Calm (s s' : CheckState) : Prop extends s.Mild s' where
  apart : ∀ bound, s.Apart bound → s'.Apart bound

variable {s s' s'' : CheckState} {bound : Nat}

theorem Apart.mono (h : s.Apart bound) {bound' : Nat} (hle : bound ≤ bound') : s.Apart bound' :=
  fun scope => (h scope).imp fun htold hname => by
    obtain ⟨u, hsound, hcomplete, hbound, hcontained, hconflicts⟩ := htold hname
    exact ⟨u, hsound, hcomplete, Nat.le_trans hbound hle, hcontained, hconflicts⟩

/-- What was told apart stays so in larger tables. -/
theorem Apart.of_contained (h : s.Apart bound) (hc : s.tables.Contained s'.tables)
    (hrows : ∀ scope, s'.scopes.rows scope = s.scopes.rows scope) : s'.Apart bound := fun scope => by
  rw [hrows]
  refine (h scope).imp fun htold hname => ?_
  obtain ⟨u, hsound, hcomplete, hbound, hcontained, hconflicts⟩ := htold hname
  exact ⟨u, hsound, hcomplete, hbound, hcontained.trans hc, hconflicts⟩

theorem separates_of_apart (hc : s.tables.Contained s'.tables)
    (h : ∀ bound, s.Apart bound → s'.Apart bound) : s.Separates s' :=
  fun _ hapart => (h _ hapart).mono hc.size_le

theorem separates_of_contained (hc : s.tables.Contained s'.tables)
    (hrows : ∀ scope, s'.scopes.rows scope = s.scopes.rows scope) : s.Separates s' :=
  separates_of_apart hc fun _ h => h.of_contained hc hrows

theorem separates_tables {t : Tables} (hc : s.tables.Contained t) :
    s.Separates { s with tables := t } := separates_of_contained hc fun _ => rfl

theorem Separates.trans (h : s.Separates s') (hg : s.tables.Grows s'.tables)
    (h' : s'.Separates s'') : s.Separates s'' :=
  fun hcomplete hapart => h' (hcomplete.grows hg) (h hcomplete hapart)

theorem Leads.trans (h : s.Leads s') (h' : s'.Leads s'') : s.Leads s'' := by
  refine ⟨h.grows.trans h'.grows, fun func info'' hinfo'' => ?_,
    fun func hf => h'.progress func (h.progress func hf),
    fun a ha => h'.assumptions a (h.assumptions a ha),
    h.meanings.trans h'.meanings, h.separates.trans h.grows h'.separates⟩
  rcases h'.states func info'' hinfo'' with hdone | ⟨info', hinfo', heq⟩
  · exact .inl hdone
  · rcases h.states func info' hinfo' with hdone | ⟨info, hinfo, heq'⟩
    · exact .inl (heq ▸ hdone)
    · exact .inr ⟨info, hinfo, heq'.trans heq⟩

theorem Mild.trans (h : s.Mild s') (h' : s'.Mild s'') : s.Mild s'' :=
  ⟨h'.sound, h.tables.trans h'.tables, h'.frames.trans h.frames, h'.exprs.trans h.exprs,
    fun a ha => h'.assumptions a (h.assumptions a ha),
    h.meanings.trans h'.meanings, h.separates.trans h.tables.toGrows h'.separates⟩

theorem Calm.refl (hs : s.Sound) : s.Calm s :=
  ⟨⟨hs, .refl _, rfl, rfl, fun _ h => h, .refl _, fun _ h => h⟩, fun _ h => h⟩

theorem Calm.trans (h : s.Calm s') (h' : s'.Calm s'') : s.Calm s'' :=
  ⟨h.toMild.trans h'.toMild, fun bound hapart => h'.apart bound (h.apart bound hapart)⟩

theorem Mild.leads (h : s.Mild s') : s.Leads s' := by
  refine ⟨h.tables.toGrows, fun func info' hinfo' => .inr ?_, fun func => h.tables.inProgress.mpr,
    h.assumptions, h.meanings, h.separates⟩
  have hstate := h.tables.states func
  rw [hinfo', Option.map_some, eq_comm, Option.map_eq_some_iff] at hstate
  exact hstate

section

variable (hs : s.Sound) (ht : s'.tables.Sound) (hx : s.tables.Extends s'.tables)

include hs ht hx

/-- A change of the tables that extends them, and of what no type is kept in; nothing is bound. -/
theorem Sound.calm (hframes : s'.frames = s.frames) (hexprs : s'.exprTypes = s.exprTypes)
    (hassumptions : ∀ a ∈ s.assumptions, a ∈ s'.assumptions)
    (hnew : ∀ a ∈ s'.assumptions, a ∈ s.assumptions ∨
      s'.tables.InProgress a.func ∧ s'.tables.types.Settled a.type)
    (htransfers : ∀ r ∈ s'.transfers, r ∈ s.transfers ∨ s'.tables.types.Settled r.type)
    (hdefaults : ∀ d ∈ s'.defaults, d ∈ s.defaults ∨ s'.tables.types.Settled d.2)
    (hremembered : ∀ node type, s'.meanings.types.get? node = some type →
      s.meanings.types.get? node = some type ∨ s'.tables.Written type)
    (hmeanings : s.meanings.Within s'.meanings)
    (hstatics : ∀ id, s'.scopes.Static id →
      s.scopes.Static id ∨ (s'.tables.symbols.func? id).isSome)
    (hrows : ∀ scope, s'.scopes.rows scope = s.scopes.rows scope) : s.Calm s' := by
  have hw := hx.types
  have hp (func : SymbolId) : s.tables.InProgress func → s'.tables.InProgress func :=
    hx.inProgress.mpr
  refine ⟨⟨⟨ht, ?_, ?_, ?_, ?_, ?_, ?_, ?_, ?_⟩, hx, hframes, hexprs, hassumptions, hmeanings,
    separates_of_contained hx.toContained hrows⟩, fun _ h => h.of_contained hx.toContained hrows⟩
  · intro node typing htyping
    exact (hs.exprs node typing (hexprs ▸ htyping)).mono hw hp
  · intro frame hframe
    exact hx.frameSound (hs.frames frame (hframes ▸ hframe))
  · rw [hframes]
    exact hs.distinct
  · intro a ha
    rcases hnew a ha with hold | hnew
    · exact ⟨hp _ (hs.assumptions a hold).1, (hs.assumptions a hold).2.mono hw⟩
    · exact hnew
  · intro r hr
    rcases htransfers r hr with hold | hnew
    · exact (hs.transfers r hold).mono hw
    · exact hnew
  · intro d hd
    rcases hdefaults d hd with hold | hnew
    · exact (hs.defaults d hold).mono hw
    · exact hnew
  · intro node type htype
    rcases hremembered node type htype with hold | hnew
    · exact (hs.remembered node type hold).widens hx.toGrows.widens
    · exact hnew
  · intro id hid
    rcases hstatics id hid with hold | hnew
    · exact hx.toContained.isSome_func (hs.statics id hold)
    · exact hnew

end

/-- A change of what no type is kept in; nothing is bound. -/
theorem Sound.quiet (hs : s.Sound) (htypes : s'.tables.types = s.tables.types)
    (halike : s.tables.symbols.Alike s'.tables.symbols) (hframes : s'.frames = s.frames)
    (hexprs : s'.exprTypes = s.exprTypes) (hassumptions : s'.assumptions = s.assumptions)
    (htransfers : s'.transfers = s.transfers) (hdefaults : s'.defaults = s.defaults)
    (hremembered : s'.meanings.types = s.meanings.types)
    (hmeanings : s.meanings.Within s'.meanings)
    (hstatics : ∀ id, s'.scopes.Static id →
      s.scopes.Static id ∨ (s'.tables.symbols.func? id).isSome)
    (hrows : ∀ scope, s'.scopes.rows scope = s.scopes.rows scope) : s.Calm s' := by
  refine hs.calm (hs.tables.of_alike htypes halike) (.of_alike (htypes ▸ .refl _) halike) hframes
    hexprs (fun a ha => hassumptions ▸ ha) (fun a ha => .inl (hassumptions ▸ ha))
    (fun r hr => .inl (htransfers ▸ hr)) (fun d hd => .inl (hdefaults ▸ hd))
    (fun node type h => .inl (hremembered ▸ h)) hmeanings hstatics hrows

/-- A change of the tables alone. -/
theorem Sound.calm_tables (hs : s.Sound) {t : Tables} (ht : t.Sound) (hx : s.tables.Extends t) :
    s.Calm { s with tables := t } :=
  hs.calm ht hx rfl rfl (fun _ h => h) (fun _ h => .inl h) (fun _ h => .inl h)
    (fun _ h => .inl h) (fun _ _ h => .inl h) (.refl _) (fun _ h => .inl h) fun _ => rfl

end CheckState

end Stela
