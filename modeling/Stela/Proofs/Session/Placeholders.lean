import Stela.Proofs.Session.Building
import Stela.Proofs.Check.Modules
import Stela.Session.Check

/-!
# No placeholder is left

A session is analyzed module by module, each from an idle state to an idle
state. In an idle state no body is under analysis, so no type can stand for the
result of one, and nothing is left to be assumed.
-/

namespace Stela

namespace Check

open CheckState

variable {settings : Settings} {s s' : CheckState}

/-! ## The start -/

/-- The builtins are neither functions of a program nor aliases. -/
theorem calm_addBuiltin (hs : s.Sound) (name : String) {kind : SymbolKind}
    (hkind : (∃ builtin, kind = .builtinType builtin) ∨ ∃ builtin, kind = .builtinFunc builtin) :
    s.Calm (s.addBuiltin name kind) := by
  have hsound : s.tables.KindSound s.tables.symbols.size kind := by
    rcases hkind with ⟨builtin, rfl⟩ | ⟨builtin, rfl⟩ <;> trivial
  have hfunc (info : FuncInfo) : kind ≠ .func info := by
    rcases hkind with ⟨builtin, rfl⟩ | ⟨builtin, rfl⟩ <;> simp
  have halias (info : AliasInfo) : kind ≠ .aliasType info := by
    rcases hkind with ⟨builtin, rfl⟩ | ⟨builtin, rfl⟩ <;> simp
  obtain ⟨entry, hentry⟩ : ∃ entry : Symbol,
      entry = { name := name, span := .dummy, kind := kind, scope := ScopeGraph.root } := ⟨_, rfl⟩
  have heq : entry.kind = kind := by rw [hentry]
  have hadded := hs.calm_tables (hs.tables.add (heq ▸ hsound))
    ⟨.add _ (heq ▸ halias), .add _ (heq ▸ hfunc)⟩
  rw [CheckState.addBuiltin, ← hentry]
  refine hadded.trans ?_
  dsimp only
  split
  · next hidden scopes hinsert => exact calm_insert hinsert hadded.sound rfl fun _ => rfl
  · exact .refl hadded.sound

theorem sound_nothing : CheckState.Sound {} := by
  refine ⟨⟨TypeTable.sound_initial, fun id kind hkind => ?_, fun type ty symbol htype hsymbol => ?_⟩,
    fun node typing h => ?_, by simp, by simp, by simp, by simp, by simp, fun node type h => ?_,
    fun id hid => ?_⟩
  · exact absurd (SymbolTable.lt_size_of_kind? hkind) (Nat.not_lt_zero _)
  · obtain ⟨kind, rfl⟩ := TypeTable.exists_builtin_of_get?_initial htype
    cases hsymbol
  · simp at h
  · simp at h
  · exact absurd hid ScopeGraph.not_static_initial

theorem calm_initial : CheckState.Calm {} (.initial {}) := by
  have add {α : Type} (all : List α) (name : α → String) (kind : α → SymbolKind)
      (hkind : ∀ a, (∃ builtin, kind a = .builtinType builtin) ∨
        ∃ builtin, kind a = .builtinFunc builtin) (s : CheckState) (hs : s.Sound) :
      s.Calm (all.foldl (fun s a => s.addBuiltin (name a) (kind a)) s) := by
    induction all generalizing s with
    | nil => exact .refl hs
    | cons a rest ih =>
        have hfirst := calm_addBuiltin hs (name a) (hkind a)
        exact hfirst.trans (ih _ hfirst.sound)
  have htypes := add Builtin.all Builtin.name .builtinType (fun kind => .inl ⟨kind, rfl⟩) {}
    sound_nothing
  exact htypes.trans
    (add BuiltinFunc.all BuiltinFunc.name .builtinFunc (fun kind => .inr ⟨kind, rfl⟩) _ htypes.sound)

theorem kind?_nothing (id : SymbolId) (kind : SymbolKind) :
    ({} : CheckState).tables.symbols.kind? id ≠ some kind := fun hkind =>
  absurd (SymbolTable.lt_size_of_kind? hkind) (Nat.not_lt_zero _)

/-- No function is declared at the start. -/
theorem func?_initial (func : SymbolId) :
    (CheckState.initial {}).tables.symbols.func? func = none := by
  cases hinfo : (CheckState.initial {}).tables.symbols.func? func with
  | none => rfl
  | some info =>
      have hstate := calm_initial.tables.states func
      rw [hinfo, Option.map_some, eq_comm, Option.map_eq_some_iff] at hstate
      obtain ⟨info₀, hinfo₀, -⟩ := hstate
      exact absurd (SymbolTable.func?_eq_some.mp hinfo₀) (kind?_nothing func _)

theorem idle_initial : (CheckState.initial {}).Idle := by
  have hnothing : CheckState.Apart {} 0 := fun scope => by simp
  refine ⟨calm_initial.sound, calm_initial.frames, fun func info hinfo => ?_, fun id info' hinfo' => ?_,
    (calm_initial.apart 0 hnothing).mono (Nat.zero_le _)⟩
  · simp [func?_initial] at hinfo
  · obtain ⟨info, hinfo⟩ := calm_initial.tables.aliases id info' hinfo'
    exact absurd hinfo (kind?_nothing id _)

/-! ## All modules -/

theorem idle_modules {modules : List Module} {isExternal : Bool} {visited visited' : List Nat}
    (run : RunsEach (ModuleRuns settings isExternal) modules s visited s' visited') (hidle : s.Idle) :
    s'.Idle :=
  run.keeps (P := fun t _ => t.Idle) hidle fun _ _ _ _ _ runModule h => runModule.idle h

theorem calm_warnUnused (hs : s.Sound) (h : warnUnused.Gives settings s () s') : s.Calm s' := by
  simp only [warnUnused, gives_bind, gives_settings] at h
  obtain ⟨_, _, ⟨rfl, rfl⟩, h⟩ := h
  rw [gives_ite] at h
  split at h
  · simp only [gives_bind, gives_tables, gives_update] at h
    obtain ⟨_, _, ⟨rfl, rfl⟩, rfl⟩ := h
    exact hs.quiet rfl (.refl _) rfl rfl rfl rfl rfl rfl (.refl _) (fun _ h => .inl h) fun _ => rfl
  · exact (gives_pure.mp h).2 ▸ .refl hs

theorem idle_of_calm (hidle : s.Idle) (h : s.Calm s') : s'.Idle :=
  ⟨h.sound, h.frames.trans hidle.frames, fun func =>
    done_of_leads h.leads (hidle.done func), hidle.complete.grows h.tables.toGrows,
    h.separates hidle.complete hidle.apart⟩

end Check

open Check

/-! ## The whole session -/

/-- The runs behind a successful check. -/
theorem Session.check_runs {session : Session} {settings : Settings} {meanings : Meanings}
    {program : Program} (h : (session.check settings meanings).outcome = .ok program) :
    ∃ externals modules s₁ s₂,
      (arrange session.externals session.externalOrder).Gives settings (.initial meanings) externals
        (.initial meanings) ∧
      (arrange session.modules session.moduleOrder).Gives settings (.initial meanings) modules
        (.initial meanings) ∧
      (externals.forM (checkModule (session.nodes.decls + 1) true)).Gives settings (.initial meanings) ()
        s₁ ∧
      (modules.forM (checkModule (session.nodes.decls + 1) false)).Gives settings s₁ () s₂ ∧
      warnUnused.Gives settings s₂ () program.final := by
  have harrange {modules : List Module} {order : Except GraphError (List Nat)} {ms : List Module}
      {s s' : CheckState} (h : (arrange modules order).Gives settings s ms s') : s = s' := by
    unfold arrange at h
    split at h
    · exact (gives_require.mp h).2
    · simp at h
  unfold Session.check at h
  split at h
  · next order final hanalyze =>
    cases h
    have hanalyze : session.analyze.Gives settings (.initial meanings) order final := hanalyze
    simp only [Session.analyze, gives_bind, gives_pure] at hanalyze
    obtain ⟨externals, _, hexternals, modules, _, hmodules, _, s₁, hfirst, _, s₂, hsecond, _, _,
      hwarn, -, rfl⟩ := hanalyze
    obtain rfl := harrange hexternals
    obtain rfl := harrange hmodules
    exact ⟨externals, modules, s₁, s₂, hexternals, hmodules, hfirst, hsecond, hwarn⟩
  · simp at h
  · simp at h

/-- The analysis of a session that ends in the given state and visits the given expressions, the last
one first. -/
inductive Session.Visits (session : Session) (settings : Settings) (final : CheckState)
    (visited : List Nat) : Prop
  | intro {externals modules s₁ s₂ visited₁}
      (hexternals : (arrange session.externals session.externalOrder).Gives settings (.initial {})
        externals (.initial {}))
      (hmodules : (arrange session.modules session.moduleOrder).Gives settings (.initial {}) modules
        (.initial {}))
      (runExternals : RunsEach (ModuleRuns settings true) externals (.initial {}) [] s₁ visited₁)
      (runModules : RunsEach (ModuleRuns settings false) modules s₁ visited₁ s₂ visited)
      (hwarn : warnUnused.Gives settings s₂ () final)

/-- Behind every successful check there are visits. -/
theorem Session.exists_visits {session : Session} {settings : Settings} {program : Program}
    (h : (session.check settings).outcome = .ok program) :
    ∃ visited, session.Visits settings program.final visited := by
  obtain ⟨externals, modules, s₁, s₂, hexternals, hmodules, hfirst, hsecond, hwarn⟩ := check_runs h
  obtain ⟨visited₁, runExternals⟩ :=
    runs_forM externals (fun _ _ _ => runs_checkModule (session.nodes.decls + 1)) hfirst []
  obtain ⟨visited, runModules⟩ :=
    runs_forM modules (fun _ _ _ => runs_checkModule (session.nodes.decls + 1)) hsecond visited₁
  exact ⟨visited, .intro hexternals hmodules runExternals runModules hwarn⟩

theorem Session.Visits.idle {session : Session} {settings : Settings} {final : CheckState}
    {visited : List Nat} (h : session.Visits settings final visited) : final.Idle := by
  obtain ⟨-, -, runExternals, runModules, hwarn⟩ := h
  have hidle := idle_modules runModules (idle_modules runExternals idle_initial)
  exact idle_of_calm hidle (calm_warnUnused hidle.sound hwarn)

/-- A program is idle at the end of its analysis. -/
theorem Session.idle_final {session : Session} {settings : Settings} {program : Program}
    (h : (session.check settings).outcome = .ok program) : program.final.Idle := by
  obtain ⟨visited, hvisits⟩ := exists_visits h
  exact hvisits.idle

/-- The types that the analysis of a program records. -/
inductive Program.Records (p : Program) : TypeId → Prop
  | expr {node typing} (h : p.final.exprTypes.get? node = some typing) : Records p typing.type.type
  | object {id info} (h : p.tables.symbols.object? id = some info) : Records p info.type.type
  | field {id info} (h : p.tables.symbols.field? id = some info) : Records p info.type
  | funcParam {id info param} (h : p.tables.symbols.func? id = some info)
      (hparam : param ∈ info.params) : Records p param.type
  | funcResult {id info ret} (h : p.tables.symbols.func? id = some info)
      (hret : info.ret = some ret) : Records p ret
  | closureParam {id info param} (h : p.tables.symbols.closure? id = some info)
      (hparam : param ∈ info.params) : Records p param.type
  | closureResult {id info ret} (h : p.tables.symbols.closure? id = some info)
      (hret : info.ret = some ret) : Records p ret
  | capture {id info capture} (h : p.tables.symbols.closure? id = some info)
      (hcapture : capture ∈ info.captures) : Records p capture.type
  | aliasTarget {id info target} (h : p.tables.symbols.kind? id = some (.aliasType info))
      (htarget : info.target = .resolved target) : Records p target
  | hostSlot {id info slot} (h : p.tables.symbols.kind? id = some (.hostType info))
      (hslot : slot ∈ info.fields) : Records p slot.type
  | written {node type} (h : p.final.meanings.types.get? node = some type) : Records p type
  | transfer {record} (h : record ∈ p.final.transfers) : Records p record.type
  | default {entry} (h : entry ∈ p.final.defaults) : Records p entry.2
  | helper {request} (h : request ∈ p.helperRequests) : Records p request.2

/-- Helpers are asked for by transfers, objects, declarations without an initializer and captures,
all of settled types. -/
theorem Program.settled_of_demand {p : Program} (hs : p.final.Sound) {demand : LifetimeOp × TypeId}
    (h : demand ∈ p.demands) : p.tables.types.Settled demand.2 := by
  have hcapture {closure : SymbolId} {c : Capture} (hc : c ∈ p.captures closure) :
      p.tables.types.Settled c.type := by
    unfold captures at hc
    cases hclosure : p.tables.symbols.closure? closure with
    | none => simp [hclosure] at hc
    | some info =>
        rw [hclosure] at hc
        exact (hs.tables.kinds _ _ (SymbolTable.closure?_eq_some.mp hclosure)).2.2 c hc
  simp only [demands, List.mem_append, List.mem_flatMap, List.mem_map, List.mem_filter] at h
  obtain ((⟨record, hrecord, op, -, rfl⟩ | ⟨symbol, hsymbol, hdemand⟩) | ⟨entry, ⟨hentry, -⟩, rfl⟩) |
    ⟨c, ⟨⟨closure, -, hc⟩, -⟩, hdemand⟩ := h
  · exact hs.transfers record hrecord
  · obtain ⟨id, hid, rfl⟩ := List.getElem_of_mem hsymbol
    rw [Array.getElem_toList] at hdemand
    have hget : p.tables.symbols.get? id = some p.tables.symbols.entries[id] :=
      Array.getElem?_eq_getElem (by simpa using hid)
    unfold objectRequests at hdemand
    split at hdemand
    · next info hkind =>
      split at hdemand
      · obtain rfl := List.mem_singleton.mp hdemand
        exact hs.tables.kinds id (.object info) ((SymbolTable.kind?_of_get? hget).trans
          (congrArg some hkind))
      · simp at hdemand
    · simp at hdemand
  · exact hs.defaults entry hentry
  · simp only [List.mem_cons, List.not_mem_nil, or_false] at hdemand
    rcases hdemand with rfl | rfl
    · exact hcapture hc
    · exact hcapture hc

theorem Program.settled_of_request {p : Program} (hs : p.final.Sound) {request : LifetimeOp × TypeId}
    (h : request ∈ p.helperRequests) : p.tables.types.Settled request.2 := by
  simp only [helperRequests, List.mem_flatMap, List.mem_map, List.mem_filter] at h
  obtain ⟨op, -, type, ⟨-, hdemand⟩, rfl⟩ := h
  exact settled_of_demand hs (List.contains_iff_mem.mp hdemand)

/-- The types that a sound state without bodies under analysis records are settled. -/
theorem Program.settled_of_records {p : Program} (hidle : p.final.Idle) {type : TypeId}
    (h : p.Records type) : p.tables.types.Settled type := by
  have hsound := hidle.sound
  have hnone (func : SymbolId) : ¬ p.tables.InProgress func := by
    intro hfunc
    obtain ⟨info, hinfo, hstate⟩ := Option.map_eq_some_iff.mp hfunc
    simp [hidle.done func info hinfo] at hstate
  induction h with
  | expr h =>
      rcases hsound.exprs _ _ h with (hsettled | ⟨func, hfunc, -⟩) | ⟨_, _, -, func, hfunc, -⟩
      · exact hsettled
      · exact absurd hfunc (hnone func)
      · exact absurd hfunc (hnone func)
  | object h => exact hsound.tables.kinds _ _ (SymbolTable.object?_eq_some.mp h)
  | field h => exact hsound.tables.kinds _ _ (SymbolTable.field?_eq_some.mp h)
  | funcParam h hparam => exact (hsound.tables.kinds _ _ (SymbolTable.func?_eq_some.mp h)).1 _ hparam
  | funcResult h hret => exact (hsound.tables.kinds _ _ (SymbolTable.func?_eq_some.mp h)).2.1 _ hret
  | closureParam h hparam =>
      exact (hsound.tables.kinds _ _ (SymbolTable.closure?_eq_some.mp h)).1 _ hparam
  | closureResult h hret =>
      exact (hsound.tables.kinds _ _ (SymbolTable.closure?_eq_some.mp h)).2.1 _ hret
  | capture h hcapture =>
      exact (hsound.tables.kinds _ _ (SymbolTable.closure?_eq_some.mp h)).2.2 _ hcapture
  | aliasTarget h htarget => exact ((hsound.tables.kinds _ _ h).2 _ htarget).1
  | hostSlot h hslot => exact (hsound.tables.kinds _ _ h).2 _ hslot
  | written h => exact (hsound.remembered _ _ h).1
  | transfer h => exact hsound.transfers _ h
  | default h => exact hsound.defaults _ h
  | helper h => exact settled_of_request hsound h

/-- No placeholder is left in a program that was analyzed without an error: no recorded type mentions
one at any depth, every function is done and has a result, and nothing is left to be assumed. -/
theorem Session.check_leaves_no_placeholder (session : Session) (settings : Settings)
    (program : Program) (h : (session.check settings).outcome = .ok program) :
    (∀ type, program.Records type → ¬ program.tables.Mentions type) ∧
    (∀ func info, program.tables.symbols.func? func = some info →
      info.ret.isSome ∧ info.state = .done) ∧
    program.final.assumptions = [] := by
  have hidle := idle_final h
  refine ⟨fun type htype => hidle.sound.tables.not_mentions (program.settled_of_records hidle htype),
    fun func info hinfo => ?_, ?_⟩
  · obtain ⟨ret, hret, -⟩ := settled_ret_of_done hidle.sound hinfo (hidle.done func info hinfo)
    exact ⟨Option.isSome_iff_exists.mpr ⟨ret, hret⟩, hidle.done func info hinfo⟩
  · refine List.eq_nil_iff_forall_not_mem.mpr fun a ha => ?_
    obtain ⟨info, hinfo, hstate⟩ := Option.map_eq_some_iff.mp (hidle.sound.assumptions a ha).1
    simp [hidle.done a.func info hinfo] at hstate

/-- Two functions that return each other's result. -/
def Session.mutual : Session :=
  Session.empty.withSource "main.stela"
    "func a(n: sint) { if n < 1 { return 1; } return b(n); } func b(n: sint) { return a(n - 1); }"

/-- What is seen of the outcome of a successful check is seen of its program. -/
theorem exists_ok_of_map_toOption {ε α β : Type} {e : Except ε α} {f : α → β} {b : β}
    (h : e.toOption.map f = some b) : ∃ a, e = .ok a ∧ f a = b := by
  cases e with
  | error _ => simp [Except.toOption] at h
  | ok a => exact ⟨a, rfl, by simpa [Except.toOption] using h⟩

theorem Session.exists_check_mutual : ∃ program, (mutual.check {}).outcome = .ok program := by
  have hok : (mutual.check {}).outcome.toOption.map (fun _ => ()) = some () := by
    rw [Session.mutual, withSource_ofList]
    decide +kernel
  obtain ⟨program, hprogram, -⟩ := exists_ok_of_map_toOption hok
  exact ⟨program, hprogram⟩

theorem Session.check_mutual_leaves_no_placeholder :
    ∃ program, (mutual.check {}).outcome = .ok program ∧
      (∀ type, program.Records type → ¬ program.tables.Mentions type) ∧
      (∀ func info, program.tables.symbols.func? func = some info →
        info.ret.isSome ∧ info.state = .done) ∧
      program.final.assumptions = [] := by
  obtain ⟨program, hprogram⟩ := exists_check_mutual
  exact ⟨program, hprogram, check_leaves_no_placeholder _ _ _ hprogram⟩

/-- A function that calls itself before its result is known, and a parameter of an array type. The
type of the parameter is the first that is entered, and only the first check enters it. -/
def Session.parameterized : Session :=
  Session.empty.withSource "main.stela"
    "func f(n: sint) { if n == 0 { return f(n); } return 1; } func g(a: [sint]) { }"

/-- The second check takes the number of the array type from the node and numbers the placeholder of
`f` alike. -/
theorem Session.recheck_parameterized_leaves_placeholder :
    ∃ program, (parameterized.recheck {}).outcome = .ok program ∧
      ∃ type, program.Records type ∧ program.tables.Mentions type := by
  have hok : (parameterized.recheck {}).outcome.toOption.map (fun program =>
      ((program.tables.symbols.object? 15).map fun info => info.type.type,
        program.tables.types.get? 7)) = some (some 7, some (.pending 12)) := by
    rw [parameterized, withSource_ofList]
    decide +kernel
  obtain ⟨program, hprogram, hseen⟩ := exists_ok_of_map_toOption hok
  obtain ⟨hobject, hpending⟩ := Prod.mk.inj hseen
  obtain ⟨info, hinfo, htype⟩ := Option.map_eq_some_iff.mp hobject
  exact ⟨program, hprogram, 7, htype ▸ .object hinfo, 7, 12, .refl, hpending⟩

end Stela
