import Stela.Proofs.Check.Rejecting
import Stela.Proofs.Helper.Decoding
import Stela.Proofs.Session.Importing
import Stela.Proofs.Session.Safety
import Stela.Proofs.Types.Interchange

/-!
# Alias cycles in a session

A check comes to a module when what stands before it was analyzed without an
error, so all aliases that are known by then are resolved and what they stand for
is founded. A module with an alias that leads back to itself ends the check, and
nothing else is blamed for being recursive. If every module passes, the types
that aliases, arrays and function types are made of form no cycle, and the walks
that follow them end.
-/

namespace Stela

open Check CheckState

namespace Tables

variable {t : Tables}

/-- The walks over types end: from every type the walk along weak aliases and the one along all aliases
come to a type that leads no further, and every type has a text and a code, which need no larger bound. -/
structure WalksEnd (t : Tables) : Prop where
  concrete : ∀ type < t.types.size, ∃ last, t.concrete? type = some last ∧ t.Unwraps false type last
  representation : ∀ type < t.types.size, ∃ last,
    t.representation? type = some last ∧ t.Unwraps true type last
  text : ∀ type < t.types.size, ∃ text, ∀ bound ≥ t.types.size, t.textWithin? bound type = some text
  code : ∀ type < t.types.size, ∃ code, ∀ bound > t.types.size, t.codeWithin? bound type = some code

/-- What a type refers to is a target or a part of it. -/
theorem RefersTo.link {type part : TypeId} (h : t.RefersTo type part) : t.Link type part := by
  rcases List.mem_append.mp h with htarget | hpart
  · exact .inl (AliasStep.of_weak (Option.mem_toList.mp htarget))
  · cases htype : t.types.get? type with
    | none => simp [htype] at hpart
    | some ty => exact .inr ⟨ty, htype, by simpa [htype] using hpart⟩

theorem Acyclic.noAliasCycle (h : t.Acyclic) : t.NoAliasCycle := by
  intro type hcycle
  have hwf : WellFounded (Relation.TransGen fun part type => t.Link type part) := WellFounded.transGen h
  have hlinks : Relation.TransGen t.Link type type :=
    Relation.TransGen.mono (fun _ _ => RefersTo.link) _ _ hcycle
  exact hwf.irrefl.irrefl type (Relation.transGen_swap.mpr hlinks)

/-- The walks end where all that is referred to is there, nothing leads back to itself and types were
entered after their parts. -/
theorem Acyclic.walksEnd (h : t.Acyclic) (he : t.Enclosed) (hordered : t.types.Ordered) :
    t.WalksEnd where
  concrete type htype :=
    ⟨_, he.concrete?_eq (h.aliasesEnd false) htype, unwraps_concrete (h.aliasesEnd false) type⟩
  representation type htype :=
    ⟨_, he.representation?_eq (h.aliasesEnd true) htype, unwraps_representation (h.aliasesEnd true) type⟩
  text type htype := by
    obtain ⟨text, htext⟩ := exists_textWithin? hordered he.names htype
    exact ⟨text, fun bound hbound => htext bound (htype.trans_le hbound)⟩
  code type htype := by
    obtain ⟨code, hcode⟩ := exists_codeWithin? h.noAliasCycle he.refersInside he.names htype
    exact ⟨code, fun bound hbound => hcode bound ((card_reached_le _ _ _).trans_lt hbound)⟩

end Tables

namespace Session

variable {session : Session} {settings : Settings} {m : Module} {s t : CheckState}

/-! ## Modules in turn -/

theorem turning_initial (hbuilt : session.Built) :
    (CheckState.initial {}).Turning session.nodes.decls (session.nodes.decls + 1) session.keys := by
  refine ⟨idle_initial, blank_initial.ready,
    blank_initial.free (nodup_keys hbuilt) fun key hkey => below_of_built hbuilt hkey, ?_⟩
  intro id info target hkind
  obtain ⟨info', hinfo'⟩ := calm_initial.tables.aliases id info hkind
  exact absurd hinfo' (kind?_nothing id _)

/-- The nodes of a session are those of its modules in any order. -/
theorem keys_perm {externals modules : List Module} (hexternals : externals.Perm session.externals)
    (hmodules : modules.Perm session.modules) :
    session.keys.Perm (externals.flatMap Module.keys ++ modules.flatMap Module.keys) := by
  rw [← List.flatMap_append]
  exact (hexternals.append hmodules).symm.flatMap_right Module.keys

/-- When the turn of a module comes all aliases are resolved, and the nodes of the module have no meaning
yet. -/
theorem turning_of_turn (hbuilt : session.Built) (h : session.Turn settings {} m s) :
    s.Turning session.nodes.decls (session.nodes.decls + 1) m.keys := by
  have hstart := turning_initial hbuilt
  cases h with
  | @external order before _ after _ horder hmodules hrun =>
      have hperm := keys_perm (arranged_perm horder) (.refl session.modules)
      rw [hmodules, List.flatMap_append, List.flatMap_cons, List.append_assoc, List.append_assoc] at hperm
      exact (turning_checkModules before _ (hstart.perm hperm) hrun).left
  | @source first second before _ after _ _ hfirst hsecond hmodules hexternals hrun =>
      have hperm := keys_perm (arranged_perm hfirst) (arranged_perm hsecond)
      rw [hmodules, List.flatMap_append, List.flatMap_cons] at hperm
      have hturning := turning_checkModules _ _ (hstart.perm hperm) hexternals
      exact (turning_checkModules before _ hturning hrun).left

/-- Modules that are put into an order had one. -/
theorem gives_arrange {modules arranged' : List Module} {order : Except GraphError (List Nat)}
    {s' : CheckState} (h : (arrange modules order).Gives settings s arranged' s') :
    ∃ positions, order = .ok positions ∧ arranged' = arranged modules positions := by
  unfold arrange at h
  split at h
  · exact ⟨_, rfl, eq_filterMap_of_mapM (gives_require.mp h).1⟩
  · simp at h

/-- Behind a check without an error every module was analyzed when its turn came. -/
theorem gives_of_turn {program : Program} (h : (session.check settings).outcome = .ok program)
    (hturn : session.Turn settings {} m s) : ∃ isExternal s',
      (checkModule (session.nodes.decls + 1) isExternal m).Gives settings s () s' := by
  obtain ⟨externals, modules, s₁, s₂, hexternals, hmodules, hfirst, hsecond, -⟩ := check_runs h
  obtain ⟨first, hfirstOrder, rfl⟩ := gives_arrange hexternals
  obtain ⟨second, hsecondOrder, rfl⟩ := gives_arrange hmodules
  cases hturn with
  | external horder heq hrun =>
      obtain rfl := Except.ok.inj (hfirstOrder.symm.trans horder)
      rw [heq] at hfirst
      obtain ⟨s', hbefore, hrest⟩ := gives_forM_append.mp hfirst
      obtain rfl := (CheckResult.ok.inj (hbefore.symm.trans hrun)).2
      obtain ⟨s'', hm, -⟩ := gives_forM_cons.mp hrest
      exact ⟨true, s'', hm⟩
  | source horder horder' heq hrunExternals hrun =>
      obtain rfl := Except.ok.inj (hfirstOrder.symm.trans horder)
      obtain rfl := Except.ok.inj (hsecondOrder.symm.trans horder')
      obtain rfl := (CheckResult.ok.inj (hfirst.symm.trans hrunExternals)).2
      rw [heq] at hsecond
      obtain ⟨s', hbefore, hrest⟩ := gives_forM_append.mp hsecond
      obtain rfl := (CheckResult.ok.inj (hbefore.symm.trans hrun)).2
      obtain ⟨s'', hm, -⟩ := gives_forM_cons.mp hrest
      exact ⟨false, s'', hm⟩

/-! ## Alias cycles -/

/-- A check comes to a module and declares its types, and this is the state behind that. -/
inductive Declared (session : Session) (settings : Settings) (m : Module) (t : CheckState) : Prop
  | intro {s scope s'} (hturn : session.Turn settings {} m s)
    (hmodule : (declareModule m).Gives settings s scope s')
    (htypes : (m.decls.forM declareType).Gives settings { s' with scopes := s'.scopes.setCursor scope } () t)

/-- An alias is declared in a module. -/
def DeclaresAlias (m : Module) (t : CheckState) (a : SymbolId) : Prop :=
  ∃ node name target strong, .aliasType node name target strong ∈ m.decls ∧
    t.meanings.decls.get? node.id = some a

/-- Alias cycles are exactly what is rejected. -/
structure RejectsAliasCycles (session : Session) (settings : Settings) : Prop where
  /-- A module with an alias that leads back to itself fails while its types are completed, which ends
  the check. -/
  rejected : ∀ m t a, session.Declared settings m t → Relation.TransGen t.Refers a a →
    (∃ error u, (m.decls.forM completeType).Fails settings t (.error error) u) ∧
      ∃ error, (session.check settings).outcome = .error (.error error)
  /-- An alias is blamed only if an alias of that name leads back to itself in its module. -/
  blamed : ∀ error name, (session.check settings).outcome = .error (.error error) →
    error.kind = .recursiveAlias name → ∃ m t a, session.Declared settings m t ∧ DeclaresAlias m t a ∧
      t.tables.symbols.name a = name ∧ Relation.TransGen t.Refers a a
  /-- Behind a check without an error every alias is resolved, nothing leads back to itself along targets
  and parts of types, and the walks over types end. -/
  accepted : ∀ program, (session.check settings).outcome = .ok program →
    program.tables.Complete ∧ program.tables.Acyclic ∧ program.tables.WalksEnd

theorem Declared.opened (hbuilt : session.Built) (h : session.Declared settings m t) :
    ∃ s, Opened session.nodes.decls (session.nodes.decls + 1) m s t := by
  obtain ⟨hturn, hmodule, htypes⟩ := h
  exact ⟨_, opened_of_turning (turning_of_turn hbuilt hturn) hmodule rfl htypes⟩

/-- Behind a check without an error the types of every module were completed. -/
theorem Declared.completed {program : Program} (hok : (session.check settings).outcome = .ok program)
    (h : session.Declared settings m t) : ∃ u, (m.decls.forM completeType).Gives settings t () u := by
  obtain ⟨hturn, hmodule, htypes⟩ := h
  obtain ⟨isExternal, s', hgives⟩ := gives_of_turn hok hturn
  obtain ⟨_, run⟩ := runs_checkModule _ hgives []
  cases run with
  | intro hmodule' htypes' hparts =>
      obtain ⟨rfl, rfl⟩ := CheckResult.ok.inj (hmodule.symm.trans hmodule')
      obtain ⟨-, rfl⟩ := CheckResult.ok.inj (htypes.symm.trans htypes')
      exact ⟨_, hparts⟩

/-- An analysis that fails with another error than one about the order of modules had found both orders. -/
theorem exists_orders_of_fails {error : TypeError} (hgraph : ∀ reason, error.kind ≠ .graph reason)
    (h : session.analyze.Fails settings s (.error error) t) :
    ∃ first second, session.externalOrder = .ok first ∧ session.moduleOrder = .ok second := by
  have harranges {modules : List Module} {order : Except GraphError (List Nat)} {s s' : CheckState} :
      ¬ (arrange modules order).Fails settings s (.error error) s' := by
    intro hfails
    unfold arrange at hfails
    split at hfails
    · next order =>
      cases hread : order.mapM fun position => modules[position]? <;> rw [hread] at hfails <;> cases hfails
    · cases hfails
      exact hgraph _ rfl
  unfold analyze at h
  rcases fails_bind.mp h with harrange | ⟨_, _, harrange, h⟩
  · exact absurd harrange harranges
  obtain ⟨first, hfirst, -⟩ := gives_arrange harrange
  rcases fails_bind.mp h with harrange | ⟨_, _, harrange, -⟩
  · exact absurd harrange harranges
  obtain ⟨second, hsecond, -⟩ := gives_arrange harrange
  exact ⟨first, second, hfirst, hsecond⟩

/-- A check that ends in an error fails while it analyzes. -/
theorem fails_of_outcome {error : TypeError} (h : (session.check settings).outcome = .error (.error error)) :
    ∃ t, session.analyze.Fails settings (.initial {}) (.error error) t := by
  unfold check at h
  split at h
  · cases h
  · next hanalyze =>
    cases h
    exact ⟨_, hanalyze⟩
  · cases h

/-- A check that blames an alias failed in a module, behind the declaration of its types. -/
theorem exists_declared_of_blamed (hbuilt : session.Built) {error : TypeError} {name : String}
    (h : (session.check settings).outcome = .error (.error error))
    (hname : error.kind = .recursiveAlias name) :
    ∃ m t, session.Declared settings m t ∧ t.Loops name := by
  obtain ⟨t', hfails⟩ := fails_of_outcome h
  obtain ⟨first, second, hfirst, hsecond⟩ := exists_orders_of_fails (by simp [hname]) hfails
  obtain ⟨m, s, isExternal, s', hturn, hfails⟩ := turn_of_fails hfirst hsecond hfails
  obtain ⟨scope, s₁, s₂, hmodule, hfails⟩ := fails_checkModule (declareModule_of_turn hturn) hfails
  have hturning := turning_of_turn hbuilt hturn
  have htells := Tells.withCursor (Q := fun _ _ => True)
    (tells_checkDecls fun t htypes => opened_of_turning hturning hmodule rfl htypes)
  obtain ⟨t, htypes, hloops⟩ := htells.blames _ _ hfails name ⟨error, rfl, hname⟩
  exact ⟨m, t, ⟨hturn, hmodule, htypes⟩, hloops⟩

/-- At the end of a check without an error what aliases stand for is founded. -/
theorem founded_final (hbuilt : session.Built) {program : Program}
    (h : (session.check settings).outcome = .ok program) : program.tables.TargetsFounded := by
  obtain ⟨externals, modules, s₁, s₂, hexternals, hmodules, hfirst, hsecond, hwarn⟩ := check_runs h
  obtain ⟨first, hfirstOrder, rfl⟩ := gives_arrange hexternals
  obtain ⟨second, hsecondOrder, rfl⟩ := gives_arrange hmodules
  have hperm := keys_perm (arranged_perm hfirstOrder) (arranged_perm hsecondOrder)
  have hturning := turning_checkModules _ _ ((turning_initial hbuilt).perm hperm) hfirst
  rw [← List.append_nil (List.flatMap _ _)] at hturning
  have hturning := turning_checkModules _ _ hturning hsecond
  exact hturning.founded.grows hturning.idle.complete
    (calm_warnUnused hturning.idle.sound hwarn).tables.toGrows

/-- The first check of a session that was built ends in a program whose tables refer to nothing that is
not there and whose types were entered after their parts, or in an error of the program. -/
theorem enclosed_or_error (hbuilt : session.Built) :
    (∃ program, (session.check settings).outcome = .ok program ∧ program.tables.Enclosed ∧
      program.tables.types.Ordered) ∨
      ∃ error, (session.check settings).outcome = .error (.error error) := by
  have hstart := turning_initial hbuilt
  have hmeets := fares_analyze hstart.free rfl hstart.ready settings
  unfold check
  split
  · next order final hanalyze =>
    rw [hanalyze] at hmeets
    have hclosed : final.Closed := hmeets.1.closed
    exact .inl ⟨_, rfl, hclosed.enclosed, hclosed.ordered⟩
  · exact .inr ⟨_, rfl⟩
  · next fault final hanalyze =>
    rw [hanalyze] at hmeets
    obtain ⟨⟨error, herror⟩, -⟩ := hmeets
    cases herror

/-- Alias cycles are exactly what the first check of a session that was built rejects, whatever the
settings. -/
theorem check_rejects_alias_cycles (session : Session) (hbuilt : session.Built) (settings : Settings) :
    session.RejectsAliasCycles settings where
  rejected m t a hdeclared hloop := by
    obtain ⟨s, hopened⟩ := hdeclared.opened hbuilt
    refine ⟨hopened.fails hloop, ?_⟩
    rcases enclosed_or_error hbuilt with ⟨program, hok, -⟩ | herror
    · obtain ⟨u, hgives⟩ := hdeclared.completed hok
      exact absurd hloop (hopened.ends hgives a).not_transGen_self
    · exact herror
  blamed error name h hname := by
    obtain ⟨m, t, hdeclared, a, ha, hloop⟩ := exists_declared_of_blamed hbuilt h hname
    obtain ⟨s, hopened⟩ := hdeclared.opened hbuilt
    exact ⟨m, t, a, hdeclared, hopened.declared hloop, ha, hloop⟩
  accepted program h := by
    rcases enclosed_or_error hbuilt with ⟨program', h', henclosed, hordered⟩ | ⟨error, herror⟩
    · obtain rfl := Except.ok.inj (h.symm.trans h')
      have hacyclic := Tables.acyclic_of_founded hordered (founded_final hbuilt h)
      exact ⟨(idle_final h).complete, hacyclic, hacyclic.walksEnd henclosed hordered⟩
    · cases h.symm.trans herror

/-- What an outcome blames the program for. -/
def rejection? {α : Type} : Except CheckFailure α → Option TypeErrorKind
  | .error (.error error) => some error.kind
  | _ => none

theorem exists_error_of_rejection? {α : Type} {outcome : Except CheckFailure α} {kind : TypeErrorKind}
    (h : rejection? outcome = some kind) :
    ∃ error, outcome = .error (.error error) ∧ error.kind = kind := by
  unfold rejection? at h
  split at h
  · exact ⟨_, rfl, Option.some.inj h⟩
  · cases h

/-- Two aliases that lead to each other through an array and a function type. -/
def circling : Session :=
  Session.empty.withSource "main.stela" "type A = [B]; type B = func(A) -> sint;"

/-- Aliases that end, the last one in a struct that refers to itself and to the first alias. -/
def chaining : Session :=
  Session.empty.withSource "main.stela" "type A = [B]; type B S; struct S { next: [S]; all: A; }"

theorem check_circling_rejects_alias_cycle :
    (∃ m t a, circling.Declared {} m t ∧ DeclaresAlias m t a ∧ t.tables.symbols.name a = "A" ∧
      Relation.TransGen t.Refers a a ∧ ∃ error u, (m.decls.forM completeType).Fails {} t (.error error) u) ∧
    ∃ program, (chaining.check {}).outcome = .ok program ∧ program.tables.Complete ∧
      program.tables.Acyclic ∧ program.tables.WalksEnd := by
  have hbuilt : circling.Built ∧ chaining.Built := ⟨.withSource .empty _ _, .withSource .empty _ _⟩
  constructor
  · have hcircling := check_rejects_alias_cycles circling hbuilt.1 {}
    have hkind : rejection? (circling.check {}).outcome = some (.recursiveAlias "A") := by
      rw [circling, withSource_ofList]
      decide +kernel
    obtain ⟨error, herror, hkind⟩ := exists_error_of_rejection? hkind
    obtain ⟨m, t, a, hdeclared, ha, hname, hloop⟩ := hcircling.blamed error "A" herror hkind
    exact ⟨m, t, a, hdeclared, ha, hname, hloop, (hcircling.rejected m t a hdeclared hloop).1⟩
  · have hok : (chaining.check {}).outcome.toOption.map (fun _ => ()) = some () := by
      rw [chaining, withSource_ofList]
      decide +kernel
    obtain ⟨program, hprogram, -⟩ := exists_ok_of_map_toOption hok
    exact ⟨program, hprogram, (check_rejects_alias_cycles chaining hbuilt.2 {}).accepted program hprogram⟩

/-- A function that is defined elsewhere and used before its result type is entered. -/
def borrowing : Session :=
  Session.empty.withSource "main.stela" "func main() { h; } extern func h() -> [sint];"

/-- In the second check the type of `h` has the number of its result type, so it returns itself. -/
theorem recheck_borrowing_closes_cycle : borrowing.Built ∧ ∃ program,
    (borrowing.recheck {}).outcome = .ok program ∧ ¬ program.tables.Acyclic := by
  have hbuilt : borrowing.Built := .withSource .empty _ _
  have hok : (borrowing.recheck {}).outcome.toOption.map (fun program =>
      program.tables.types.get? 7) = some (some (.func [] 7)) := by
    rw [borrowing, withSource_ofList]
    decide +kernel
  obtain ⟨program, hprogram, hfunc⟩ := exists_ok_of_map_toOption hok
  have hlink : program.tables.Link 7 7 := .inr ⟨_, hfunc, List.mem_singleton_self 7⟩
  exact ⟨hbuilt, program, hprogram, fun h => h.irrefl.irrefl 7 hlink⟩

end Session

end Stela
