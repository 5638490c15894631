import Stela.Proofs.Check.Failing
import Stela.Proofs.Check.Visiting
import Stela.Proofs.Modules.Exactness
import Stela.Proofs.Session.Building
import Stela.Session.Check
import Stela.Session.Host

/-!
# Imports in a session

The order of the modules and their analysis check the same things about names and
imports. Once there is an order, every module is declared when its turn comes:
its name is new, and what it imports was declared before. So a check that fails
then does so on what is in a module.
-/

namespace Stela

open ModuleOrder Check CheckState

namespace Session

variable {session : Session} {settings : Settings} {meanings : Meanings} {m : Module} {t : CheckState}

/-- Modules in an order that is given by positions. -/
def arranged (modules : List Module) (order : List Nat) : List Module :=
  order.filterMap fun position => modules[position]?

/-- A check of a session comes to a module in a state: what stands before the module was analyzed
without an error. -/
inductive Turn (s : Session) (settings : Settings) (meanings : Meanings) : Module → CheckState → Prop
  | external {order before m after t} (horder : s.externalOrder = .ok order)
    (hmodules : arranged s.externals order = before ++ m :: after)
    (hrun : (before.forM (checkModule (s.nodes.decls + 1) true)).Gives settings (.initial meanings) () t) :
    Turn s settings meanings m t
  | source {first second before m after t₁ t} (hfirst : s.externalOrder = .ok first)
    (hsecond : s.moduleOrder = .ok second) (hmodules : arranged s.modules second = before ++ m :: after)
    (hexternals : ((arranged s.externals first).forM (checkModule (s.nodes.decls + 1) true)).Gives settings
      (.initial meanings) () t₁)
    (hrun : (before.forM (checkModule (s.nodes.decls + 1) false)).Gives settings t₁ () t) :
    Turn s settings meanings m t

/-! ## Names in an order -/

/-- The names of modules. -/
def namesOf (modules : List Module) : List String := modules.map fun m => m.name.name

theorem names_importsOf {modules : List Module} {external : List String} :
    names (importsOf modules) external = namesOf modules ++ external := by
  rw [names, importsOf, List.map_map]
  rfl

theorem arranged_perm {modules : List Module} {external : List String} {order : List Nat}
    (h : findOrder (importsOf modules) external = .ok order) : (arranged modules order).Perm modules :=
  findOrder_filterMap_perm h modules (List.length_map _)

/-- Modules are put into an order that was found for them. -/
theorem gives_arrange_of_findOrder {modules : List Module} {external : List String} {order : List Nat}
    {settings : Settings} {s : CheckState} (h : findOrder (importsOf modules) external = .ok order) :
    (arrange modules (.ok order)).Gives settings s (arranged modules order) s :=
  gives_require.mpr ⟨findOrder_mapM h modules (List.length_map _), rfl⟩

/-- Of the modules that stand before a module in an order, none has its name, and all that it imports are
among them or external. -/
theorem names_before {modules : List Module} {external : List String} {order : List Nat}
    (h : findOrder (importsOf modules) external = .ok order) {before after : List Module}
    (heq : arranged modules order = before ++ m :: after) :
    m.name.name ∉ external ++ namesOf before ∧
      ∀ name ∈ m.imports, name.name ∈ external ++ namesOf before := by
  obtain ⟨hdistinct, hfollows⟩ := follows_of_findOrder h
  constructor
  · have hperm := ((arranged_perm h).map fun m => m.name.name).append_right external
    rw [names_importsOf, namesOf, ← hperm.nodup_iff, heq, List.map_append, List.map_cons, List.append_assoc,
      List.cons_append, List.nodup_middle, List.nodup_cons] at hdistinct
    intro hmem
    refine hdistinct.1 ?_
    rcases List.mem_append.mp hmem with hexternal | hbefore
    · exact List.mem_append_right _ (List.mem_append_right _ hexternal)
    · exact List.mem_append_left _ hbefore
  · intro name hname
    obtain ⟨first, rest, rfl, rfl, hrest⟩ := List.filterMap_eq_append_iff.mp heq
    obtain ⟨skipped, position, last, rfl, hskipped, hposition, -⟩ := List.filterMap_eq_cons_iff.mp hrest
    have hentry : (importsOf modules)[position]? = some ⟨m.name.name, m.imports.map Ident.name⟩ := by
      rw [importsOf, List.getElem?_map, hposition]
      rfl
    rcases hfollows (first ++ skipped) position last (by simp) _ hentry name.name
        (List.mem_map_of_mem hname) with ⟨target, htarget, imported, himported, hsame⟩ | hexternal
    · rw [importsOf, List.getElem?_map] at himported
      obtain ⟨m', hm', rfl⟩ := Option.map_eq_some_iff.mp himported
      refine List.mem_append_right _ (List.mem_map.mpr ⟨m', ?_, hsame⟩)
      rcases List.mem_append.mp htarget with hfirst | hskip
      · exact List.mem_filterMap.mpr ⟨target, hfirst, hm'⟩
      · simp [hskipped target hskip] at hm'
    · exact List.mem_append_left _ hexternal

/-! ## Declaring modules in turn -/

/-- Every closure may stand anywhere. -/
def anywhere (_ _ : Nat) : Prop := True

theorem modules_initial : (CheckState.initial meanings).modules = [] := still_initial.modules

/-- When the turn of a module comes its name is new, and what it imports is there. -/
theorem ready_of_turn (h : session.Turn settings meanings m t) : t.Scoped ∧
    m.name.name ∉ t.modules.map ModuleEntry.name ∧
    ∀ name ∈ m.imports, name.name ∈ t.modules.map ModuleEntry.name := by
  have hstart : (CheckState.initial meanings).Linked anywhere := linked_initial
  cases h with
  | external horder hmodules hrun =>
      obtain ⟨henlists, -⟩ := visited_checkModules _ hstart top?_initial not_inProgress_initial
        (fun _ _ _ _ => trivial) hrun
      rw [henlists.names, modules_initial]
      exact ⟨henlists.linked.fits, names_before horder hmodules⟩
  | @source first second before _ after _ _ hfirst hsecond hmodules hexternals hrun =>
      have hprogress := (restores_checkModules hexternals).progress
      obtain ⟨hexternals, -⟩ := visited_checkModules _ hstart top?_initial not_inProgress_initial
        (fun _ _ _ _ => trivial) hexternals
      obtain ⟨henlists, -⟩ := visited_checkModules _ hexternals.linked (hexternals.top?.trans top?_initial)
        (fun func hfunc => not_inProgress_initial func ((hprogress func).mp hfunc)) (fun _ _ _ _ => trivial)
        hrun
      have hnames := ((arranged_perm hfirst).map fun m => m.name.name).append_right (namesOf before)
      rw [henlists.names, hexternals.names, modules_initial, List.map_nil, List.nil_append]
      exact ⟨henlists.linked.fits, mt hnames.mem_iff.mp (names_before hsecond hmodules).1,
        fun name hname => hnames.mem_iff.mpr ((names_before hsecond hmodules).2 name hname)⟩

/-- A module is declared when its turn comes. -/
theorem declareModule_of_turn (h : session.Turn settings meanings m t) :
    (declareModule m).Succeeds settings t := by
  obtain ⟨hscoped, hnew, hknown⟩ := ready_of_turn h
  exact declareModule_total hscoped hnew hknown

/-- The analysis of a module that fails does so behind its declaration. -/
theorem fails_checkModule {bound : Nat} {isExternal : Bool} {failure : CheckFailure} {t' : CheckState}
    (hdeclare : (declareModule m).Succeeds settings t)
    (h : (checkModule bound isExternal m).Fails settings t failure t') : ∃ scope t₁ t₂,
      (declareModule m).Gives settings t scope t₁ ∧
        (withCursor scope (checkDecls bound m.decls)).Fails settings t₁ failure t₂ := by
  rcases fails_bind.mp h with hfirst | ⟨_, _, hfirst, h⟩
  · cases hfirst
  obtain ⟨-, rfl⟩ := gives_tables.mp hfirst
  rcases fails_bind.mp h with hfails | ⟨scope, t₁, hgives, h⟩
  · exact absurd hfails hdeclare.not_fails
  rcases fails_bind.mp h with hfails | ⟨_, t₂, -, h⟩
  · exact ⟨scope, t₁, t', hgives, hfails⟩
  · split at h
    · cases h
    · cases h

theorem warnUnused_succeeds : warnUnused.Succeeds settings t := by
  refine (gives_settings.mpr ⟨rfl, rfl⟩).succeeds_bind ?_
  split
  · exact (gives_tables.mpr ⟨rfl, rfl⟩).succeeds_bind (.of_gives (gives_update_self _))
  · exact succeeds_pure _

/-- The orders found, an analysis that fails does so in a module when its turn came. -/
theorem turn_of_fails {first second : List Nat} (hfirst : session.externalOrder = .ok first)
    (hsecond : session.moduleOrder = .ok second) {failure : CheckFailure} {t' : CheckState}
    (h : session.analyze.Fails settings (.initial meanings) failure t') : ∃ m t isExternal t',
      session.Turn settings meanings m t ∧
        (checkModule (session.nodes.decls + 1) isExternal m).Fails settings t failure t' := by
  unfold analyze at h
  rw [hfirst, hsecond] at h
  have hexternals : (arrange session.externals (.ok first)).Gives settings (.initial meanings) _ _ :=
    gives_arrange_of_findOrder hfirst
  have hmodules : (arrange session.modules (.ok second)).Gives settings (.initial meanings) _ _ :=
    gives_arrange_of_findOrder hsecond
  rcases fails_bind.mp h with harrange | ⟨_, _, harrange, h⟩
  · exact absurd harrange (Succeeds.of_gives hexternals).not_fails
  obtain ⟨rfl, rfl⟩ := CheckResult.ok.inj (hexternals.symm.trans harrange)
  rcases fails_bind.mp h with harrange | ⟨_, _, harrange, h⟩
  · exact absurd harrange (Succeeds.of_gives hmodules).not_fails
  obtain ⟨rfl, rfl⟩ := CheckResult.ok.inj (hmodules.symm.trans harrange)
  rcases fails_bind.mp h with hfails | ⟨_, t₁, hexternals, h⟩
  · obtain ⟨before, m, after, t, heq, hbefore, hfails⟩ := exists_of_forM_fails _ hfails
    exact ⟨m, t, true, t', .external hfirst heq hbefore, hfails⟩
  rcases fails_bind.mp h with hfails | ⟨_, t₂, -, h⟩
  · obtain ⟨before, m, after, t, heq, hbefore, hfails⟩ := exists_of_forM_fails _ hfails
    exact ⟨m, t, false, t', .source hfirst hsecond heq hexternals hbefore, hfails⟩
  rcases fails_bind.mp h with hwarn | ⟨_, _, -, h⟩
  · exact absurd hwarn warnUnused_succeeds.not_fails
  · exact absurd h (succeeds_pure _).not_fails

/-- What the analysis does with the imports of the modules of a session. -/
structure DeclaresInTurn (s : Session) (settings : Settings) (meanings : Meanings) : Prop where
  /-- Every module is declared when its turn comes. -/
  declared : ∀ m t, s.Turn settings meanings m t → (declareModule m).Succeeds settings t
  /-- A check that fails does so on what is in a module, behind the declaration of the module. -/
  failed : ∀ failure, (s.check settings meanings).outcome = .error failure → ∃ m t scope t₁ t₂,
    s.Turn settings meanings m t ∧ (declareModule m).Gives settings t scope t₁ ∧
      (withCursor scope (checkDecls (s.nodes.decls + 1) m.decls)).Fails settings t₁ failure t₂

/-- The order of the modules and their analysis agree: once orders were found, no module of the host and
none with source text fails to be declared, whatever it imports and however often. -/
theorem check_declares_in_turn (session : Session) (settings : Settings) (meanings : Meanings)
    {first second : List Nat} (hfirst : session.externalOrder = .ok first)
    (hsecond : session.moduleOrder = .ok second) : session.DeclaresInTurn settings meanings where
  declared m t hturn := declareModule_of_turn hturn
  failed failure h := by
    have hfails : ∃ t', session.analyze.Fails settings (.initial meanings) failure t' := by
      unfold check at h
      split at h
      · cases h
      · next hanalyze =>
        cases h
        exact ⟨_, hanalyze⟩
      · next hanalyze =>
        cases h
        exact ⟨_, hanalyze⟩
    obtain ⟨t', hfails⟩ := hfails
    obtain ⟨m, t, isExternal, t', hturn, hfails⟩ := turn_of_fails hfirst hsecond hfails
    obtain ⟨scope, t₁, t₂, hgives, hfails⟩ := fails_checkModule (declareModule_of_turn hturn) hfails
    exact ⟨m, t, scope, t₁, t₂, hturn, hgives, hfails⟩

/-- A module of the host, one that imports it, and before that one that imports both and the second
twice. -/
def layered : Session :=
  ((Session.empty.addExternal "host" [.func "now" [] none]).2.withSource "top.stela"
    "import base; import host; import base;").withSource "base.stela" "import host;"

theorem check_layered_declares_in_turn : layered.externalOrder = .ok [0] ∧
    layered.moduleOrder = .ok [1, 0] ∧ layered.DeclaresInTurn {} {} := by
  have horders : layered.externalOrder = .ok [0] ∧ layered.moduleOrder = .ok [1, 0] := by
    rw [layered, withSource_ofList, withSource_ofList]
    decide +kernel
  obtain ⟨hfirst, hsecond⟩ := horders
  exact ⟨hfirst, hsecond, check_declares_in_turn layered {} {} hfirst hsecond⟩

end Session

end Stela
