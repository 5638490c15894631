import Stela.Proofs.Check.Visiting
import Stela.Proofs.Session.Deduction

/-!
# Captures in a session

In a program that was analyzed without an error the closures are linked: each
captures an object at most once, takes it from where it stands or from a slot of
the closure around it, and every name in a closure that means an object from
outside of it is read through a slot of that closure.
-/

namespace Stela

namespace Program

/-- The symbol was declared in the scope or further inside. -/
def DeclaredIn (p : Program) (source : SymbolId) (scope : ScopeId) : Prop :=
  ∃ entry, p.tables.symbols.get? source = some entry ∧ p.final.scopes.isWithin entry.scope scope = true

/-- The symbol was declared outside of the scope. -/
def DeclaredOutside (p : Program) (source : SymbolId) (scope : ScopeId) : Prop :=
  ∃ entry, p.tables.symbols.get? source = some entry ∧ p.final.scopes.isWithin entry.scope scope = false

/-- The symbol is an object, but no global. -/
def IsLocalObject (p : Program) (source : SymbolId) : Prop :=
  ∃ info, p.tables.symbols.object? source = some info ∧ info.origin ≠ .global

/-- The links from a slot of a closure end at a capture of this object that is taken from where the
closure stands, and go through captures of the same object. -/
inductive Traces (p : Program) (source : SymbolId) : SymbolId → Nat → Prop
  | enclosing {closure slot info c} (hclosure : p.tables.symbols.closure? closure = some info)
    (hslot : info.captures[slot]? = some c) (hsource : c.source = source) (hvia : c.via = .enclosing) :
    Traces p source closure slot
  | parent {closure slot info c outer slot'} (hclosure : p.tables.symbols.closure? closure = some info)
    (hslot : info.captures[slot]? = some c) (hsource : c.source = source) (hvia : c.via = .parent slot')
    (hparent : info.parent = some outer) (h : Traces p source outer slot') : Traces p source closure slot

/-- The captures of all closures fit together, and fit the expressions that read them. -/
structure CaptureChains (p : Program) (sites : List Site) : Prop where
  /-- No closure captures an object twice. -/
  distinct : ∀ closure info, p.tables.symbols.closure? closure = some info →
    (info.captures.map Capture.source).Nodup
  /-- A capture has the declared type of its object. -/
  types : ∀ closure info, p.tables.symbols.closure? closure = some info → ∀ c ∈ info.captures,
    ∃ object, p.tables.symbols.object? c.source = some object ∧ c.type = object.type.type
  /-- What is taken from the closure around was captured there, since it is from further outside. -/
  parents : ∀ closure info, p.tables.symbols.closure? closure = some info → ∀ c ∈ info.captures,
    ∀ slot, c.via = .parent slot → ∃ parent outer c', info.parent = some parent ∧
      p.tables.symbols.closure? parent = some outer ∧ p.DeclaredOutside c.source outer.scope ∧
      outer.captures[slot]? = some c' ∧ c'.source = c.source
  /-- Anything else was declared in the closure around, if there is one. -/
  enclosing : ∀ closure info, p.tables.symbols.closure? closure = some info → ∀ c ∈ info.captures,
    c.via = .enclosing → info.parent = none ∨ ∃ parent outer, info.parent = some parent ∧
      p.tables.symbols.closure? parent = some outer ∧ p.DeclaredIn c.source outer.scope
  /-- All links lead to where an object is taken from its place. -/
  traces : ∀ closure info, p.tables.symbols.closure? closure = some info → ∀ slot c,
    info.captures[slot]? = some c → p.Traces c.source closure slot
  /-- A name in a closure is read through a slot of the closure just if it means a local object from
  outside of it. -/
  slots : ∀ node name inner, ⟨.ident node name, some inner⟩ ∈ sites → ∃ closure info source,
    p.final.meanings.exprs.get? inner = some closure ∧ p.tables.symbols.closure? closure = some info ∧
    p.final.meanings.exprs.get? node.id = some source ∧
    (p.IsLocalObject source ∧ p.DeclaredOutside source info.scope → ∃ slot c,
      p.final.captured.get? node.id = some (closure, slot) ∧ info.captures[slot]? = some c ∧
        c.source = source) ∧
    (¬ (p.IsLocalObject source ∧ p.DeclaredOutside source info.scope) →
      p.final.captured.get? node.id = none)
  /-- A name in no closure is read without a slot. -/
  free : ∀ node name, ⟨.ident node name, none⟩ ∈ sites → p.final.captured.get? node.id = none

variable {p : Program} {within : Nat → Nat → Prop}

theorem declaredIn_of_within {source : SymbolId} {scope : ScopeId}
    (h : p.final.DeclaredWithin source scope) : p.DeclaredIn source scope := by
  obtain ⟨place, outline, ho, hwithin⟩ := h
  obtain ⟨entry, hentry, heq⟩ := Option.map_eq_some_iff.mp ho
  obtain ⟨rfl, -⟩ := Prod.mk.inj heq
  exact ⟨entry, hentry, hwithin⟩

theorem declaredOutside_of_not_within {source : SymbolId} {scope place : ScopeId} {outline : Outline}
    (ho : p.tables.symbols.outline? source = some (place, outline))
    (h : ¬ p.final.DeclaredWithin source scope) : p.DeclaredOutside source scope := by
  obtain ⟨entry, hentry, heq⟩ := Option.map_eq_some_iff.mp ho
  obtain ⟨rfl, -⟩ := Prod.mk.inj heq
  exact ⟨entry, hentry, Bool.eq_false_iff.mpr fun hwithin => h ⟨_, _, ho, hwithin⟩⟩

theorem outside_iff {source : SymbolId} {scope : ScopeId} :
    p.final.Outside source scope ↔ p.IsLocalObject source ∧ p.DeclaredOutside source scope := by
  constructor
  · rintro ⟨place, info, ho, horigin, hwithin⟩
    obtain ⟨entry, hentry, heq⟩ := Option.map_eq_some_iff.mp ho
    obtain ⟨rfl, -⟩ := Prod.mk.inj heq
    exact ⟨⟨info, SymbolTable.object?_of_outline? ho, horigin⟩, entry, hentry, hwithin⟩
  · rintro ⟨⟨info, hobject, horigin⟩, entry, hentry, hwithin⟩
    have ho := SymbolTable.outline?_of_get? hentry
    have hkind := (SymbolTable.kind?_of_get? hentry).symm.trans (SymbolTable.object?_eq_some.mp hobject)
    rw [Option.some.inj hkind] at ho
    exact ⟨entry.scope, info, ho, horigin, hwithin⟩

section

variable (h : p.final.Linked within) {closure : SymbolId} {info : ClosureInfo}
  (hclosure : p.tables.symbols.closure? closure = some info)

include h hclosure

theorem chained_of_linked : p.final.Chained closure info.links := by
  obtain ⟨place, ho⟩ := SymbolTable.outline?_of_closure? hclosure
  exact h.closures closure place _ ho

/-- A capture from the closure around was captured there. -/
theorem exists_of_parent {c : Capture} (hc : c ∈ info.captures) {slot : Nat} (hvia : c.via = .parent slot) :
    ∃ parent outer c', info.parent = some parent ∧ parent < closure ∧
      p.tables.symbols.closure? parent = some outer ∧ p.DeclaredOutside c.source outer.scope ∧
      outer.captures[slot]? = some c' ∧ c'.source = c.source := by
  have hchained := chained_of_linked h hclosure
  cases hchained.filled c hc with
  | root hvia' => simp [hvia] at hvia'
  | enclosing hvia' => simp [hvia] at hvia'
  | @parent slot' outer place around c' hvia' hparent houter houtside hslot hsource =>
      obtain rfl := CaptureSource.parent.inj (hvia.symm.trans hvia')
      obtain ⟨outerInfo, houterInfo, rfl⟩ := SymbolTable.closure?_of_outline? houter
      obtain ⟨_, _, ho, -⟩ := hchained.sources c hc
      exact ⟨outer, outerInfo, c', hparent, (hchained.parent outer hparent).1, houterInfo,
        declaredOutside_of_not_within ho houtside, hslot, hsource⟩

/-- A capture that is not from the closure around was declared in it. -/
theorem exists_of_enclosing {c : Capture} (hc : c ∈ info.captures) (hvia : c.via = .enclosing) :
    info.parent = none ∨ ∃ parent outer, info.parent = some parent ∧
      p.tables.symbols.closure? parent = some outer ∧ p.DeclaredIn c.source outer.scope := by
  cases (chained_of_linked h hclosure).filled c hc with
  | root _ hparent => exact .inl hparent
  | enclosing _ hparent houter hwithin =>
      obtain ⟨outerInfo, houterInfo, rfl⟩ := SymbolTable.closure?_of_outline? houter
      exact .inr ⟨_, outerInfo, hparent, houterInfo, declaredIn_of_within hwithin⟩
  | parent hvia' => simp [hvia] at hvia'

end

/-- A closure has a greater number than the closures around it, so its links come to an end. -/
theorem traces_of_linked (h : p.final.Linked within) {closure : SymbolId} :
    ∀ {info : ClosureInfo}, p.tables.symbols.closure? closure = some info → ∀ slot c,
      info.captures[slot]? = some c → p.Traces c.source closure slot := by
  induction closure using Nat.strong_induction_on with
  | h closure ih =>
      intro info hclosure slot c hslot
      have hc := List.mem_of_getElem? hslot
      cases hvia : c.via with
      | enclosing => exact .enclosing hclosure hslot rfl hvia
      | parent slot' =>
          obtain ⟨parent, outer, c', hparent, hlt, houter, -, hslot', hsource⟩ :=
            exists_of_parent h hclosure hc hvia
          exact .parent hclosure hslot rfl hvia hparent (hsource ▸ ih parent hlt houter slot' c' hslot')

end Program

namespace Session

open Check CheckState

/-- The expressions of all modules of a session, each with the innermost closure around it. -/
def sites (s : Session) : List Site := (s.externals ++ s.modules).flatMap Module.sites

/-- Whether an expression stands in a closure, directly or in a function inside it. -/
def Within (s : Session) (node inner : Nat) : Prop :=
  ∃ site ∈ s.sites, site.id = node ∧ site.closure = some inner

theorem nodup_sites {session : Session} (hbuilt : session.Built) : (session.sites.map Site.id).Nodup := by
  have hids : session.sites.map Site.id = Occurrence.ids session.items := by
    rw [sites, items, List.map_flatMap, Occurrence.ids, List.filterMap_flatMap]
    exact congrArg (fun f => (session.externals ++ session.modules).flatMap f) (funext Module.ids_sites)
  exact hids ▸ nodup_ids hbuilt

/-- An expression has one place in a session. -/
theorem closure_of_within {session : Session} (hbuilt : session.Built) {site : Site} {inner : Nat}
    (hsite : site ∈ session.sites) (h : session.Within site.id inner) : site.closure = some inner := by
  obtain ⟨other, hother, hid, hclosure⟩ := h
  rw [← List.inj_on_of_nodup_map (nodup_sites hbuilt) hother hsite hid]
  exact hclosure

/-- At the end of a check all links are consistent, and every name was read. -/
theorem linked_final {session : Session} {settings : Settings} {meanings : Meanings} {program : Program}
    (h : (session.check settings meanings).outcome = .ok program) : program.final.Linked session.Within ∧
      ∀ site ∈ session.sites, ∃ body, program.final.Reads body site := by
  obtain ⟨externals, modules, s₁, s₂, hexternals, hmodules, hfirst, hsecond, hwarn⟩ := check_runs h
  have hperm : ((externals ++ modules).flatMap Module.sites).Perm session.sites :=
    ((perm_of_arrange hexternals).append (perm_of_arrange hmodules)).flatMap_right _
  rw [List.flatMap_append] at hperm
  have hfits : Fitting session.Within
      (externals.flatMap Module.sites ++ modules.flatMap Module.sites) := fun site hsite inner hinner =>
    ⟨site, hperm.mem_iff.mp hsite, rfl, hinner⟩
  have hprogress := (restores_checkModules hfirst).progress
  obtain ⟨hfirst, hvisited⟩ := visited_checkModules externals linked_initial top?_initial
    not_inProgress_initial (fun site hsite => hfits site (List.mem_append_left _ hsite)) hfirst
  obtain ⟨hsecond, hvisited'⟩ := visited_checkModules modules hfirst.linked
    (hfirst.top?.trans top?_initial)
    (fun func hfunc => not_inProgress_initial func ((hprogress func).mp hfunc))
    (fun site hsite => hfits site (List.mem_append_right _ hsite)) hsecond
  have hwarn := hsecond.linked.quiet quiet_warnUnused hwarn
  refine ⟨hwarn.linked, fun site hsite => Visited.reads hwarn.linked ?_⟩
  rcases List.mem_append.mp (hperm.mem_iff.mpr hsite) with hsite | hsite
  · exact (hvisited site hsite).mono hfirst.linked.fits (hsecond.onward.trans hwarn.onward)
  · exact (hvisited' site hsite).mono hsecond.linked.fits hwarn.onward

/-- A slot that is noted for an expression belongs to the closure that the expression stands in. -/
theorem slotted_of_captured {session : Session} (hbuilt : session.Built) {program : Program}
    (h : program.final.Linked session.Within) {site : Site} (hsite : site ∈ session.sites)
    {closure : SymbolId} {slot : Nat} (hnoted : program.final.captured.get? site.id = some (closure, slot)) :
    ∃ inner info c, site.closure = some inner ∧ program.final.meanings.exprs.get? inner = some closure ∧
      program.tables.symbols.closure? closure = some info ∧ info.captures[slot]? = some c ∧
      program.final.meanings.exprs.get? site.id = some c.source ∧
      program.IsLocalObject c.source ∧ program.DeclaredOutside c.source info.scope := by
  obtain ⟨inner, place, links, c, hwithin, hmeaning, ho, hslot, hnode, houtside⟩ :=
    h.captured _ _ _ hnoted
  obtain ⟨info, hinfo, rfl⟩ := SymbolTable.closure?_of_outline? ho
  exact ⟨inner, info, c, closure_of_within hbuilt hsite hwithin, hmeaning, hinfo, hslot, hnode,
    Program.outside_iff.mp houtside⟩

/-- A name in a closure has a slot in it just if it means a local object from outside of it. -/
theorem slots_of_linked {session : Session} (hbuilt : session.Built) {program : Program}
    (h : program.final.Linked session.Within) {node : Node} {name : String} {inner : Nat}
    (hsite : ⟨.ident node name, some inner⟩ ∈ session.sites) {body : Option (FrameKind × ScopeId)}
    (hreads : program.final.Reads body ⟨.ident node name, some inner⟩) : ∃ closure info source,
      program.final.meanings.exprs.get? inner = some closure ∧
      program.tables.symbols.closure? closure = some info ∧
      program.final.meanings.exprs.get? node.id = some source ∧
      (program.IsLocalObject source ∧ program.DeclaredOutside source info.scope → ∃ slot c,
        program.final.captured.get? node.id = some (closure, slot) ∧ info.captures[slot]? = some c ∧
          c.source = source) ∧
      (¬ (program.IsLocalObject source ∧ program.DeclaredOutside source info.scope) →
        program.final.captured.get? node.id = none) := by
  obtain ⟨closure, place, links, hclosure, ho, source, hsource, -, hcaptured⟩ := hreads rfl
  obtain ⟨info, hinfo, rfl⟩ := SymbolTable.closure?_of_outline? ho
  -- A slot that is noted belongs to this closure and holds what the name means.
  have hnoted {other : SymbolId} {slot : Nat}
      (hnode : program.final.captured.get? node.id = some (other, slot)) : other = closure ∧ ∃ c,
        info.captures[slot]? = some c ∧ c.source = source ∧
          program.IsLocalObject source ∧ program.DeclaredOutside source info.scope := by
    obtain ⟨inner', info', c, hinner, hother, hinfo', hslot, hmeaning, hlocal⟩ :=
      slotted_of_captured hbuilt h hsite hnode
    obtain rfl := Option.some.inj hinner
    obtain rfl := Option.some.inj (hclosure.symm.trans hother)
    obtain rfl := Option.some.inj (hinfo.symm.trans hinfo')
    obtain rfl := Option.some.inj (hsource.symm.trans hmeaning)
    exact ⟨rfl, c, hslot, rfl, hlocal⟩
  refine ⟨closure, info, source, hclosure, hinfo, hsource, fun hlocal => ?_, fun hnot => ?_⟩
  · have hsome := (hcaptured _ _ rfl (Program.outside_iff.mpr hlocal)).2
    obtain ⟨⟨other, slot⟩, hnode⟩ := Option.isSome_iff_exists.mp hsome
    obtain ⟨rfl, c, hslot, hsource', -⟩ := hnoted hnode
    exact ⟨slot, c, hnode, hslot, hsource'⟩
  · refine Option.eq_none_iff_forall_ne_some.mpr fun (other, slot) hnode => hnot ?_
    obtain ⟨-, c, -, -, hlocal⟩ := hnoted hnode
    exact hlocal

/-- Captures are complete and consistent, however closures and functions are nested: in a program that
was analyzed without an error, whatever its nodes meant before, no closure captures an object twice, the
links between captures end where the object was declared, and a name is read through a slot just if it
has to be. -/
theorem check_chains_captures (session : Session) (hbuilt : session.Built) (settings : Settings)
    (meanings : Meanings) (program : Program)
    (h : (session.check settings meanings).outcome = .ok program) :
    program.CaptureChains session.sites := by
  obtain ⟨hlinked, hreads⟩ := linked_final h
  refine ⟨fun closure info hinfo => ?_, fun closure info hinfo c hc => ?_,
    fun closure info hinfo c hc slot hvia => ?_,
    fun closure info hinfo c hc hvia => ?_, fun closure info hinfo slot c hslot => ?_,
    fun node name inner hsite => ?_, fun node name hsite => ?_⟩
  · exact (Program.chained_of_linked hlinked hinfo).distinct
  · obtain ⟨place, object, ho, htype⟩ := (Program.chained_of_linked hlinked hinfo).sources c hc
    exact ⟨object, SymbolTable.object?_of_outline? ho, htype⟩
  · obtain ⟨parent, outer, c', hparent, -, hrest⟩ := Program.exists_of_parent hlinked hinfo hc hvia
    exact ⟨parent, outer, c', hparent, hrest⟩
  · exact Program.exists_of_enclosing hlinked hinfo hc hvia
  · exact Program.traces_of_linked hlinked hinfo slot c hslot
  · obtain ⟨body, hread⟩ := hreads _ hsite
    exact slots_of_linked hbuilt hlinked hsite hread
  · refine Option.eq_none_iff_forall_ne_some.mpr fun (closure, slot) hnode => ?_
    obtain ⟨inner, info, c, hinner, -⟩ := slotted_of_captured hbuilt hlinked hsite hnode
    cases hinner

/-- A closure in a closure that reads objects of both and of the function around them. -/
def nested : Session :=
  Session.empty.withSource "main.stela"
    "func outer(a: sint) -> sint {
       let f = func(b: sint) -> sint { let g = func(c: sint) -> sint { return a + b + c; }; return g(a); };
       return f(a);
     }"

theorem check_nested_chains_captures : nested.Built ∧ ∃ program,
    (nested.check {}).outcome = .ok program ∧ program.CaptureChains nested.sites := by
  have hbuilt : nested.Built := .withSource .empty _ _
  have hok : (nested.check {}).outcome.toOption.map (fun _ => ()) = some () := by
    rw [nested, withSource_ofList]
    decide +kernel
  obtain ⟨program, hprogram, -⟩ := exists_ok_of_map_toOption hok
  exact ⟨hbuilt, program, hprogram, check_chains_captures _ hbuilt _ _ _ hprogram⟩

end Session

end Stela
