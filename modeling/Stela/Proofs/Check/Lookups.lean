import Mathlib.Logic.Relation
import Stela.Proofs.Check.Returning

/-!
# The two lookups of a name

The value of a name is looked up in the first scope of a search that binds it, and only then in the
imports, of which no two may bind it. The candidates of a call are gathered in all of these places.
Both go through the same scopes, so they agree on whether a name is bound, and what the first finds
comes first in what the second gathers. This holds in every context that an analysis can come to.
-/

namespace Stela

namespace ScopeGraph

variable {g : ScopeGraph} {start scope : ScopeId}

/-- A search from `start` comes to the scope. -/
def OnChain (g : ScopeGraph) (start scope : ScopeId) : Prop :=
  Relation.ReflTransGen (fun s next => g.lookupParent? s = some next) start scope

/-- The scopes of a search are all that going on from scope to scope leads to. -/
theorem Ordered.mem_searchPath_iff (hg : g.Ordered) (hstart : start < g.size) :
    scope ∈ g.searchPath start ↔ g.OnChain start scope := by
  induction start using Nat.strongRecOn with
  | ind start ih =>
      rw [hg.searchPath_eq hstart, List.mem_cons, OnChain, Relation.ReflTransGen.cases_head_iff]
      refine or_congr eq_comm ?_
      cases hnext : g.lookupParent? start with
      | none => simp
      | some next =>
          have hlt := hg.lookupParent?_lt start next hnext
          simpa [OnChain] using ih next hlt (Nat.lt_trans hlt hstart)

theorem lookup_eq_none_iff {name : String} :
    g.lookup start name = none ↔ ∀ s ∈ g.searchPath start, g.entries s name = [] := by
  rw [lookup, List.findSome?_eq_none_iff]
  refine forall₂_congr fun s _ => ?_
  split
  · next hnil => simp [hnil]
  · next hne => simpa using hne

/-- What a search finds first is gathered first. -/
theorem prefix_gather_of_lookup {name : String} {found : ScopeId × List SymbolId}
    (h : g.lookup start name = some found) : found.2 <+: g.gather start name := by
  obtain ⟨before, after, hpath, hbefore, hfound, -⟩ := (searchesAlong_searchPath.lookup name found).mp h
  have hnil : (before.flatMap fun s => g.entries s name) = [] :=
    List.flatMap_eq_nil_iff.mpr hbefore
  rw [gather, hpath, List.flatMap_append, hnil, List.nil_append, List.flatMap_cons, hfound]
  exact List.prefix_append _ _

theorem gather_eq_nil_iff {name : String} :
    g.gather start name = [] ↔ g.lookup start name = none := by
  rw [lookup_eq_none_iff, gather, List.flatMap_eq_nil_iff]

end ScopeGraph

namespace CheckState

variable {s s' : CheckState} {name : String}

/-- The lookups of a name as a value and as a callee agree. -/
structure LookupsAgree (s : CheckState) (name : String) : Prop where
  /-- Nothing is gathered if nothing is found. -/
  nothing : s.gather name = [] ↔ s.find name = .nothing
  /-- What is found is gathered first. -/
  symbols : ∀ entries, s.find name = .symbols entries → entries <+: s.gather name
  /-- A name is ambiguous if no scope of the search binds it and two imports do. -/
  ambiguous : s.find name = .ambiguous ↔
    (∀ scope, s.scopes.OnChain s.scopes.cursor scope → s.scopes.entries scope name = []) ∧
      ∃ m, s.moduleOf? s.scopes.cursor = some m ∧ ∃ i ∈ m.imports, ∃ j ∈ m.imports, i ≠ j ∧
        s.scopes.entries i name ≠ [] ∧ s.scopes.entries j name ≠ []

/-! ## Both lookups -/

/-- The imports searched from the cursor that bind a name. -/
def bindingImports (s : CheckState) (name : String) : List ScopeId :=
  (s.importsOf s.scopes.cursor).filter fun i => !(s.scopes.entries i name).isEmpty

theorem mem_bindingImports {i : ScopeId} : i ∈ s.bindingImports name ↔
    (∃ m, s.moduleOf? s.scopes.cursor = some m ∧ i ∈ m.imports) ∧ s.scopes.entries i name ≠ [] := by
  unfold bindingImports importsOf
  rw [List.mem_filter]
  refine and_congr ?_ (by simp)
  cases s.moduleOf? s.scopes.cursor <;> simp

/-- How a name is found, in the scopes of the search or in the imports. -/
theorem find_eq (s : CheckState) (name : String) : s.find name =
    match s.scopes.lookup s.scopes.cursor name, s.bindingImports name with
    | some found, _ => .symbols found.2
    | none, [] => .nothing
    | none, [i] => .symbols (s.scopes.entries i name)
    | none, _ => .ambiguous := by
  have hfilter : ((s.importsOf s.scopes.cursor).map fun i => s.scopes.entries i name).filter
      (fun entries => !entries.isEmpty) =
      (s.bindingImports name).map fun i => s.scopes.entries i name := List.filter_map
  unfold find
  rw [hfilter]
  cases s.scopes.lookup s.scopes.cursor name with
  | some found => rfl
  | none =>
      cases s.bindingImports name with
      | nil => rfl
      | cons i rest => cases rest <;> rfl

theorem gather_eq (s : CheckState) (name : String) : s.gather name =
    s.scopes.gather s.scopes.cursor name ++
      (s.bindingImports name).flatMap fun i => s.scopes.entries i name := by
  refine congrArg (s.scopes.gather s.scopes.cursor name ++ ·) ?_
  unfold bindingImports
  induction s.importsOf s.scopes.cursor with
  | nil => rfl
  | cons i rest ih =>
      rw [List.flatMap_cons, List.filter_cons, ih]
      cases hentries : s.scopes.entries i name with
      | nil => simp
      | cons first others => simp [hentries]

theorem nodup_bindingImports (hs : s.Searchable) : (s.bindingImports name).Nodup := by
  refine List.Nodup.filter _ ?_
  unfold importsOf
  split
  · next m hm =>
    obtain ⟨other, -, hfind⟩ := List.exists_of_findSome?_eq_some hm
    exact hs.imports m (List.mem_of_find?_eq_some hfind)
  · exact List.nodup_nil

/-- Two different imports are found among those that bind a name. -/
theorem two_bindingImports_iff (hs : s.Searchable) : (∃ i j rest, s.bindingImports name = i :: j :: rest) ↔
    ∃ m, s.moduleOf? s.scopes.cursor = some m ∧ ∃ i ∈ m.imports, ∃ j ∈ m.imports, i ≠ j ∧
      s.scopes.entries i name ≠ [] ∧ s.scopes.entries j name ≠ [] := by
  constructor
  · rintro ⟨i, j, rest, heq⟩
    have hnodup : (s.bindingImports name).Nodup := nodup_bindingImports hs
    rw [heq] at hnodup
    have hi : i ∈ s.bindingImports name := heq ▸ List.mem_cons_self
    have hj : j ∈ s.bindingImports name := heq ▸ List.mem_cons_of_mem _ List.mem_cons_self
    obtain ⟨⟨m, hm, himport⟩, hbinds⟩ := mem_bindingImports.mp hi
    obtain ⟨⟨m', hm', himport'⟩, hbinds'⟩ := mem_bindingImports.mp hj
    obtain rfl := Option.some.inj (hm.symm.trans hm')
    have hne : i ≠ j := fun heq => (List.nodup_cons.mp hnodup).1 (heq ▸ List.mem_cons_self)
    exact ⟨m, hm, i, himport, j, himport', hne, hbinds, hbinds'⟩
  · rintro ⟨m, hm, i, himport, j, himport', hne, hbinds, hbinds'⟩
    have hi : i ∈ s.bindingImports name := mem_bindingImports.mpr ⟨⟨m, hm, himport⟩, hbinds⟩
    have hj : j ∈ s.bindingImports name := mem_bindingImports.mpr ⟨⟨m, hm, himport'⟩, hbinds'⟩
    match heq : s.bindingImports name with
    | [] => simp [heq] at hi
    | [single] =>
        rw [heq, List.mem_singleton] at hi hj
        exact absurd (hi.trans hj.symm) hne
    | first :: second :: rest => exact ⟨first, second, rest, rfl⟩

theorem Searchable.lookupsAgree (hs : s.Searchable) (name : String) : s.LookupsAgree name where
  nothing := by
    rw [gather_eq, List.append_eq_nil_iff, ScopeGraph.gather_eq_nil_iff, find_eq]
    constructor
    · rintro ⟨hlookup, himports⟩
      have hnil : s.bindingImports name = [] := by
        refine List.eq_nil_iff_forall_not_mem.mpr fun i hi => ?_
        exact (mem_bindingImports.mp hi).2 (List.flatMap_eq_nil_iff.mp himports i hi)
      rw [hlookup, hnil]
    · intro hfind
      split at hfind
      · cases hfind
      · next hlookup hnil => exact ⟨hlookup, by rw [hnil]; rfl⟩
      · cases hfind
      · cases hfind
  symbols entries hfind := by
    rw [find_eq] at hfind
    rw [gather_eq]
    split at hfind
    · next found _ hlookup =>
      obtain rfl := Found.symbols.inj hfind
      exact (ScopeGraph.prefix_gather_of_lookup hlookup).trans (List.prefix_append _ _)
    · cases hfind
    · next i hlookup himports =>
      obtain rfl := Found.symbols.inj hfind
      rw [ScopeGraph.gather_eq_nil_iff.mpr hlookup, himports]
      simp
    · cases hfind
  ambiguous := by
    have hchain : (∀ scope, s.scopes.OnChain s.scopes.cursor scope → s.scopes.entries scope name = []) ↔
        s.scopes.lookup s.scopes.cursor name = none := by
      rw [ScopeGraph.lookup_eq_none_iff]
      exact forall_congr' fun scope =>
        imp_congr_left (hs.scopes.mem_searchPath_iff hs.scopes.cursor).symm
    rw [hchain, ← two_bindingImports_iff hs, find_eq]
    constructor
    · intro hfind
      split at hfind
      · cases hfind
      · cases hfind
      · cases hfind
      · next hlookup hnil hsingle =>
        refine ⟨hlookup, ?_⟩
        match heq : s.bindingImports name with
        | [] => exact absurd heq hnil
        | [i] => exact absurd heq (hsingle i)
        | i :: j :: rest => exact ⟨i, j, rest, rfl⟩
    · rintro ⟨hlookup, i, j, rest, himports⟩
      rw [hlookup, himports]

/-! ## History and lookups -/

/-- Scope tables are the history of what was bound, however the operations are ordered, and both
lookups of a name agree in every context. -/
structure TablesAndLookups : Prop where
  /-- The entries of a name are the symbols bound to it there, in order. -/
  entries : ∀ ops, ScopeGraph.initial.Legal ops → ∀ scope name,
    (ScopeGraph.initial.run ops).entries scope name =
      ScopeGraph.recorded (ScopeGraph.initial.history ops) scope name
  inserts : ∀ ops, ScopeGraph.initial.Legal ops → (ScopeGraph.initial.run ops).Inserts
  lookups : ∀ s : CheckState, s.Arises → ∀ name, s.LookupsAgree name

theorem tables_record_history_and_lookups_agree : TablesAndLookups where
  entries _ hops := ScopeGraph.entries_run_initial hops
  inserts _ hops := (ScopeGraph.sound_initial.ordered.run hops).1.inserts
  lookups _ hs := hs.searchable.lookupsAgree

/-- Two modules bind the same name, and a third one is entered. -/
def homonyms : List ScopeGraph.Operation :=
  [.enter .namespaceScope none, .insert ⟨"f", 7, .everyone, false⟩ fun _ => true, .leave,
    .enter .namespaceScope none, .insert ⟨"f", 8, .everyone, false⟩ fun _ => true, .leave,
    .enter .namespaceScope none]

/-- The third module imports the other two. -/
def torn : Option CheckState :=
  let s := { CheckState.initial {} with
    scopes := (CheckState.initial {}).scopes.run homonyms
    modules := [⟨"a", 5, 1, []⟩, ⟨"b", 6, 2, []⟩] }
  match Check.declareImports "main" 3 [] [⟨"a", .dummy⟩, ⟨"b", .dummy⟩] {} s with
  | .ok imports s => some { s with modules := s.modules ++ [⟨"main", 9, 3, imports⟩] }
  | .failed _ _ => none

theorem legal_homonyms (g : ScopeGraph) : g.Legal homonyms :=
  ⟨trivial, trivial, trivial, trivial, trivial, trivial, trivial, trivial⟩

theorem arises_of_torn {s : CheckState} (h : torn = some s) : s.Arises := by
  have hnone (importer : String) (scope : ScopeId) (s : CheckState) :
      (Check.declareImports importer scope [] []).Gives {} s [] s := Check.gives_pure.mpr ⟨rfl, rfl⟩
  have hscopes := (Arises.initial {}).run (legal_homonyms _)
  have hmodules := (hscopes.module (hnone "a" 1 _) "a" 5).module (hnone "b" 2 _) "b" 6
  unfold torn at h
  dsimp only at h
  split at h
  · next imports s' hgives =>
    obtain rfl := Option.some.inj h
    have himports := (Check.restoring_declareImports _ _).restores hgives
    exact (himports.arises hmodules).module hgives "main" 9
  · cases h

theorem homonyms_recorded_and_lookups_agree : ScopeGraph.initial.Legal homonyms ∧
    (∀ scope name, (ScopeGraph.initial.run homonyms).entries scope name =
      ScopeGraph.recorded (ScopeGraph.initial.history homonyms) scope name) ∧
    (ScopeGraph.initial.run homonyms).Inserts ∧
    ∃ s : CheckState, s.Arises ∧ s.find "f" = .ambiguous ∧ s.gather "f" = [7, 8] ∧
      ∀ name, s.LookupsAgree name := by
  obtain ⟨hentries, hinserts, hlookups⟩ := tables_record_history_and_lookups_agree
  have hlegal : ScopeGraph.initial.Legal homonyms := legal_homonyms _
  have htorn : torn.map (fun s => (s.find "f", s.gather "f")) = some (.ambiguous, [7, 8]) := by
    decide +kernel
  obtain ⟨s, hs, heq⟩ := Option.map_eq_some_iff.mp htorn
  obtain ⟨hfind, hgather⟩ := Prod.mk.inj heq
  have harises : s.Arises := arises_of_torn hs
  exact ⟨hlegal, hentries _ hlegal, hinserts _ hlegal, s, harises, hfind, hgather, hlookups s harises⟩

end CheckState

end Stela
