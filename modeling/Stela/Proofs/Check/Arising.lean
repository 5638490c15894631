import Stela.Check.Module
import Stela.Proofs.Check.Gives
import Stela.Proofs.Scopes.History

/-!
# Contexts of names

What a name means depends on the scopes and on the modules with their imports. A context of an analysis
arises from the one it starts in by operations on the scope graph and by modules that are entered. In
such a context parents come before their scopes, the cursor is at a scope, and no module is imported
twice.
-/

namespace Stela

namespace CheckState

/-- The contexts that an analysis can come to, as far as names are concerned: the scopes change by
operations on the scope graph, and a module is entered with the imports that are declared for it.
What else there is changes in any way. -/
inductive Arises : CheckState → Prop
  | initial (meanings : Meanings) : Arises (.initial meanings)
  | operation {s : CheckState} (h : Arises s) (op : ScopeGraph.Operation) (hop : op.Legal s.scopes) :
      Arises { s with scopes := op.run s.scopes }
  | module {s s' : CheckState} {settings : Settings} {importer : String} {scope : ScopeId}
      {names : List Ident} {imports : List ScopeId} (h : Arises s')
      (himports : (Check.declareImports importer scope [] names).Gives settings s imports s')
      (name : String) (symbol : SymbolId) :
      Arises { s' with modules := s'.modules ++ [⟨name, symbol, scope, imports⟩] }
  | aside {s s' : CheckState} (h : Arises s) (hscopes : s'.scopes = s.scopes)
      (hmodules : s'.modules = s.modules) : Arises s'

end CheckState

/-- No module is imported twice. -/
theorem Check.nodup_of_declareImports {settings : Settings} {importer : String} {scope : ScopeId}
    (names : List Ident) {s s' : CheckState} {seen imports : List ScopeId} (hseen : seen.Nodup)
    (h : (declareImports importer scope seen names).Gives settings s imports s') : imports.Nodup := by
  induction names generalizing s seen with
  | nil =>
      obtain ⟨rfl, -⟩ := gives_pure.mp h
      exact hseen
  | cons name rest ih =>
      simp only [declareImports, gives_bind, gives_state] at h
      obtain ⟨_, _, ⟨rfl, rfl⟩, h⟩ := h
      split at h
      · exact absurd h gives_raise
      · next target _ =>
        rw [gives_ite] at h
        split at h
        · exact ih hseen h
        · next hnew =>
          obtain ⟨_, s₁, -, hrest⟩ := gives_bind.mp h
          have hdisjoint : List.Disjoint seen [target.scope] :=
            List.disjoint_singleton.mpr fun hmem => hnew (List.contains_iff_mem.mpr hmem)
          exact ih (hseen.append (List.nodup_singleton _) hdisjoint) hrest

namespace CheckState

variable {s s' : CheckState}

/-- What lookups rely on. -/
structure Searchable (s : CheckState) : Prop where
  scopes : s.scopes.Ordered
  imports : ∀ m ∈ s.modules, m.imports.Nodup

theorem Searchable.aside (hs : s.Searchable) (hscopes : s'.scopes = s.scopes)
    (hmodules : s'.modules = s.modules) : s'.Searchable :=
  ⟨hscopes ▸ hs.scopes, hmodules ▸ hs.imports⟩

theorem Searchable.operation (hs : s.Searchable) (op : ScopeGraph.Operation) (hop : op.Legal s.scopes) :
    CheckState.Searchable { s with scopes := op.run s.scopes } :=
  ⟨(hs.scopes.operation hop).1, hs.imports⟩

/-- A builtin is bound by an operation. -/
theorem Searchable.addBuiltin (hs : s.Searchable) (name : String) (kind : SymbolKind) :
    (s.addBuiltin name kind).Searchable :=
  have hbound := hs.operation (.insert ⟨name, s.tables.symbols.size, .everyone, false⟩ fun _ => true) trivial
  hbound.aside rfl rfl

theorem searchable_initial (meanings : Meanings) : (CheckState.initial meanings).Searchable := by
  have hnothing : CheckState.Searchable { meanings := meanings } :=
    ⟨ScopeGraph.sound_initial.ordered, List.forall_mem_nil _⟩
  have hadd {α : Type} (all : List α) (name : α → String) (kind : α → SymbolKind) {s : CheckState}
      (hs : s.Searchable) : (all.foldl (fun s a => s.addBuiltin (name a) (kind a)) s).Searchable :=
    List.foldlRecOn all _ hs fun _ ht a _ => ht.addBuiltin (name a) (kind a)
  have htypes := hadd Builtin.all Builtin.name .builtinType hnothing
  rw [CheckState.initial]
  exact hadd BuiltinFunc.all BuiltinFunc.name .builtinFunc htypes

namespace Arises

/-- Every context that an analysis can come to can be searched, by induction on the way to it. -/
theorem searchable (h : s.Arises) : s.Searchable := by
  induction h with
  | initial meanings => exact searchable_initial meanings
  | operation _ op hop ih => exact ih.operation op hop
  | module _ himports name symbol ih =>
      refine ⟨ih.scopes, fun m hm => ?_⟩
      rcases List.mem_append.mp hm with hold | hnew
      · exact ih.imports m hold
      · obtain rfl := List.mem_singleton.mp hnew
        exact Check.nodup_of_declareImports _ List.nodup_nil himports
  | aside _ hscopes hmodules ih => exact ih.aside hscopes hmodules

/-! ## Operations -/

variable {scope : ScopeId}

/-- What operations lead to, by induction on the operations. -/
theorem run (h : s.Arises) {ops : List ScopeGraph.Operation} (hops : s.scopes.Legal ops) :
    CheckState.Arises { s with scopes := s.scopes.run ops } := by
  induction ops generalizing s with
  | nil => exact h
  | cons op rest ih =>
      obtain ⟨hop, hrest⟩ := hops
      exact ih (h.operation op hop) hrest

theorem setCursor (h : s.Arises) (hscope : scope < s.scopes.size) :
    CheckState.Arises { s with scopes := s.scopes.setCursor scope } :=
  h.operation (.setCursor scope) hscope

theorem insert {row : Row} {conflicts : SymbolId → Bool} {hidden : Option SymbolId} {g : ScopeGraph}
    (h : s.Arises) (hinsert : s.scopes.insert row conflicts = .ok (hidden, g)) :
    CheckState.Arises { s with scopes := g } := by
  have hbound := h.operation (.insert row conflicts) trivial
  simp only [ScopeGraph.Operation.run, hinsert] at hbound
  exact hbound

/-- What arises elsewhere arises where the cursor comes back from there. -/
theorem elsewhere {s₁ : CheckState} (h : s.Arises) (hscope : (s.scopes.get? scope).isSome)
    (hthere : CheckState.Arises { s with scopes := s.scopes.setCursor scope } → s₁.Arises)
    (hsize : s.scopes.size ≤ s₁.scopes.size) :
    CheckState.Arises { s₁ with scopes := s₁.scopes.setCursor s.scopes.cursor } := by
  obtain ⟨_, hget⟩ := Option.isSome_iff_exists.mp hscope
  have harises := hthere (h.setCursor (ScopeGraph.lt_size_of_get? hget))
  exact harises.setCursor (Nat.lt_of_lt_of_le h.searchable.scopes.cursor hsize)

end Arises

end CheckState

end Stela
