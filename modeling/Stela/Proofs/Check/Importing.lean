import Stela.Proofs.Check.Naming
import Stela.Proofs.Check.Placing

/-!
# Importing modules

A module can be declared where its own name is new and every module that it
imports was declared before. Its scope then holds nothing but imports, each under
the name of the module, so that an import only clashes with itself; and an import
that is there already is not bound again.
-/

namespace Stela

namespace CheckState

variable {s : CheckState} {name : String} {id : SymbolId}

theorem module?_isSome : (s.module? name).isSome = true ↔ name ∈ s.modules.map ModuleEntry.name := by
  rw [module?, List.find?_isSome, List.mem_map]
  exact exists_congr fun m => and_congr_right fun _ => beq_iff_eq

/-- What is bound in the scope of a module so far are modules whose scopes were met. -/
def Imported (s : CheckState) (scope : ScopeId) (seen : List ScopeId) : Prop :=
  ∀ name, ∀ id ∈ s.scopes.entries scope name, ∃ target, s.module? name = some target ∧ target.scope ∈ seen

theorem Scoped.exists_symbol (hs : s.Scoped) {scope : ScopeId}
    (hid : id ∈ s.scopes.entries scope name) : ∃ entry, s.tables.symbols.get? id = some entry := by
  obtain ⟨place, outline, ho, -⟩ := hs.rows scope name id hid
  obtain ⟨entry, hentry, -⟩ := Option.map_eq_some_iff.mp ho
  exact ⟨entry, hentry⟩

end CheckState

namespace Check

open CheckState

variable {α β : Type} {settings : Settings} {s s' : CheckState} {scope : ScopeId}

/-- The step succeeds. -/
def Succeeds (p : Check α) (settings : Settings) (s : CheckState) : Prop :=
  ∃ a s', p.Gives settings s a s'

/-- A sequence succeeds if its parts do, one after the other. -/
theorem Gives.succeeds_bind {p : Check α} {f : α → Check β} {a : α} (h : p.Gives settings s a s')
    (hf : (f a).Succeeds settings s') : (p >>= f).Succeeds settings s := by
  obtain ⟨b, s'', hb⟩ := hf
  exact ⟨b, s'', gives_bind.mpr ⟨a, s', h, hb⟩⟩

theorem Succeeds.of_gives {p : Check α} {a : α} (h : p.Gives settings s a s') : p.Succeeds settings s :=
  ⟨a, s', h⟩

theorem succeeds_pure (a : α) : (pure a : Check α).Succeeds settings s :=
  .of_gives (gives_pure.mpr ⟨rfl, rfl⟩)

theorem gives_update_self (f : CheckState → CheckState) : (update f).Gives settings s () (f s) :=
  gives_update.mpr rfl

/-! ## Binding a name -/

theorem warnShadow_total {name : Ident} {symbol hidden : SymbolId} {new old : Symbol}
    (hsymbol : s.tables.symbols.get? symbol = some new)
    (hhidden : s.tables.symbols.get? hidden = some old) :
    (warnShadow name symbol hidden).Succeeds settings s := by
  refine (gives_symbol.mpr ⟨hhidden, rfl⟩).succeeds_bind ?_
  refine (gives_kindOf.mpr ⟨SymbolTable.kind?_of_get? hsymbol, rfl⟩).succeeds_bind ?_
  refine (gives_settings.mpr ⟨rfl, rfl⟩).succeeds_bind ?_
  split
  · exact succeeds_pure _
  · exact .of_gives (gives_update_self _)

theorem scopes_warnShadow {name : Ident} {symbol hidden : SymbolId}
    (h : (warnShadow name symbol hidden).Gives settings s () s') : s'.scopes = s.scopes := by
  simp only [warnShadow, gives_bind, gives_symbol, gives_kindOf, gives_settings, gives_ite] at h
  obtain ⟨_, _, ⟨-, rfl⟩, _, _, ⟨-, rfl⟩, _, _, ⟨-, rfl⟩, h⟩ := h
  split at h
  · exact (gives_pure.mp h).2 ▸ rfl
  · exact gives_update.mp h ▸ rfl

/-- A symbol can be bound to a name that is free. -/
theorem declareRow_total (hs : s.Scoped) {span : Span} {row : Row}
    (hrow : s.RowFits s.scopes.cursor row.symbol)
    (hfree : s.scopes.entries s.scopes.cursor row.name = []) :
    (declareRow span row).Succeeds settings s := by
  obtain ⟨hidden, g, hinsert⟩ := ScopeGraph.insert_total hfree (s.tables.conflicts row.symbol)
  have hcomparable : IsComparable s row :=
    ⟨Option.isSome_iff_exists.mpr (ScopeGraph.exists_path? hs.graph.parents hs.graph.cursor), by rw [hfree]; rfl⟩
  refine Gives.succeeds_bind (a := ()) (gives_requireComparable.mpr ⟨hcomparable, rfl⟩) ?_
  refine (gives_state.mpr ⟨rfl, rfl⟩).succeeds_bind ?_
  rw [hinsert]
  refine (gives_update_self _).succeeds_bind ?_
  cases hidden with
  | none => exact succeeds_pure _
  | some hidden =>
      obtain ⟨scope, hmem⟩ := ScopeGraph.mem_entries_of_hidden hinsert
      obtain ⟨old, hold⟩ := (hs.insert hinsert hrow).fits.exists_symbol hmem
      obtain ⟨place, outline, ho, -⟩ := hrow
      obtain ⟨new, hnew, -⟩ := Option.map_eq_some_iff.mp ho
      exact warnShadow_total hnew hold

theorem mem_entries_declareRow {span : Span} {row : Row} {name : String} {id : SymbolId}
    (h : (declareRow span row).Gives settings s () s') (hid : id ∈ s'.scopes.entries scope name) :
    id ∈ s.scopes.entries scope name ∨ name = row.name := by
  simp only [declareRow, gives_bind, gives_requireComparable, gives_state] at h
  obtain ⟨_, _, ⟨-, rfl⟩, _, _, ⟨rfl, rfl⟩, h⟩ := h
  split at h
  · next hidden g hinsert =>
    simp only [gives_bind, gives_update] at h
    obtain ⟨_, _, rfl, h⟩ := h
    have hscopes : s'.scopes = g := by
      split at h
      · exact scopes_warnShadow h
      · exact (gives_pure.mp h).2 ▸ rfl
    exact (ScopeGraph.mem_entries_insert hinsert (hscopes ▸ hid)).imp_right fun h => h.2.1
  · exact absurd h not_gives_clash

/-! ## Imports -/

/-- A module is imported that was not met before. -/
theorem declareImport_total (hs : s.Scoped) {seen : List ScopeId} {name : Ident} {target : ModuleEntry}
    (hscope : scope < s.scopes.size) (himported : s.Imported scope seen)
    (htarget : s.module? name.name = some target) (hseen : target.scope ∉ seen) :
    ∃ s', (withCursor scope (declare name target.symbol)).Gives settings s () s' ∧ s.Still s' ∧
      s'.Imported scope (seen ++ [target.scope]) := by
  obtain ⟨place, inner, ho⟩ := (hs.modules target (List.mem_of_find?_eq_some htarget)).symbol
  have hfree : s.scopes.entries scope name.name = [] := by
    refine List.eq_nil_iff_forall_not_mem.mpr fun id hid => ?_
    obtain ⟨other, hother, hmet⟩ := himported name.name id hid
    obtain rfl := Option.some.inj (htarget.symm.trans hother)
    exact hseen hmet
  obtain ⟨⟨⟩, s₁, hdeclare⟩ : (declare name target.symbol).Succeeds settings
      { s with scopes := s.scopes.setCursor scope } :=
    declareRow_total (hs.moveCursor hscope) ⟨place, _, ho, by simp⟩ hfree
  have hgives : (withCursor scope (declare name target.symbol)).Gives settings s () _ :=
    gives_withCursor.mpr ⟨ScopeGraph.isSome_get? hscope, s₁, hdeclare, rfl⟩
  have hstill := still_declareIn hs hscope ho (by simp) hgives
  refine ⟨_, hgives, hstill, fun name' id hid => ?_⟩
  rw [CheckState.module?, hstill.modules]
  rcases mem_entries_declareRow hdeclare hid with hold | rfl
  · obtain ⟨other, hother, hmet⟩ := himported name' id hold
    exact ⟨other, hother, List.mem_append_left _ hmet⟩
  · exact ⟨target, htarget, List.mem_append_right _ (List.mem_singleton_self _)⟩

/-- Imports of modules that are declared succeed, however often they are repeated. -/
theorem declareImports_total (importer : String) (names : List Ident) (hs : s.Scoped)
    {seen : List ScopeId} (hscope : scope < s.scopes.size) (himported : s.Imported scope seen)
    (hknown : ∀ name ∈ names, name.name ∈ s.modules.map ModuleEntry.name) :
    (declareImports importer scope seen names).Succeeds settings s := by
  induction names generalizing s seen with
  | nil => exact succeeds_pure _
  | cons name rest ih =>
      obtain ⟨target, htarget⟩ := Option.isSome_iff_exists.mp
        (module?_isSome.mpr (hknown name List.mem_cons_self))
      have hrest (name : Ident) (hname : name ∈ rest) := hknown name (List.mem_cons_of_mem _ hname)
      refine (gives_state.mpr ⟨rfl, rfl⟩).succeeds_bind ?_
      rw [htarget]
      by_cases hseen : target.scope ∈ seen
      · simp only [List.contains_iff_mem.mpr hseen, if_true]
        exact ih hs hscope himported hrest
      · obtain ⟨s₁, hdeclare, hstill, himported⟩ :=
          declareImport_total hs hscope himported htarget hseen
        simp only [List.contains_iff_mem, hseen, if_false]
        exact hdeclare.succeeds_bind <| ih hstill.fits (Nat.lt_of_lt_of_le hscope hstill.grows.size) himported
          fun name hname => hstill.modules ▸ hrest name hname

/-! ## Modules -/

/-- The scope of a module is made, in which nothing is bound. -/
theorem enterModule_total (settings : Settings) (hs : s.Scoped) : ∃ scope s',
    (withCursor ScopeGraph.root (enterScope .namespaceScope none)).Gives settings s scope s' ∧
      ∀ name, s'.scopes.entries scope name = [] := by
  have hroot := ScopeGraph.isSome_get? (Nat.zero_lt_of_lt hs.graph.cursor : ScopeGraph.root < _)
  refine ⟨_, _, gives_withCursor.mpr ⟨hroot, _, gives_enterScope.mpr ⟨rfl, rfl⟩, rfl⟩, fun name => ?_⟩
  refine List.eq_nil_iff_forall_not_mem.mpr fun id hid => ?_
  exact Nat.lt_irrefl _ (ScopeGraph.lt_size_of_entries (ScopeGraph.entries_enter hid))

/-- A module whose name is new is declared if everything it imports was declared before. -/
theorem declareModule_total (hs : s.Scoped) {m : Module}
    (hnew : m.name.name ∉ s.modules.map ModuleEntry.name)
    (hknown : ∀ name ∈ m.imports, name.name ∈ s.modules.map ModuleEntry.name) :
    (declareModule m).Succeeds settings s := by
  obtain ⟨scope, s₁, henter, hempty⟩ := enterModule_total settings hs
  obtain ⟨hentered, hkind⟩ := still_enterModule hs henter
  obtain ⟨entry, hentry, -⟩ := Option.map_eq_some_iff.mp hkind
  have hscope := ScopeGraph.lt_size_of_get? hentry
  obtain ⟨symbol, s₂, hsymbol⟩ : ∃ symbol s₂, (newSymbol m.name.name m.name.span (.moduleSpace scope)
      ScopeGraph.root).Gives settings s₁ symbol s₂ := ⟨_, _, gives_newSymbol.mpr ⟨rfl, rfl⟩⟩
  obtain ⟨hadded, -⟩ := still_newSymbol hentered.fits hsymbol
    (Nat.zero_lt_of_lt hentered.fits.graph.cursor) (fun inner hinner => Option.some.inj hinner ▸ hscope)
    trivial
  obtain ⟨s₃, howner⟩ : ∃ s₃, (setOwner scope symbol).Gives settings s₂ () s₃ :=
    ⟨_, gives_setOwner.mpr ⟨ScopeGraph.isSome_get? (Nat.lt_of_lt_of_le hscope hadded.grows.size), rfl⟩⟩
  have howned := hadded.trans (quiet_setOwner.still howner hadded.fits)
  have himported : s₃.Imported scope [] := fun name id hid => by
    obtain ⟨-, rfl⟩ := gives_newSymbol.mp hsymbol
    obtain ⟨-, rfl⟩ := gives_setOwner.mp howner
    rw [ScopeGraph.entries_setOwner] at hid
    simp [hempty] at hid
  have hmodules : s₃.modules = s.modules := howned.modules.trans hentered.modules
  obtain ⟨imports, s₄, himports⟩ : (declareImports m.name.name scope [] m.imports).Succeeds settings s₃ :=
    declareImports_total _ _ howned.fits (Nat.lt_of_lt_of_le hscope howned.grows.size) himported
      (hmodules ▸ hknown)
  have hnone : ¬ (s.module? m.name.name).isSome = true := mt module?_isSome.mp hnew
  refine (gives_state.mpr ⟨rfl, rfl⟩).succeeds_bind ?_
  dsimp only
  rw [if_neg hnone]
  exact henter.succeeds_bind (hsymbol.succeeds_bind (howner.succeeds_bind (himports.succeeds_bind
    ((gives_update_self _).succeeds_bind (succeeds_pure _)))))

end Check

end Stela
