import Stela.Proofs.Check.Lowering
import Stela.Proofs.Scopes
import Mathlib.Logic.Relation

/-!
# What aliases refer to

Once the types of a module are declared, it is settled which alias refers to
which: each name in the target of an alias means a symbol in the scope of the
alias. While the types are completed symbols get their details and structs their
fields, but no field is a type, so the names of types keep their meaning.
-/

namespace Stela

namespace CheckState

variable {s t u : CheckState} {place : ScopeId} {id a b : SymbolId}

/-- A name is found on the search path, or else in the only import that binds it. -/
theorem find_eq_symbols {name : String} {entries : List SymbolId} : s.find name = .symbols entries ↔
    (∃ scope, s.scopes.lookup s.scopes.cursor name = some (scope, entries)) ∨
      s.scopes.lookup s.scopes.cursor name = none ∧
        ((s.importsOf s.scopes.cursor).map fun i => s.scopes.entries i name).filter
          (fun entries => !entries.isEmpty) = [entries] := by
  unfold find
  cases hlookup : s.scopes.lookup s.scopes.cursor name with
  | some found =>
      obtain ⟨scope, found⟩ := found
      simp
  | none =>
      dsimp only
      generalize List.filter _ _ = bound
      split <;> simp_all

/-! ## References -/

/-- The first symbol that a name means in a scope. -/
def means? (s : CheckState) (place : ScopeId) (name : String) : Option SymbolId :=
  match { s with scopes := s.scopes.setCursor place }.find name with
  | .symbols (first :: _) => some first
  | _ => none

theorem means?_eq_some {name : String} : s.means? place name = some id ↔
    ∃ rest, ({ s with scopes := s.scopes.setCursor place } : CheckState).find name = .symbols (id :: rest) := by
  unfold means?
  split <;> simp_all

/-- The symbol that the name of a type means in a scope, where a qualifier is that of a module. -/
def meansType? (s : CheckState) (place : ScopeId) (qualifier : Option Ident) (name : Ident) :
    Option SymbolId :=
  match qualifier with
  | none => s.means? place name.name
  | some space => (s.means? place space.name).bind fun first =>
    match s.tables.symbols.kind? first with
    | some (.moduleSpace scope) => (s.scopes.entries scope name.name).head?
    | _ => none

/-- A symbol is named in a type expression, in the element type of an array or in a function type. -/
inductive NamesType (s : CheckState) (place : ScopeId) : TypeExpr → SymbolId → Prop
  | named {node qualifier name id} (h : s.meansType? place qualifier name = some id) :
      NamesType s place (.named node qualifier name) id
  | element {node element id} (h : NamesType s place element id) :
      NamesType s place (.array node element) id
  | param {node params ret passing type id} (hparam : ⟨passing, type⟩ ∈ params)
      (h : NamesType s place type id) : NamesType s place (.func node params ret) id
  | ret {node params ret id} (h : NamesType s place ret id) :
      NamesType s place (.func node params (some ret)) id

/-- An alias whose target is not known yet refers to the symbols that are named in the target. -/
inductive Refers (s : CheckState) (a b : SymbolId) : Prop
  | intro {entry info written} (hentry : s.tables.symbols.get? a = some entry)
      (hkind : entry.kind = .aliasType info) (htarget : info.target = .unresolved written)
      (hnames : s.NamesType entry.scope written b)

/-- An alias of the given name leads back to itself. -/
def Loops (s : CheckState) (name : String) : Prop :=
  ∃ a, s.tables.symbols.name a = name ∧ Relation.TransGen s.Refers a a

/-- Following references from a symbol ends. -/
def Ends (s : CheckState) (id : SymbolId) : Prop := Acc (fun b a => s.Refers a b) id

theorem Ends.not_transGen_self (h : s.Ends id) : ¬ Relation.TransGen s.Refers id id := by
  induction h with
  | intro a _ ih =>
      intro hcycle
      obtain ⟨b, hfirst, hrest⟩ := Relation.TransGen.head'_iff.mp hcycle
      exact ih b hfirst (Relation.TransGen.tail' hrest hfirst)

/-- What is no alias refers to nothing. -/
theorem ends_of_not_alias (h : ∀ info, s.tables.symbols.kind? id ≠ some (.aliasType info)) : s.Ends id := by
  refine .intro id fun b hrefers => ?_
  obtain ⟨hentry, hkind, -, -⟩ := hrefers
  exact absurd ((SymbolTable.kind?_of_get? hentry).trans (congrArg some hkind)) (h _)

/-- The target of the alias is being resolved. -/
def Resolving (s : CheckState) (id : SymbolId) : Prop :=
  ∃ info, s.tables.symbols.kind? id = some (.aliasType info) ∧ info.target = .resolving

end CheckState

/-! ## Details -/

/-- The details of a type become known: the fields of a struct or a host type, the target of an
alias. -/
inductive SymbolKind.Refined : SymbolKind → SymbolKind → Prop
  | refl (kind) : Refined kind kind
  | structType {info info'} : Refined (.structType info) (.structType info')
  | hostType {info info'} : Refined (.hostType info) (.hostType info')
  | aliasType {info info'}
      (h : ∀ written, info'.target = .unresolved written → info.target = .unresolved written) :
      Refined (.aliasType info) (.aliasType info')

theorem SymbolKind.Refined.trans {kind kind' kind'' : SymbolKind} (h : kind.Refined kind')
    (h' : kind'.Refined kind'') : kind.Refined kind'' := by
  cases h with
  | refl => exact h'
  | structType => cases h' <;> exact .structType
  | hostType => cases h' <;> exact .hostType
  | aliasType h =>
      cases h' with
      | refl => exact .aliasType h
      | aliasType h' => exact .aliasType fun written hwritten => h written (h' written hwritten)

theorem SymbolKind.Refined.eq_moduleSpace {kind : SymbolKind} {scope : ScopeId}
    (h : kind.Refined (.moduleSpace scope)) : kind = .moduleSpace scope := by
  cases h
  rfl

def SymbolTable.IsField (t : SymbolTable) (id : SymbolId) : Prop := ∃ info, t.kind? id = some (.field info)

namespace CheckState

variable {s t u : CheckState} {place : ScopeId} {id : SymbolId}

/-- Types of the first state have got details in the second one; what else was added are fields. -/
structure Refines (t s : CheckState) : Prop where
  modules : s.modules = t.modules
  size : s.scopes.size = t.scopes.size
  kinds : ∀ scope, s.scopes.kind? scope = t.scopes.kind? scope
  parents : ∀ scope, s.scopes.parent? scope = t.scopes.parent? scope
  rows : ∀ scope, ∃ more, s.scopes.rows scope = t.scopes.rows scope ++ more ∧
    ∀ row ∈ more, s.tables.symbols.IsField row.symbol
  symbols : ∀ id entry, s.tables.symbols.get? id = some entry → s.tables.symbols.IsField id ∨
    ∃ old, t.tables.symbols.get? id = some old ∧ entry.name = old.name ∧ entry.scope = old.scope ∧
      old.kind.Refined entry.kind
  kept : ∀ id kind, t.tables.symbols.kind? id = some kind →
    ∃ kind', s.tables.symbols.kind? id = some kind' ∧ kind.Refined kind'

namespace Refines

theorem refl (s : CheckState) : s.Refines s where
  modules := rfl
  size := rfl
  kinds _ := rfl
  parents _ := rfl
  rows _ := ⟨[], by simp, by simp⟩
  symbols _ entry h := .inr ⟨entry, h, rfl, rfl, .refl _⟩
  kept _ kind h := ⟨kind, h, .refl kind⟩

variable (h : t.Refines s)

include h

theorem isField (hid : t.tables.symbols.IsField id) : s.tables.symbols.IsField id := by
  obtain ⟨info, hinfo⟩ := hid
  obtain ⟨kind', hkind', hrefined⟩ := h.kept id _ hinfo
  cases hrefined
  exact ⟨info, hkind'⟩

theorem aliasType {info : AliasInfo} (hid : t.tables.symbols.kind? id = some (.aliasType info)) :
    ∃ info', s.tables.symbols.kind? id = some (.aliasType info') := by
  obtain ⟨kind', hkind', hrefined⟩ := h.kept id _ hid
  cases hrefined with
  | refl => exact ⟨info, hkind'⟩
  | aliasType => exact ⟨_, hkind'⟩

theorem trans (h' : s.Refines u) : t.Refines u where
  modules := h'.modules.trans h.modules
  size := h'.size.trans h.size
  kinds scope := (h'.kinds scope).trans (h.kinds scope)
  parents scope := (h'.parents scope).trans (h.parents scope)
  rows scope := by
    obtain ⟨more, hmore, hfields⟩ := h.rows scope
    obtain ⟨more', hmore', hfields'⟩ := h'.rows scope
    refine ⟨more ++ more', by rw [hmore', hmore, List.append_assoc], ?_⟩
    exact List.forall_mem_append.mpr ⟨fun row hrow => h'.isField (hfields row hrow), hfields'⟩
  symbols id entry hentry := by
    rcases h'.symbols id entry hentry with hfield | ⟨old, hold, hname, hscope, hrefined⟩
    · exact .inl hfield
    rcases h.symbols id old hold with hfield | ⟨first, hfirst, hname', hscope', hrefined'⟩
    · exact .inl (h'.isField hfield)
    · exact .inr ⟨first, hfirst, hname.trans hname', hscope.trans hscope', hrefined'.trans hrefined⟩
  kept id kind hkind := by
    obtain ⟨kind', hkind', hrefined⟩ := h.kept id kind hkind
    obtain ⟨kind'', hkind'', hrefined'⟩ := h'.kept id kind' hkind'
    exact ⟨kind'', hkind'', hrefined.trans hrefined'⟩

/-! ## Names keep their meaning -/

theorem entries (scope : ScopeId) (name : String) : ∃ more,
    s.scopes.entries scope name = t.scopes.entries scope name ++ more ∧
      ∀ id ∈ more, s.tables.symbols.IsField id := by
  obtain ⟨more, hmore, hfields⟩ := h.rows scope
  refine ⟨(more.filter fun row => row.name == name).map Row.symbol, ?_, fun id hid => ?_⟩
  · rw [ScopeGraph.entries_eq_rows, ScopeGraph.entries_eq_rows, hmore, List.filter_append, List.map_append]
  · obtain ⟨row, hrow, rfl⟩ := List.mem_map.mp hid
    exact hfields row (List.mem_filter.mp hrow).1

theorem entries_eq_nil {scope : ScopeId} {name : String} (hnil : s.scopes.entries scope name = []) :
    t.scopes.entries scope name = [] := by
  obtain ⟨more, hmore, -⟩ := h.entries scope name
  exact (List.append_eq_nil_iff.mp (hmore.symm.trans hnil)).1

/-- What stands first under a name in a scope stood there before, unless it is a field. -/
theorem entries_eq_cons {scope : ScopeId} {name : String} {rest : List SymbolId}
    (hcons : s.scopes.entries scope name = id :: rest) (hid : ¬ s.tables.symbols.IsField id) :
    ∃ rest', t.scopes.entries scope name = id :: rest' := by
  obtain ⟨more, hmore, hfields⟩ := h.entries scope name
  rw [hcons] at hmore
  rcases List.cons_eq_append_iff.mp hmore with ⟨-, rfl⟩ | ⟨rest', hold, -⟩
  · exact absurd (hfields id List.mem_cons_self) hid
  · exact ⟨rest', hold⟩

theorem path_eq : s.scopes.path = t.scopes.path := by
  funext scope
  rw [ScopeGraph.path, ScopeGraph.path, funext h.parents, h.size]

theorem searchPath_eq : s.scopes.searchPath = t.scopes.searchPath := by
  have hparent : s.scopes.lookupParent? = t.scopes.lookupParent? := by
    funext scope
    have hnamespace : s.scopes.isNamespace = t.scopes.isNamespace := by
      funext other
      rw [ScopeGraph.isNamespace, ScopeGraph.isNamespace, h.kinds]
    rw [ScopeGraph.lookupParent?, ScopeGraph.lookupParent?, h.parents, h.kinds, h.path_eq, hnamespace]
  funext scope
  rw [ScopeGraph.searchPath, ScopeGraph.searchPath, hparent, h.size]

theorem importsOf_eq : s.importsOf = t.importsOf := by
  funext scope
  rw [CheckState.importsOf, CheckState.importsOf, CheckState.moduleOf?, CheckState.moduleOf?, h.path_eq,
    h.modules]

theorem lookup_eq_none {name : String} (hnone : s.scopes.lookup place name = none) :
    t.scopes.lookup place name = none := by
  unfold ScopeGraph.lookup at hnone ⊢
  rw [h.searchPath_eq] at hnone
  refine List.findSome?_eq_none_iff.mpr fun scope hscope => ?_
  have hnone' := List.findSome?_eq_none_iff.mp hnone scope hscope
  split at hnone'
  · next hnil => rw [h.entries_eq_nil hnil]
  · cases hnone'

theorem lookup_eq_some {name : String} {scope : ScopeId} {rest : List SymbolId}
    (hsome : s.scopes.lookup place name = some (scope, id :: rest))
    (hid : ¬ s.tables.symbols.IsField id) :
    ∃ rest', t.scopes.lookup place name = some (scope, id :: rest') := by
  unfold ScopeGraph.lookup at hsome ⊢
  rw [h.searchPath_eq] at hsome
  obtain ⟨before, found, after, heq, hfound, hbefore⟩ := List.findSome?_eq_some_iff.mp hsome
  split at hfound
  · cases hfound
  · obtain ⟨rfl, hentries⟩ := Prod.mk.inj (Option.some.inj hfound)
    obtain ⟨rest', hrest'⟩ := h.entries_eq_cons hentries hid
    refine ⟨rest', List.findSome?_eq_some_iff.mpr ⟨before, found, after, heq, ?_, fun x hx => ?_⟩⟩
    · rw [hrest']
    · have hnone := hbefore x hx
      split at hnone
      · next hnil => rw [h.entries_eq_nil hnil]
      · cases hnone

/-- The imports that bind a name are the same, if it means a type in the only one. -/
theorem bound_imports {name : String} {rest : List SymbolId} (imports : List ScopeId)
    (hbound : (imports.map fun i => s.scopes.entries i name).filter (fun entries => !entries.isEmpty) =
      [id :: rest]) (hid : ¬ s.tables.symbols.IsField id) :
    ∃ rest', (imports.map fun i => t.scopes.entries i name).filter (fun entries => !entries.isEmpty) =
      [id :: rest'] := by
  induction imports with
  | nil => cases hbound
  | cons scope imports ih =>
      rw [List.map_cons, List.filter_cons] at hbound ⊢
      split at hbound
      · obtain ⟨hfirst, hrest⟩ := List.cons.inj hbound
        obtain ⟨rest', hrest'⟩ := h.entries_eq_cons hfirst hid
        refine ⟨rest', ?_⟩
        rw [if_pos (by simp [hrest']), hrest', List.cons_inj_right]
        refine List.filter_eq_nil_iff.mpr fun entries hentries => ?_
        obtain ⟨other, hother, rfl⟩ := List.mem_map.mp hentries
        have hnil := List.filter_eq_nil_iff.mp hrest _ (List.mem_map_of_mem hother)
        simp [h.entries_eq_nil (by simpa using hnil)]
      · next hempty =>
        rw [if_neg (by simp [h.entries_eq_nil (by simpa using hempty)])]
        exact ih hbound

/-- A name that means a type means it all along. -/
theorem means?_eq {name : String} (hmeans : s.means? place name = some id)
    (hid : ¬ s.tables.symbols.IsField id) : t.means? place name = some id := by
  obtain ⟨rest, hfind⟩ := means?_eq_some.mp hmeans
  refine means?_eq_some.mpr ?_
  rcases find_eq_symbols.mp hfind with ⟨scope, hlookup⟩ | ⟨hnone, hbound⟩
  · obtain ⟨rest', hrest'⟩ := h.lookup_eq_some hlookup hid
    exact ⟨rest', find_eq_symbols.mpr (.inl ⟨scope, hrest'⟩)⟩
  · change ((s.importsOf place).map _).filter _ = _ at hbound
    rw [h.importsOf_eq] at hbound
    obtain ⟨rest', hrest'⟩ := h.bound_imports _ hbound hid
    exact ⟨rest', find_eq_symbols.mpr (.inr ⟨h.lookup_eq_none hnone, hrest'⟩)⟩

/-- A name of a type means the same all along. -/
theorem meansType?_eq {qualifier : Option Ident} {name : Ident}
    (hmeans : s.meansType? place qualifier name = some id) (hid : ¬ s.tables.symbols.IsField id) :
    t.meansType? place qualifier name = some id := by
  cases qualifier with
  | none => exact h.means?_eq hmeans hid
  | some space =>
      obtain ⟨first, hfirst, hmeans⟩ := Option.bind_eq_some_iff.mp hmeans
      split at hmeans
      · next scope hscope =>
        have hfirst := h.means?_eq hfirst fun ⟨info, hinfo⟩ => by simp [hscope] at hinfo
        obtain ⟨entry, hentry, hkind⟩ := Option.map_eq_some_iff.mp hscope
        rcases h.symbols first entry hentry with ⟨info, hinfo⟩ | ⟨old, hold, -, -, hrefined⟩
        · simp [hscope] at hinfo
        have hkind' := (SymbolTable.kind?_of_get? hold).trans
          (congrArg some (hkind ▸ hrefined).eq_moduleSpace)
        refine Option.bind_eq_some_iff.mpr ⟨first, hfirst, ?_⟩
        obtain ⟨rest, hrest⟩ := List.head?_eq_some_iff.mp hmeans
        obtain ⟨rest', hrest'⟩ := h.entries_eq_cons hrest hid
        rw [hkind']
        exact List.head?_eq_some_iff.mpr ⟨rest', hrest'⟩
      · cases hmeans

end Refines

end CheckState

end Stela
