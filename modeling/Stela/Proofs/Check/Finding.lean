import Stela.Proofs.Check.Opening
import Stela.Proofs.Check.Runs

/-!
# Names that are found

A name that is looked up in the body of a function means something declared in
that body, or something that is no object of another body. A name that a path
starts with means a type or a module.
-/

namespace Stela

namespace CheckState

variable {s s' : CheckState} {within : Nat → Nat → Prop} {id : SymbolId} {scope : ScopeId}

/-- Whether a symbol may be found from the cursor. -/
def Visible (s : CheckState) (id : SymbolId) : Prop := ∃ scope name, id ∈ s.scopes.entries scope name ∧
  (scope ∈ s.scopes.searchPath s.scopes.cursor ∨ scope ∈ s.importsOf s.scopes.cursor)

theorem Visible.exists_outline (hvisible : s.Visible id) (hs : s.Scoped) :
    ∃ place outline, s.tables.symbols.outline? id = some (place, outline) := by
  obtain ⟨scope, name, hmem, -⟩ := hvisible
  obtain ⟨place, outline, ho, -⟩ := hs.rows scope name id hmem
  exact ⟨place, outline, ho⟩

theorem kind?_of_mem_importsOf (hs : s.Scoped) {start : ScopeId} (h : scope ∈ s.importsOf start) :
    s.scopes.kind? scope = some .namespaceScope := by
  unfold importsOf at h
  split at h
  · next m hm =>
    obtain ⟨other, -, hfind⟩ := List.exists_of_findSome?_eq_some hm
    exact (hs.modules m (List.mem_of_find?_eq_some hfind)).imports scope h
  · simp at h

/-- The body of a function finds no objects of other bodies. -/
theorem Visible.not_outside (hvisible : s.Visible id) (hs : s.Scoped) (hlocated : s.Located)
    {symbol : SymbolId} (htop : s.top? = some (symbol, .function, scope)) : ¬ s.Outside id scope := by
  rintro ⟨place, info, ho, horigin, hwithin⟩
  obtain ⟨found, name, hmem, hfound⟩ := hvisible
  obtain ⟨hlocal, hkind⟩ := hlocated symbol _ scope htop
  obtain ⟨entry, hentry, -⟩ := Option.map_eq_some_iff.mp hkind
  obtain ⟨place', outline, ho', hobject⟩ := hs.rows found name id hmem
  obtain ⟨rfl, rfl⟩ := SymbolTable.outline?_inj ho ho'
  rcases hobject info rfl with hglobal | ⟨rfl, hspace⟩
  · exact horigin hglobal
  · rcases hfound with hpath | himport
    · rcases ScopeGraph.mem_searchPath hs.graph (ScopeGraph.lt_size_of_get? hentry) hkind hlocal hpath
        with hinside | hnamespace
      · simp [hinside] at hwithin
      · exact hspace hnamespace
    · exact hspace (kind?_of_mem_importsOf hs himport)

theorem visible_of_gather {name : String} (h : id ∈ s.gather name) : s.Visible id := by
  rcases List.mem_append.mp h with hpath | himport
  · obtain ⟨scope, hscope, hmem⟩ := List.mem_flatMap.mp hpath
    exact ⟨scope, name, hmem, .inl hscope⟩
  · obtain ⟨scope, hscope, hmem⟩ := List.mem_flatMap.mp himport
    exact ⟨scope, name, hmem, .inr hscope⟩

theorem visible_of_find {name : String} {entries : List SymbolId} (h : s.find name = .symbols entries)
    (hid : id ∈ entries) : s.Visible id := by
  unfold find at h
  split at h
  · next found hlookup =>
    obtain rfl := Found.symbols.inj h
    obtain ⟨scope, hscope, hsome⟩ := List.exists_of_findSome?_eq_some hlookup
    split at hsome
    · cases hsome
    · next hentries =>
      obtain ⟨rfl, rfl⟩ := Prod.mk.inj (Option.some.inj hsome)
      exact ⟨_, name, hid, .inl hscope⟩
  · split at h
    · cases h
    · next found himports =>
      obtain rfl := Found.symbols.inj h
      have hmem := List.mem_of_mem_filter (himports ▸ List.mem_singleton_self found)
      obtain ⟨scope, hscope, rfl⟩ := List.mem_map.mp hmem
      exact ⟨scope, name, hid, .inr hscope⟩
    · cases h

/-- A symbol that is no object is never outside. -/
theorem not_outside_of_kind {kind : SymbolKind} (hkind : s.tables.symbols.kind? id = some kind)
    (hobject : ∀ info, kind ≠ .object info) : ¬ s.Outside id scope := by
  rintro ⟨place, info, ho, -⟩
  obtain ⟨place', ho'⟩ := SymbolTable.exists_of_kind? hkind
  obtain ⟨-, heq⟩ := SymbolTable.outline?_inj ho ho'
  cases kind with
  | object info => exact hobject info rfl
  | _ => simp [SymbolKind.outline] at heq

/-- What a name means is one of the symbols it may mean, and it is captured if it has to be. -/
def Denotes (s : CheckState) (node : Nat) (entries : List SymbolId) : Prop :=
  ∃ source ∈ entries, s.meanings.exprs.get? node = some source ∧
    (∃ place outline, s.tables.symbols.outline? source = some (place, outline)) ∧
    ∀ scope, s.body? = some (.closure, scope) → s.Outside source scope →
      (s.captured.get? node).isSome

theorem Denotes.mono {node : Nat} {entries : List SymbolId} (hs : s.Scoped) (h : s.Passes within s')
    (hdenotes : s.Denotes node entries) : s'.Denotes node entries := by
  obtain ⟨source, hmem, hmeaning, ⟨place, outline, ho⟩, hcaptured⟩ := hdenotes
  obtain ⟨outline', ho', -⟩ := h.onward.symbols source place outline ho
  refine ⟨source, hmem, h.onward.meanings node source hmeaning, ⟨place, outline', ho'⟩,
    fun scope hbody houtside => ?_⟩
  exact h.onward.captured node (hcaptured scope (h.body?.symm.trans hbody)
    (houtside.of_onward hs h.onward ho))

/-- A symbol that is no object needs no capture. -/
theorem denotes_of_kind {node : Nat} {entries : List SymbolId} {kind : SymbolKind} (hmem : id ∈ entries)
    (hmeaning : s.meanings.exprs.get? node = some id) (hkind : s.tables.symbols.kind? id = some kind)
    (hobject : ∀ info, kind ≠ .object info) : s.Denotes node entries := by
  obtain ⟨place, ho⟩ := SymbolTable.exists_of_kind? hkind
  exact ⟨id, hmem, hmeaning, ⟨place, _, ho⟩, fun scope _ houtside =>
    absurd houtside (not_outside_of_kind hkind hobject)⟩

/-- A name is read if everything that it may mean can be found from the cursor. -/
theorem Denotes.readBy {node : Nat} {entries : List SymbolId} (hs : s.Scoped) (hlocated : s.Located)
    (hvisible : ∀ id ∈ entries, s.Visible id) (h : s.Passes within s')
    (hdenotes : s'.Denotes node entries) : s'.ReadBy s'.body? node := by
  obtain ⟨source, hmem, hmeaning, hexists, hcaptured⟩ := hdenotes
  refine ⟨source, hmeaning, hexists, fun kind scope hbody houtside => ?_⟩
  cases kind with
  | closure => exact ⟨rfl, hcaptured scope hbody houtside⟩
  | function =>
      obtain ⟨place, outline, ho⟩ := (hvisible source hmem).exists_outline hs
      obtain ⟨⟨symbol, kind, scope'⟩, htop, heq⟩ := Option.map_eq_some_iff.mp (h.body?.symm.trans hbody)
      obtain ⟨rfl, rfl⟩ := Prod.mk.inj heq
      exact absurd (houtside.of_onward hs h.onward ho) ((hvisible source hmem).not_outside hs hlocated htop)

end CheckState

namespace Check

open CheckState

variable {settings : Settings} {s s' : CheckState} {within : Nat → Nat → Prop}

theorem visible_of_lookup {name : Ident} {entries : List SymbolId}
    (h : (lookup name).Gives settings s entries s') : ∀ id ∈ entries, s.Visible id := by
  intro id hid
  simp only [lookup, gives_bind, gives_searching] at h
  obtain ⟨_, _, ⟨⟨-, rfl⟩, rfl⟩, h⟩ := h
  split at h
  · obtain ⟨rfl, -⟩ := gives_pure.mp h
    simp at hid
  · next hfind =>
    obtain ⟨rfl, -⟩ := gives_pure.mp h
    exact visible_of_find hfind hid
  · exact absurd h gives_raise

theorem visible_of_lookupRequired {name : Ident} {entries : List SymbolId}
    (h : (lookupRequired name).Gives settings s entries s') : ∀ id ∈ entries, s.Visible id := by
  simp only [lookupRequired, gives_bind] at h
  obtain ⟨found, s₁, hlookup, h⟩ := h
  split at h
  · exact absurd h gives_raise
  · obtain ⟨rfl, -⟩ := gives_pure.mp h
    exact visible_of_lookup hlookup

/-- The candidates that accept the arguments are some of those that were asked, in their order. -/
theorem sublist_of_survivors {args : List ExprType} (candidates : List SymbolId)
    {found : Nat × List SymbolId} (h : (survivors args candidates).Gives settings s found s') :
    found.2.Sublist candidates := by
  induction candidates generalizing s found s' with
  | nil =>
      obtain ⟨rfl, -⟩ := gives_pure.mp h
      exact .slnil
  | cons candidate rest ih =>
      simp only [survivors, gives_bind] at h
      obtain ⟨params, s₁, -, h⟩ := h
      split at h
      · simp only [gives_bind, gives_accepts, gives_pure] at h
        obtain ⟨_, _, ⟨-, rfl⟩, ⟨callable, chosen⟩, s₂, hrest, rfl, rfl⟩ := h
        dsimp only
        split
        · exact (ih hrest).cons_cons candidate
        · exact (ih hrest).cons candidate
      · simp only [gives_bind, gives_kindOf] at h
        obtain ⟨kind, _, -, h⟩ := h
        split at h
        all_goals
          simp only [gives_pure] at h
          obtain ⟨⟨callable, chosen⟩, s₂, hrest, rfl, rfl⟩ := h
          exact (ih hrest).cons candidate

/-- An object that is used is captured if it has to be. -/
theorem around_useObject (h : s.Linked within) {node : Nat} {source : SymbolId} {entries : List SymbolId}
    {s₁ : CheckState} {info : ObjectInfo} (hadmits : s.Admits within node) (hmem : source ∈ entries)
    (huse : (useSymbol node source).Gives settings s () s₁)
    (hkind : s₁.tables.symbols.kind? source = some (.object info))
    (hnote : (noteCapture node source).Gives settings s₁ () s') :
    s.Around within s' ∧ s'.Denotes node entries := by
  obtain ⟨place, ho⟩ := SymbolTable.exists_of_kind? hkind
  have huses := h.quiet quiet_useSymbol huse
  have hmeaning := meaning_useSymbol huse
  obtain ⟨hnotes, hcaptured⟩ :=
    around_noteCapture huses.linked hmeaning (hadmits.passes huses.toPasses) hnote
  exact ⟨huses.trans hnotes, source, hmem, hnotes.onward.meanings node source hmeaning,
    ⟨place, _, hnotes.onward.symbols.object ho⟩,
    fun scope hbody => hcaptured scope (hnotes.body?.symm.trans hbody)⟩

theorem denotes_of_finish {node : Nat} {symbol target : SymbolId} (hs : s.Scoped)
    (h : (staticPath.finish node symbol).Gives settings s (some target) s') :
    s.Still s' ∧ s'.meanings.exprs.get? node = some symbol ∧ ∃ place outline,
      s'.tables.symbols.outline? symbol = some (place, outline) ∧ ∀ scope, ¬ s'.Outside symbol scope := by
  have hstill := quiet_staticPath_finish.still h hs
  simp only [staticPath.finish, gives_bind, gives_kindOf] at h
  obtain ⟨kind, _, ⟨hkind, rfl⟩, h⟩ := h
  obtain ⟨place, ho⟩ := SymbolTable.exists_of_kind? hkind
  have finish (hobject : ∀ info, kind ≠ .object info) (huse : Gives (do
      useSymbol node symbol
      return some symbol) settings s (some target) s') :
      s.Still s' ∧ s'.meanings.exprs.get? node = some symbol ∧ ∃ place outline,
        s'.tables.symbols.outline? symbol = some (place, outline) ∧
          ∀ scope, ¬ s'.Outside symbol scope := by
    simp only [gives_bind, gives_pure] at huse
    obtain ⟨_, _, huse, -, rfl⟩ := huse
    exact ⟨hstill, meaning_useSymbol huse, place, _, hstill.symbols.kept symbol _ ho, fun scope houtside =>
      not_outside_of_kind hkind hobject (houtside.of_onward hs hstill.onward ho)⟩
  split at h
  · exact finish (by simp) (by simpa only [if_true] using h)
  · rw [gives_ite] at h
    split at h
    · next husable =>
      refine finish (fun info heq => ?_) h
      subst heq
      simp [SymbolKind.isType] at husable
    · cases (gives_pure.mp h).1

/-- The names of a path to a type or a module are read. -/
theorem reads_staticPath (e : Expr) (h : s.Linked within) {target : SymbolId}
    {body : Option (FrameKind × ScopeId)} (hgives : (staticPath e).Gives settings s (some target) s') :
    ∀ site ∈ e.sites, s'.Reads body site := by
  induction e using staticPath.induct generalizing s s' target with
  | case1 node name =>
      simp only [staticPath, gives_bind] at hgives
      obtain ⟨found, s₁, hlookup, hgives⟩ := hgives
      obtain rfl := lookup_state hlookup
      split at hgives
      · cases (gives_pure.mp hgives).1
      · next symbol rest =>
        obtain ⟨-, hmeaning, place, outline, ho, hinside⟩ := denotes_of_finish h.fits hgives
        intro site hsite
        obtain rfl := List.mem_singleton.mp (by rwa [Expr.sites] at hsite)
        exact fun _ => ⟨symbol, hmeaning, ⟨place, outline, ho⟩, fun _ scope _ houtside =>
          absurd houtside (hinside scope)⟩
  | case2 node object member ih =>
      simp only [staticPath, gives_bind] at hgives
      obtain ⟨found, s₁, hobject, hgives⟩ := hgives
      split at hgives
      · cases (gives_pure.mp hgives).1
      · next parent =>
        have hfirst := h.quiet (quiet_staticPath object) hobject
        simp only [gives_bind, gives_kindOf] at hgives
        obtain ⟨kind, _, ⟨-, rfl⟩, hgives⟩ := hgives
        split at hgives
        · simp only [gives_bind, gives_entriesOf] at hgives
          obtain ⟨_, _, ⟨-, rfl⟩, hgives⟩ := hgives
          split at hgives
          · cases (gives_pure.mp hgives).1
          · obtain ⟨hstill, -⟩ := denotes_of_finish hfirst.linked.fits hgives
            intro site hsite
            rw [Expr.sites, List.mem_append, List.mem_singleton] at hsite
            rcases hsite with hsite | rfl
            · exact (ih h hobject site hsite).mono hfirst.linked.fits hstill.onward
            · exact fun hident => by simp [Expr.isIdent] at hident
        · cases (gives_pure.mp hgives).1
  | case3 e hident hmember =>
      rw [staticPath.eq_3 _ hident hmember] at hgives
      cases (gives_pure.mp hgives).1

end Check

end Stela
