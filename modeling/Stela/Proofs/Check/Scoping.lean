import Stela.Check.Operation
import Stela.Proofs.Check.Restoring
import Stela.Proofs.Syntax.NodeMap
import Stela.Proofs.Types.Declared

/-!
# Scopes and symbols

Every symbol is declared in a scope that exists, and a name in a scope means an
object only if the object was declared there. Most steps of the analysis keep
this and change neither the cursor nor what has to do with captures.
-/

namespace Stela

/-- A symbol that is bound in a scope is an object only if it was declared there or is a global; in
namespaces only globals are bound. -/
def CheckState.RowFits (s : CheckState) (scope : ScopeId) (id : SymbolId) : Prop :=
  ∃ place outline, s.tables.symbols.outline? id = some (place, outline) ∧
    ∀ info, outline = .object info → info.origin = .global ∨
      place = scope ∧ s.scopes.kind? scope ≠ some .namespaceScope

/-- A module and its imports are namespaces, and its symbol is no object. -/
structure CheckState.ModuleFits (s : CheckState) (m : ModuleEntry) : Prop where
  scope : s.scopes.kind? m.scope = some .namespaceScope
  imports : ∀ i ∈ m.imports, s.scopes.kind? i = some .namespaceScope
  symbol : ∃ place inner, s.tables.symbols.outline? m.symbol = some (place, .other inner)

/-- The scope graph fits the symbols. -/
structure CheckState.Scoped (s : CheckState) : Prop where
  graph : s.scopes.Sound
  symbols : ∀ id place outline, s.tables.symbols.outline? id = some (place, outline) →
    place < s.scopes.size ∧ ∀ scope, outline.scope? = some scope → scope < s.scopes.size
  rows : ∀ scope name, ∀ id ∈ s.scopes.entries scope name, s.RowFits scope id
  modules : ∀ m ∈ s.modules, s.ModuleFits m

/-- What holds around a step that neither moves the cursor nor touches captures. -/
structure CheckState.Still (s s' : CheckState) : Prop where
  fits : s'.Scoped
  grows : s.scopes.Grows s'.scopes
  cursor : s'.scopes.cursor = s.scopes.cursor
  symbols : s.tables.symbols.Keeps s'.tables.symbols
  frames : s'.frames.map Frame.place = s.frames.map Frame.place
  captured : s'.captured = s.captured
  meanings : ∀ node symbol, s.meanings.exprs.get? node = some symbol →
    s'.meanings.exprs.get? node = some symbol
  modules : s'.modules = s.modules

namespace CheckState

variable {s s' s'' : CheckState}

theorem Still.refl (h : s.Scoped) : s.Still s :=
  ⟨h, .refl _, rfl, .refl _, rfl, rfl, fun _ _ h => h, rfl⟩

theorem Still.trans (h : s.Still s') (h' : s'.Still s'') : s.Still s'' :=
  ⟨h'.fits, h.grows.trans h'.grows, h'.cursor.trans h.cursor, h.symbols.trans h'.symbols,
    h'.frames.trans h.frames, h'.captured.trans h.captured,
    fun node symbol hm => h'.meanings node symbol (h.meanings node symbol hm),
    h'.modules.trans h.modules⟩

namespace Scoped

variable (h : s.Scoped)

include h

theorem congr (hscopes : s'.scopes = s.scopes) (hmodules : s'.modules = s.modules)
    (hsymbols : s'.tables.symbols = s.tables.symbols) : s'.Scoped := by
  refine ⟨hscopes ▸ h.graph, ?_, ?_, ?_⟩
  · rw [hscopes, hsymbols]
    exact h.symbols
  · unfold RowFits
    rw [hscopes, hsymbols]
    exact h.rows
  · rw [hmodules]
    intro m hm
    obtain ⟨hscope, himports, hsymbol⟩ := h.modules m hm
    exact ⟨hscopes ▸ hscope, hscopes ▸ himports, hsymbols ▸ hsymbol⟩

/-- A step that leaves scopes and symbols as they are. -/
theorem aside (hscopes : s'.scopes = s.scopes) (hmodules : s'.modules = s.modules)
    (hsymbols : s'.tables.symbols = s.tables.symbols)
    (hframes : s'.frames.map Frame.place = s.frames.map Frame.place)
    (hcaptured : s'.captured = s.captured) (hmeanings : s'.meanings.exprs = s.meanings.exprs) :
    s.Still s' :=
  ⟨h.congr hscopes hmodules hsymbols, hscopes ▸ .refl _, hscopes ▸ rfl, hsymbols ▸ .refl _, hframes,
    hcaptured, fun _ _ hm => hmeanings ▸ hm, hmodules⟩

/-- Symbols are added in scopes that exist, or changed without becoming objects. -/
theorem resymbol {t : SymbolTable} (hreshapes : s.tables.symbols.Reshapes t)
    (hplaces : ∀ id place outline, t.outline? id = some (place, outline) →
      place < s.scopes.size ∧ ∀ scope, outline.scope? = some scope → scope < s.scopes.size) :
    CheckState.Scoped { s with tables.symbols := t } := by
  refine ⟨h.graph, hplaces, fun scope name id hid => ?_, fun m hm => ?_⟩
  · obtain ⟨place, outline, ho, hobject⟩ := h.rows scope name id hid
    obtain ⟨outline', ho', rfl | ⟨-, hplain⟩⟩ := hreshapes id place outline ho
    · exact ⟨place, outline', ho', hobject⟩
    · exact ⟨place, outline', ho', fun info hinfo => absurd (hinfo ▸ trivial) hplain⟩
  · obtain ⟨hscope, himports, place, inner, ho⟩ := h.modules m hm
    obtain ⟨outline', ho', rfl | ⟨hplain, -⟩⟩ := hreshapes _ place _ ho
    · exact ⟨hscope, himports, place, inner, ho'⟩
    · exact absurd trivial hplain

/-- A step that changes details of symbols which outlines do not show. -/
theorem retouch {t : SymbolTable} (heq : ∀ id, t.outline? id = s.tables.symbols.outline? id) :
    s.Still { s with tables.symbols := t } := by
  have hkeeps := SymbolTable.keeps_of_eq heq
  exact ⟨h.resymbol hkeeps.extends.reshapes fun id place outline ho =>
    h.symbols id place outline ((heq id).symm.trans ho), .refl _, rfl, hkeeps, rfl, rfl, fun _ _ h => h,
    rfl⟩

/-- One symbol is added or changed. -/
theorem sets {t : SymbolTable} {id : SymbolId} {place : ScopeId} {outline : Outline}
    (hsets : s.tables.symbols.Sets id place outline t) (hreshapes : s.tables.symbols.Reshapes t)
    (hplace : place < s.scopes.size)
    (hinner : ∀ scope, outline.scope? = some scope → scope < s.scopes.size) :
    CheckState.Scoped { s with tables.symbols := t } := by
  refine h.resymbol hreshapes fun other place' outline' ho => ?_
  rcases hsets.cases ho with ⟨rfl, rfl, rfl⟩ | ⟨-, hold⟩
  · exact ⟨hplace, hinner⟩
  · exact h.symbols other place' outline' hold

/-- A symbol is added in a scope that exists. -/
theorem addSymbol (entry : Symbol) (hscope : entry.scope < s.scopes.size)
    (hinner : ∀ scope, entry.kind.outline.scope? = some scope → scope < s.scopes.size) :
    CheckState.Scoped { s with tables.symbols := (s.tables.symbols.add entry).2 } :=
  h.sets SymbolTable.sets_add SymbolTable.gains_add.extends.reshapes hscope hinner

theorem add (entry : Symbol) (hscope : entry.scope < s.scopes.size)
    (hinner : ∀ scope, entry.kind.outline.scope? = some scope → scope < s.scopes.size)
    (hplain : entry.kind.outline.Plain) :
    s.Still { s with tables.symbols := (s.tables.symbols.add entry).2 } :=
  ⟨h.addSymbol entry hscope hinner, .refl _, rfl, SymbolTable.keeps_add hplain, rfl, rfl, fun _ _ h => h,
    rfl⟩

/-- A step that changes nothing but the scope graph. -/
theorem rescope {g : ScopeGraph} (hgrows : s.scopes.Grows g) (hg : g.Sound)
    (hrows : ∀ scope name, ∀ id ∈ g.entries scope name,
      id ∈ s.scopes.entries scope name ∨ s.RowFits scope id ∧ scope < s.scopes.size) :
    CheckState.Scoped { s with scopes := g } := by
  have hkind {scope : ScopeId} (hscope : s.scopes.kind? scope = some .namespaceScope) :
      g.kind? scope = some .namespaceScope := by
    obtain ⟨entry, hentry, -⟩ := Option.map_eq_some_iff.mp hscope
    rw [hgrows.kinds scope (ScopeGraph.lt_size_of_get? hentry), hscope]
  have hfits {scope : ScopeId} {id : SymbolId} (hfits : s.RowFits scope id)
      (hlt : scope < s.scopes.size) : RowFits { s with scopes := g } scope id := by
    obtain ⟨place, outline, ho, hobject⟩ := hfits
    refine ⟨place, outline, ho, fun info hinfo => ?_⟩
    show _ ∨ _ ∧ g.kind? scope ≠ _
    rw [hgrows.kinds scope hlt]
    exact hobject info hinfo
  refine ⟨hg, fun id place outline ho => ?_, fun scope name id hid => ?_, fun m hm => ?_⟩
  · obtain ⟨hplace, hinner⟩ := h.symbols id place outline ho
    exact ⟨Nat.lt_of_lt_of_le hplace hgrows.size,
      fun scope hs => Nat.lt_of_lt_of_le (hinner scope hs) hgrows.size⟩
  · rcases hrows scope name id hid with hold | ⟨hrow, hlt⟩
    · exact hfits (h.rows scope name id hold) (ScopeGraph.lt_size_of_entries hold)
    · exact hfits hrow hlt
  · obtain ⟨hscope, himports, hsymbol⟩ := h.modules m hm
    exact ⟨hkind hscope, fun i hi => hkind (himports i hi), hsymbol⟩

/-- A module is entered that fits. -/
theorem addModule {m : ModuleEntry} (hm : s.ModuleFits m) :
    CheckState.Scoped { s with modules := s.modules ++ [m] } := by
  refine ⟨h.graph, h.symbols, h.rows, fun m' hm' => ?_⟩
  rcases List.mem_append.mp hm' with hold | hnew
  · obtain ⟨hscope, himports, hsymbol⟩ := h.modules m' hold
    exact ⟨hscope, himports, hsymbol⟩
  · obtain ⟨hscope, himports, hsymbol⟩ := List.mem_singleton.mp hnew ▸ hm
    exact ⟨hscope, himports, hsymbol⟩

/-- A name is bound at the cursor. -/
theorem insert {row : Row} {conflicts : SymbolId → Bool} {hidden : Option SymbolId} {g : ScopeGraph}
    (hinsert : s.scopes.insert row conflicts = .ok (hidden, g))
    (hrow : s.RowFits s.scopes.cursor row.symbol) : s.Still { s with scopes := g } := by
  obtain ⟨hgrows, hsound, hcursor⟩ := ScopeGraph.grows_insert hinsert
  refine ⟨h.rescope hgrows (hsound h.graph) fun scope name id hid => ?_, hgrows, hcursor, .refl _, rfl,
    rfl, fun _ _ h => h, rfl⟩
  rcases ScopeGraph.mem_entries_insert hinsert hid with hold | ⟨rfl, -, rfl⟩
  · exact .inl hold
  · exact .inr ⟨hrow, h.graph.cursor⟩

theorem enter (kind : ScopeKind) (owner : Option SymbolId)
    (hkind : kind = .namespaceScope → s.scopes.kind? s.scopes.cursor = some .namespaceScope) :
    CheckState.Scoped { s with scopes := s.scopes.enter kind owner } :=
  h.rescope ScopeGraph.grows_enter (h.graph.enter hkind) fun _ _ _ hid =>
    .inl (ScopeGraph.entries_enter hid)

/-- The cursor is moved to a scope that exists. -/
theorem moveCursor {scope : ScopeId} (hscope : scope < s.scopes.size) :
    CheckState.Scoped { s with scopes := s.scopes.setCursor scope } :=
  h.rescope ScopeGraph.grows_setCursor (h.graph.setCursor hscope) fun _ _ _ hid => .inl hid

theorem setOwner {scope : ScopeId} {owner : SymbolId} :
    s.Still { s with scopes := s.scopes.setOwner scope owner } := by
  obtain ⟨hgrows, hsound⟩ := @ScopeGraph.grows_setOwner s.scopes scope owner
  exact ⟨h.rescope hgrows (hsound h.graph) fun other name id hid =>
    .inl (ScopeGraph.entries_setOwner ▸ hid), hgrows, rfl, .refl _, rfl, rfl, fun _ _ h => h, rfl⟩

theorem lt_size_of_get? {id : SymbolId} {entry : Symbol}
    (hentry : s.tables.symbols.get? id = some entry) : entry.scope < s.scopes.size :=
  (h.symbols id _ _ (SymbolTable.outline?_of_get? hentry)).1

end Scoped

/-- The objects and functions are all among these. -/
def Among (source : SourceDecl → Prop) (s : CheckState) : Prop :=
  ∀ id declared, s.tables.symbols.declared? id = some declared → source declared

/-- The second state has no object or function that is not in the first. -/
def Confines (s s' : CheckState) : Prop := ∀ source, s.Among source → s'.Among source

theorem Confines.refl (s : CheckState) : s.Confines s := fun _ h => h

theorem Confines.trans (h : s.Confines s') (h' : s'.Confines s'') : s.Confines s'' :=
  fun source hs => h' source (h source hs)

theorem confines_of_eq (h : ∀ id, s'.tables.symbols.declared? id = s.tables.symbols.declared? id) :
    s.Confines s' := fun _ hs id declared hd => hs id declared ((h id).symm.trans hd)

theorem confines_of_symbols (h : s'.tables.symbols = s.tables.symbols) : s.Confines s' :=
  confines_of_eq fun _ => by rw [h]

theorem Among.add {source : SourceDecl → Prop} {entry : Symbol} (hs : s.Among source)
    (hentry : ∀ declared, entry.declared? = some declared → source declared) :
    CheckState.Among source { s with tables.symbols := (s.tables.symbols.add entry).2 } := by
  intro id declared hd
  rw [SymbolTable.declared?_add] at hd
  split at hd
  · exact hentry declared hd
  · exact hs id declared hd

theorem map_place_of_bodies (h : s'.bodies = s.bodies) :
    s'.frames.map Frame.place = s.frames.map Frame.place := by
  have hplaces (s : CheckState) : s.frames.map Frame.place = s.bodies.map Prod.fst := by
    rw [bodies, List.map_map]
    rfl
  rw [hplaces, hplaces, h]

/-- What holds around a step that adds no object or function, moves no cursor for good and enters or
leaves neither a body nor a loop. -/
structure Rests (s s' : CheckState) : Prop where
  confines : s.Confines s'
  restores : s.Restores s'
  still : s.Scoped → s.Still s'

theorem Rests.refl (s : CheckState) : s.Rests s := ⟨.refl s, .refl s, fun hs => .refl hs⟩

theorem Rests.trans (h : s.Rests s') (h' : s'.Rests s'') : s.Rests s'' :=
  ⟨h.confines.trans h'.confines, h.restores.trans h'.restores,
    fun hs => (h.still hs).trans (h'.still (h.still hs).fits)⟩

theorem rests_aside (hscopes : s'.scopes = s.scopes) (hmodules : s'.modules = s.modules)
    (hsymbols : s'.tables.symbols = s.tables.symbols) (hbodies : s'.bodies = s.bodies)
    (hcaptured : s'.captured = s.captured) (hmeanings : s'.meanings.exprs = s.meanings.exprs)
    (htypes : s.tables.types.Within s'.tables.types) : s.Rests s' :=
  ⟨confines_of_symbols hsymbols, restores_aside hscopes hmodules hsymbols hbodies htypes, fun hs =>
    hs.aside hscopes hmodules hsymbols (map_place_of_bodies hbodies) hcaptured hmeanings⟩

theorem rests_retouch {t : SymbolTable} (heq : ∀ id, t.outline? id = s.tables.symbols.outline? id)
    (hdeclared : ∀ id, t.declared? id = s.tables.symbols.declared? id)
    (hidentity : ∀ id, t.identity? id = s.tables.symbols.identity? id) :
    s.Rests { s with tables.symbols := t } :=
  ⟨confines_of_eq hdeclared,
    restores_resymbol (SymbolTable.preserves_of_eq hidentity) fun id => by
      rw [SymbolTable.state?_congr (heq id)],
    fun hs => hs.retouch heq⟩

/-- A step elsewhere that leaves everything where it was. -/
theorem Still.elsewhere {scope : ScopeId} {s₁ : CheckState} (hs : s.Scoped)
    (h : CheckState.Still { s with scopes := s.scopes.setCursor scope } s₁) :
    s.Still { s₁ with scopes := s₁.scopes.setCursor s.scopes.cursor } :=
  ⟨h.fits.moveCursor (Nat.lt_of_lt_of_le hs.graph.cursor h.grows.size),
    ⟨h.grows.size, h.grows.kinds, h.grows.parents⟩, rfl, h.symbols, h.frames, h.captured, h.meanings,
    h.modules⟩

end CheckState

namespace Check

open CheckState

variable {α β : Type} {settings : Settings} {s s' : CheckState} {p : Check α} {f : α → Check β}

/-! ## Quiet steps -/

/-- A step that always leaves cursor, outlines, captures and the bodies under analysis as they are,
and adds no object or function. -/
def Quiet (p : Check α) : Prop :=
  ∀ settings s a s', p.Gives settings s a s' → s.Rests s'

theorem Quiet.still (h : Quiet p) {a : α} (hgives : p.Gives settings s a s') (hs : s.Scoped) :
    s.Still s' := (h settings s a s' hgives).still hs

/-- A step that declares only objects and functions among these. -/
def Keeping (source : SourceDecl → Prop) (p : Check α) : Prop :=
  ∀ settings s a s', p.Gives settings s a s' → s.Among source → s'.Among source

theorem Quiet.keeping (h : Quiet p) {source : SourceDecl → Prop} : Keeping source p :=
  fun settings s a s' hgives => (h settings s a s' hgives).confines source

theorem Quiet.restoring (h : Quiet p) : Restoring p :=
  fun settings s a s' hgives => (h settings s a s' hgives).restores

theorem Quiet.restores (h : Quiet p) {a : α} (hgives : p.Gives settings s a s') : s.Restores s' :=
  (h settings s a s' hgives).restores

theorem quiet_of_keeping (hkeeping : ∀ source, Keeping source p) (hrestoring : Restoring p)
    (hstill : ∀ settings s a s', p.Gives settings s a s' → s.Scoped → s.Still s') : Quiet p :=
  fun settings s a s' hgives => ⟨fun source => hkeeping source settings s a s' hgives,
    hrestoring settings s a s' hgives, hstill settings s a s' hgives⟩

theorem Quiet.bind (h : Quiet p) (hf : ∀ a, Quiet (f a)) : Quiet (p >>= f) := by
  intro settings s b s' hgives
  obtain ⟨a, s₁, hp, hrest⟩ := gives_bind.mp hgives
  exact (h _ _ _ _ hp).trans (hf a _ _ _ _ hrest)

/-- A step that leaves the state as it is. -/
theorem quiet_of_eq (h : ∀ settings s a s', p.Gives settings s a s' → s = s') : Quiet p :=
  fun settings s a s' hgives => h settings s a s' hgives ▸ .refl s

theorem quiet_update {f : CheckState → CheckState} (h : ∀ s : CheckState, s.Rests (f s)) :
    Quiet (update f) :=
  fun _ s _ _ hgives => gives_update.mp hgives ▸ h s

theorem quiet_pure (a : α) : Quiet (pure a : Check α) := quiet_of_eq fun _ _ _ _ h => (gives_pure.mp h).2

theorem quiet_raise {kind : TypeErrorKind} {span : Span} {help : Option String}
    {related : Option (Span × String)} : Quiet (raise kind span help related : Check α) :=
  fun _ _ _ _ h => absurd h gives_raise

theorem quiet_fault (reason : Fault) : Quiet (fault reason : Check α) :=
  fun _ _ _ _ h => absurd h gives_fault

theorem quiet_mismatch {expected found : TypeId} {span : Span} :
    Quiet (mismatch expected found span : Check α) := fun _ _ _ _ h => absurd h gives_mismatch

theorem quiet_require {o : Option α} {reason : Fault} : Quiet (require o reason) :=
  quiet_of_eq fun _ _ _ _ h => (gives_require.mp h).2

theorem quiet_settings : Quiet Check.settings := quiet_of_eq fun _ _ _ _ h => (gives_settings.mp h).2

theorem quiet_state : Quiet state := quiet_of_eq fun _ _ _ _ h => (gives_state.mp h).2

theorem quiet_cursor : Quiet cursor := quiet_of_eq fun _ _ _ _ h => (gives_cursor.mp h).2

theorem quiet_tables : Quiet tables := quiet_of_eq fun _ _ _ _ h => (gives_tables.mp h).2

theorem quiet_frame? : Quiet frame? := quiet_of_eq fun _ _ _ _ h => (gives_frame?.mp h).2

theorem quiet_tyOf {type : TypeId} : Quiet (tyOf type) :=
  quiet_of_eq fun _ _ _ _ h => (gives_tyOf.mp h).2

theorem quiet_concreteTy {type : TypeId} : Quiet (concreteTy type) :=
  quiet_of_eq fun _ _ _ _ h => (gives_concreteTy.mp h).2

theorem quiet_pendingOf {type : TypeId} : Quiet (pendingOf type) :=
  quiet_of_eq fun _ _ _ _ h => (gives_pendingOf.mp h).2

theorem quiet_builtinOf {type : TypeId} : Quiet (builtinOf type) :=
  quiet_of_eq fun _ _ _ _ h => (gives_builtinOf.mp h).2

theorem quiet_elementOf {type : TypeId} : Quiet (elementOf type) :=
  quiet_of_eq fun _ _ _ _ h => (gives_elementOf.mp h).2

theorem quiet_categoryOf {type : TypeId} : Quiet (categoryOf type) :=
  quiet_of_eq fun _ _ _ _ h => (gives_categoryOf.mp h).2

theorem quiet_symbol {id : SymbolId} : Quiet (symbol id) :=
  quiet_of_eq fun _ _ _ _ h => (gives_symbol.mp h).2

theorem quiet_kindOf {id : SymbolId} : Quiet (kindOf id) :=
  quiet_of_eq fun _ _ _ _ h => (gives_kindOf.mp h).2

theorem quiet_nameOf {id : SymbolId} : Quiet (nameOf id) :=
  quiet_of_eq fun _ _ _ _ h => (gives_nameOf.mp h).2

theorem quiet_typeText {type : TypeId} : Quiet (typeText type) :=
  quiet_of_eq fun _ _ _ _ h => (gives_typeText.mp h).2

theorem quiet_same {a b : TypeId} : Quiet (same a b) :=
  quiet_of_eq fun _ _ _ _ h => (gives_same.mp h).2

theorem quiet_isVoid {type : TypeId} : Quiet (isVoid type) :=
  quiet_of_eq fun _ _ _ _ h => (gives_isVoid.mp h).2

theorem quiet_scopeAt {scope : ScopeId} : Quiet (scopeAt scope) :=
  quiet_of_eq fun _ _ _ _ h => (gives_scopeAt.mp h).2

theorem quiet_entriesOf {scope : ScopeId} {name : String} : Quiet (entriesOf scope name) :=
  quiet_of_eq fun _ _ _ _ h => (gives_entriesOf.mp h).2

theorem quiet_searching : Quiet searching := quiet_of_eq fun _ _ _ _ h => (gives_searching.mp h).2

theorem quiet_requireComparable {row : Row} : Quiet (requireComparable row) :=
  quiet_of_eq fun _ _ _ _ h => (gives_requireComparable.mp h).2

theorem quiet_report {d : Diagnostic} : Quiet (report d) :=
  quiet_update fun _ => rests_aside rfl rfl rfl rfl rfl rfl (.refl _)

theorem quiet_intern {ty : Ty} : Quiet (intern ty) := by
  intro settings s id s' h
  obtain ⟨-, rfl⟩ := gives_intern.mp h
  exact rests_aside rfl rfl rfl rfl rfl rfl (TypeTable.within_intern _ _)

/-- A step that changes the table of symbols at one that has to be there. -/
theorem quiet_modifyAt {id : SymbolId} {f : SymbolTable → SymbolTable}
    (h : ∀ s : CheckState, s.Rests { s with tables.symbols := f s.tables.symbols }) :
    Quiet (modifyAt id f) :=
  fun _ s _ _ hgives => (gives_modifyAt.mp hgives).2 ▸ h s

theorem quiet_markUsed {id : SymbolId} : Quiet (markUsed id) :=
  quiet_modifyAt fun _ => rests_retouch
    (fun _ => SymbolTable.outline?_modify_eq (fun _ => rfl) fun _ _ => rfl)
    (fun _ => SymbolTable.declared?_modify fun _ => rfl)
    fun _ => SymbolTable.identity?_modify fun _ _ => rfl

theorem Quiet.ite {c : Prop} [Decidable c] {q : Check α} (hp : Quiet p) (hq : Quiet q) :
    Quiet (if c then p else q) := by
  split
  · exact hp
  · exact hq

theorem Quiet.forM {items : List α} {f : α → Check Unit} (h : ∀ a ∈ items, Quiet (f a)) :
    Quiet (items.forM f) := by
  induction items with
  | nil => exact quiet_pure ()
  | cons a rest ih =>
      exact (h a List.mem_cons_self).bind fun _ => ih fun b hb => h b (List.mem_cons_of_mem _ hb)

/-- A meaning that is filled leaves the others of its kind as they are. -/
theorem quiet_fill {γ : Type} [DecidableEq γ] {get : Meanings → NodeMap γ}
    {set : Meanings → NodeMap γ → Meanings} {node : Nat} {value : γ}
    (hset : ∀ m m' id symbol, (get m).fill? node value = some m' →
      m.exprs.get? id = some symbol → (set m m').exprs.get? id = some symbol) :
    Quiet (fill get set node value) := by
  intro settings s u s' h
  simp only [fill, gives_bind, gives_state, gives_require, gives_update] at h
  obtain ⟨_, _, ⟨rfl, rfl⟩, m', _, ⟨hfill, rfl⟩, rfl⟩ := h
  exact ⟨confines_of_symbols rfl, restores_aside rfl rfl rfl rfl (.refl _), fun hs =>
    ⟨hs.congr rfl rfl rfl, .refl _, rfl, .refl _, rfl, rfl,
      fun id symbol hm => hset _ _ id symbol hfill hm, rfl⟩⟩

theorem quiet_setExprSymbol {node : Nat} {symbol : SymbolId} : Quiet (setExprSymbol node symbol) :=
  quiet_fill fun _ _ _ _ hfill hm => NodeMap.get?_mono_of_fill? hfill hm

theorem quiet_setTypeName {node : Nat} {symbol : SymbolId} : Quiet (setTypeName node symbol) :=
  quiet_fill fun _ _ _ _ _ hm => hm

theorem quiet_setType {node : Nat} {type : TypeId} : Quiet (setType node type) :=
  quiet_fill fun _ _ _ _ _ hm => hm

theorem quiet_setDeclSymbol {node : Nat} {symbol : SymbolId} : Quiet (setDeclSymbol node symbol) :=
  quiet_fill fun _ _ _ _ _ hm => hm

theorem quiet_setLocalSymbol {node : Nat} {symbol : SymbolId} : Quiet (setLocalSymbol node symbol) :=
  quiet_fill fun _ _ _ _ _ hm => hm

theorem quiet_setParamSymbol {node : Nat} {symbol : SymbolId} : Quiet (setParamSymbol node symbol) :=
  quiet_fill fun _ _ _ _ _ hm => hm

theorem quiet_useSymbol {node : Nat} {symbol : SymbolId} : Quiet (useSymbol node symbol) :=
  quiet_markUsed.bind fun _ => quiet_setExprSymbol

theorem meaning_useSymbol {node : Nat} {symbol : SymbolId}
    (h : (useSymbol node symbol).Gives settings s () s') :
    s'.meanings.exprs.get? node = some symbol := by
  simp only [useSymbol, setExprSymbol, fill, gives_bind, gives_state, gives_require, gives_update] at h
  obtain ⟨_, _, -, _, _, ⟨rfl, rfl⟩, filled, _, ⟨hfill, -⟩, rfl⟩ := h
  exact (NodeMap.get?_of_fill? hfill).1

theorem kind?_useSymbol {node : Nat} {symbol id : SymbolId} {kind : SymbolKind}
    (h : (useSymbol node symbol).Gives settings s () s')
    (hkind : s.tables.symbols.kind? id = some kind) : s'.tables.symbols.kind? id = some kind := by
  simp only [useSymbol, setExprSymbol, fill, gives_bind, gives_markUsed, gives_state, gives_require,
    gives_update] at h
  obtain ⟨_, _, ⟨-, rfl⟩, _, _, ⟨rfl, rfl⟩, filled, _, ⟨-, rfl⟩, rfl⟩ := h
  have halike := s.tables.symbols.alike_modify symbol (f := fun entry => { entry with used := true })
    (fun _ => rfl) fun _ => rfl
  exact (halike id).1.trans hkind

/-! ## Declarations -/

section

variable {source : SourceDecl → Prop}

theorem Keeping.bind (h : Keeping source p) (hf : ∀ a, Keeping source (f a)) :
    Keeping source (p >>= f) := by
  intro settings s b s' hgives hs
  obtain ⟨a, s₁, hp, hrest⟩ := gives_bind.mp hgives
  exact hf a _ _ _ _ hrest (h _ _ _ _ hp hs)

theorem Keeping.ite {c : Prop} [Decidable c] {q : Check α} (hp : Keeping source p)
    (hq : Keeping source q) : Keeping source (if c then p else q) := by
  split
  · exact hp
  · exact hq

theorem Keeping.forM {items : List α} {f : α → Check Unit} (h : ∀ a ∈ items, Keeping source (f a)) :
    Keeping source (items.forM f) := by
  induction items with
  | nil => exact (quiet_pure ()).keeping
  | cons a rest ih =>
      exact (h a List.mem_cons_self).bind fun _ => ih fun b hb => h b (List.mem_cons_of_mem _ hb)

theorem Keeping.withCursor (h : Keeping source p) {scope : ScopeId} :
    Keeping source (withCursor scope p) := by
  intro settings s a s' hgives hs
  obtain ⟨-, s₁, hp, rfl⟩ := gives_withCursor.mp hgives
  exact confines_of_symbols (s := s₁) rfl source (h _ _ _ _ hp (confines_of_symbols (s := s) rfl source hs))

/-- A step that leaves the table of symbols as it is. -/
theorem keeping_update {f : CheckState → CheckState}
    (h : ∀ s, (f s).tables.symbols = s.tables.symbols) : Keeping source (update f) :=
  fun _ s _ _ hgives => gives_update.mp hgives ▸ confines_of_symbols (h s) source

theorem keeping_modifyScopes {f : ScopeGraph → ScopeGraph} : Keeping source (modifyScopes f) :=
  keeping_update fun _ => rfl

theorem keeping_enterScope {kind : ScopeKind} {owner : Option SymbolId} :
    Keeping source (enterScope kind owner) :=
  keeping_modifyScopes.bind fun _ => quiet_cursor.keeping

theorem keeping_leaveScope : Keeping source leaveScope :=
  quiet_cursor.keeping.bind fun _ => quiet_scopeAt.keeping.bind fun _ => keeping_modifyScopes

theorem keeping_newSymbol {name : String} {span : Span} {kind : SymbolKind} {scope : ScopeId}
    (h : ∀ declared, kind.declared? name span = some declared → source declared) :
    Keeping source (newSymbol name span kind scope) := by
  intro settings s id s' hgives hs
  obtain ⟨-, rfl⟩ := gives_newSymbol.mp hgives
  exact hs.add h

end

end Check

end Stela
