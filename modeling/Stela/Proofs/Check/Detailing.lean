import Stela.Proofs.Check.Blaming
import Stela.Proofs.Check.Referring
import Stela.Proofs.Safety.Names
import Stela.Proofs.Types.Acyclic

/-!
# Types get their details

Between the declaration and the completion of a type nothing happens but that
details become known and that fields are declared. What a name of a type means
is read off the scopes as they were when the types were declared.
-/

namespace Stela

namespace SymbolTable

variable {t t' : SymbolTable} {id : SymbolId}

/-- The second table has the symbols of the first one, some of them with more details. -/
structure Refines (t t' : SymbolTable) : Prop where
  old : ∀ id entry, t'.get? id = some entry → ∃ old, t.get? id = some old ∧ entry.name = old.name ∧
    entry.scope = old.scope ∧ old.kind.Refined entry.kind
  kept : ∀ id kind, t.kind? id = some kind → ∃ kind', t'.kind? id = some kind' ∧ kind.Refined kind'

theorem Refines.refl (t : SymbolTable) : t.Refines t :=
  ⟨fun _ entry h => ⟨entry, h, rfl, rfl, .refl _⟩, fun _ kind h => ⟨kind, h, .refl kind⟩⟩

theorem refines_modify {f : Symbol → Symbol} (hname : ∀ entry, (f entry).name = entry.name)
    (hscope : ∀ entry, (f entry).scope = entry.scope)
    (hkind : ∀ entry, t.get? id = some entry → entry.kind.Refined (f entry).kind) :
    t.Refines (t.modify id f) := by
  have hget (other : SymbolId) : (t.modify id f).get? other =
      if id = other then (t.get? other).map f else t.get? other := Array.getElem?_modify
  refine ⟨fun other entry h => ?_, fun other kind h => ?_⟩
  · rw [hget] at h
    split at h
    · next heq =>
      subst heq
      obtain ⟨old, hold, rfl⟩ := Option.map_eq_some_iff.mp h
      exact ⟨old, hold, hname old, hscope old, hkind old hold⟩
    · exact ⟨entry, h, rfl, rfl, .refl _⟩
  · obtain ⟨old, hold, rfl⟩ := Option.map_eq_some_iff.mp h
    rw [kind?, hget, hold]
    split
    · next heq =>
      subst heq
      exact ⟨_, rfl, hkind old hold⟩
    · exact ⟨_, rfl, .refl _⟩

theorem refines_modifyKind {f : SymbolKind → SymbolKind}
    (hf : ∀ kind, t.kind? id = some kind → kind.Refined (f kind)) : t.Refines (t.modifyKind id f) :=
  refines_modify (fun _ => rfl) (fun _ => rfl) fun _ hentry => hf _ (kind?_of_get? hentry)

end SymbolTable

namespace ScopeGraph

variable {g g' : ScopeGraph} {row : Row} {conflicts : SymbolId → Bool} {hidden : Option SymbolId}

/-- Binding a name leaves the tree of scopes alone. -/
theorem tree_insert (h : g.insert row conflicts = .ok (hidden, g')) :
    g'.size = g.size ∧ g'.kind? = g.kind? ∧ g'.parent? = g.parent? := by
  unfold insert at h
  split at h
  · cases h
  · obtain ⟨-, rfl⟩ := Prod.mk.inj (Except.ok.inj h)
    have hget (scope : ScopeId) : ScopeGraph.get? { g with scopes := g.scopes.modify g.cursor fun s =>
        { s with rows := s.rows ++ [row] } } scope = if g.cursor = scope then
          (g.get? scope).map fun s => { s with rows := s.rows ++ [row] } else g.get? scope :=
      Array.getElem?_modify
    refine ⟨Array.size_modify, funext fun scope => ?_, funext fun scope => ?_⟩
    · rw [kind?, kind?, hget]
      split <;> simp [Function.comp_def]
    · rw [parent?, parent?, hget]
      split
      · cases g.get? scope <;> rfl
      · rfl

end ScopeGraph

namespace CheckState

variable {s s' t : CheckState} {id : SymbolId}

/-! ## Changes -/

/-- Symbols get details, and scopes are left alone. -/
theorem refines_of_symbols (hmodules : s'.modules = s.modules)
    (hscopes : s'.scopes.scopes = s.scopes.scopes)
    (h : s.tables.symbols.Refines s'.tables.symbols) : s.Refines s' := by
  have hget : s'.scopes.get? = s.scopes.get? := by
    funext scope
    rw [ScopeGraph.get?, ScopeGraph.get?, hscopes]
  refine ⟨hmodules, congrArg Array.size hscopes, fun scope => ?_, fun scope => ?_, fun scope => ?_,
    fun id entry hentry => .inr (h.old id entry hentry), h.kept⟩
  · rw [ScopeGraph.kind?, ScopeGraph.kind?, hget]
  · rw [ScopeGraph.parent?, ScopeGraph.parent?, hget]
  · exact ⟨[], by rw [ScopeGraph.rows, ScopeGraph.rows, hget, List.append_nil], by simp⟩

/-- The cursor and what is recorded about nodes play no part in what names mean. -/
theorem refines_aside (hmodules : s'.modules = s.modules) (hscopes : s'.scopes.scopes = s.scopes.scopes)
    (hsymbols : s'.tables.symbols = s.tables.symbols) : s.Refines s' :=
  refines_of_symbols hmodules hscopes (hsymbols ▸ .refl _)

theorem refines_setCursor (s : CheckState) (scope : ScopeId) :
    s.Refines { s with scopes := s.scopes.setCursor scope } := refines_aside rfl rfl rfl

/-- A field is added. -/
theorem refines_addField {entry : Symbol} {info : FieldInfo} (hentry : entry.kind = .field info) :
    s.Refines { s with tables.symbols := (s.tables.symbols.add entry).2 } := by
  have hget (other : SymbolId) : (s.tables.symbols.add entry).2.get? other =
      if other = s.tables.symbols.size then some entry else s.tables.symbols.get? other :=
    Array.getElem?_push
  refine ⟨rfl, rfl, fun _ => rfl, fun _ => rfl, fun _ => ⟨[], by simp, by simp⟩, fun other found h => ?_,
    fun other kind h => ⟨kind, ?_, .refl kind⟩⟩
  · rw [hget] at h
    split at h
    · next heq =>
      obtain rfl := Option.some.inj h
      exact .inl ⟨info, by rw [SymbolTable.kind?, hget, if_pos heq, Option.map_some, hentry]⟩
    · exact .inr ⟨found, h, rfl, rfl, .refl _⟩
  · have hne := Nat.ne_of_lt (SymbolTable.lt_size_of_kind? h)
    exact (SymbolTable.kind?_add.trans (if_neg hne)).trans h

/-- The name of a field is bound. -/
theorem refines_insertField {row : Row} {conflicts : SymbolId → Bool} {hidden : Option SymbolId}
    {g : ScopeGraph} (hinsert : s.scopes.insert row conflicts = .ok (hidden, g))
    (hrow : s.tables.symbols.IsField row.symbol) : s.Refines { s with scopes := g } := by
  obtain ⟨hsize, hkinds, hparents⟩ := ScopeGraph.tree_insert hinsert
  refine ⟨rfl, hsize, congrFun hkinds, congrFun hparents, fun scope => ?_,
    fun id entry h => .inr ⟨entry, h, rfl, rfl, .refl _⟩, fun id kind h => ⟨kind, h, .refl kind⟩⟩
  rcases ScopeGraph.rows_insert hinsert scope with hrows | ⟨hrows, -⟩
  · exact ⟨[], by rw [hrows, List.append_nil], by simp⟩
  · exact ⟨[row], hrows, List.forall_mem_singleton.mpr hrow⟩

/-! ## Steps -/

/-- Details become known, no cursor is moved for good, and no alias is left behind whose target is
being found. -/
structure Details (s s' : CheckState) : Prop where
  refines : s.Refines s'
  cursor : s'.scopes.cursor = s.scopes.cursor
  resolving : ∀ id, s'.Resolving id → s.Resolving id

theorem Details.refl (s : CheckState) : s.Details s := ⟨.refl s, rfl, fun _ h => h⟩

theorem Details.trans {s'' : CheckState} (h : s.Details s') (h' : s'.Details s'') : s.Details s'' :=
  ⟨h.refines.trans h'.refines, h'.cursor.trans h.cursor, fun id hid => h.resolving id (h'.resolving id hid)⟩

/-- Aliases are left as they are. -/
theorem details_of_sameAliases (hsame : s.tables.symbols.SameAliases s'.tables.symbols)
    (hrefines : s.Refines s') (hcursor : s'.scopes.cursor = s.scopes.cursor) : s.Details s' := by
  refine ⟨hrefines, hcursor, fun id ⟨info, hkind, htarget⟩ => ?_⟩
  exact ⟨info, (hsame id info).mp hkind, htarget⟩

/-- Aliases that are resolved stand for founded types and lead to nothing without an end. -/
def Mapped (t s : CheckState) : Prop :=
  ∀ id info target, s.tables.symbols.kind? id = some (.aliasType info) → info.target = .resolved target →
    t.Ends id ∧ s.tables.Founded target

theorem Mapped.sameAliases (h : t.Mapped s) (hsame : s.tables.symbols.SameAliases s'.tables.symbols)
    (hwidens : s.tables.Widens s'.tables) : t.Mapped s' := by
  intro id info target hkind htarget
  obtain ⟨hends, hfounded⟩ := h id info target ((hsame id info).mp hkind) htarget
  exact ⟨hends, hfounded.widens hwidens⟩

end CheckState

namespace Check

open CheckState

variable {settings : Settings} {s s' : CheckState} {id : SymbolId} {node : Node}
  {qualifier : Option Ident} {name : Ident}

/-- A lookup finds what a name means at the cursor. -/
theorem means?_of_lookup {first : SymbolId} {rest : List SymbolId}
    (h : (lookup name).Gives settings s (first :: rest) s') :
    s.means? s.scopes.cursor name.name = some first ∧ s = s' := by
  simp only [lookup, gives_bind, gives_searching] at h
  obtain ⟨_, _, ⟨⟨-, rfl⟩, rfl⟩, h⟩ := h
  split at h
  · simp at h
  · next entries hfind =>
    obtain ⟨rfl, rfl⟩ := gives_pure.mp h
    exact ⟨means?_eq_some.mpr ⟨rest, hfind⟩, rfl⟩
  · simp at h

theorem refines_markUsed (h : (markUsed id).Gives settings s () s') :
    s.Refines s' ∧ s'.scopes = s.scopes := by
  obtain ⟨-, rfl⟩ := gives_modifyAt.mp h
  exact ⟨refines_of_symbols rfl rfl
    (SymbolTable.refines_modify (fun _ => rfl) (fun _ => rfl) fun _ _ => .refl _), rfl⟩

/-- Recording what a node means. -/
theorem refines_fill {α : Type} [DecidableEq α] {get : Meanings → NodeMap α}
    {set : Meanings → NodeMap α → Meanings} {node : Nat} {value : α}
    (h : (fill get set node value).Gives settings s () s') :
    s.Refines s' ∧ s'.scopes = s.scopes ∧ s'.tables = s.tables := by
  obtain ⟨filled, -, rfl⟩ := gives_fill.mp h
  exact ⟨refines_aside rfl rfl rfl, rfl, rfl⟩

/-- The name of a type gives the type that it means at the cursor. -/
theorem resolveTypeName_gives (hvacant : s.meanings.typeNames.get? node.id = none)
    (h : (resolveTypeName node qualifier name).Gives settings s id s') :
    s.meansType? s.scopes.cursor qualifier name = some id ∧ s'.tables.symbols.IsType id ∧ s.Refines s' ∧
      s'.scopes = s.scopes := by
  have finish {s : CheckState} {symbol : SymbolId} (h : Gives (do
        if !(← kindOf symbol).isType then raise (.notAType name.name) name.span
        markUsed symbol
        setTypeName node.id symbol
        return symbol) settings s id s') :
      symbol = id ∧ s'.tables.symbols.IsType id ∧ s.Refines s' ∧ s'.scopes = s.scopes := by
    simp only [gives_bind, gives_kindOf] at h
    obtain ⟨kind, _, ⟨hkind, rfl⟩, h⟩ := h
    rw [gives_ite] at h
    split at h
    · simp at h
    · next htype =>
      simp only [gives_bind, gives_pure] at h
      obtain ⟨_, _, hmark, _, _, hset, rfl, rfl⟩ := h
      obtain ⟨hmark, hscopes⟩ := refines_markUsed hmark
      obtain ⟨hset, hscopes', htables⟩ := refines_fill hset
      obtain ⟨kind', hkind', hrefined⟩ := (hmark.trans hset).kept _ kind hkind
      refine ⟨rfl, ⟨kind', hkind', ?_⟩, hmark.trans hset, hscopes'.trans hscopes⟩
      cases hrefined with
      | refl => simpa using htype
      | _ => rfl
  simp only [resolveTypeName, gives_bind, gives_state] at h
  obtain ⟨_, _, ⟨rfl, rfl⟩, h⟩ := h
  rw [hvacant] at h
  split at h
  · next heq => cases heq
  · split at h
    · rw [gives_bind] at h
      obtain ⟨entries, _, hlookup, h⟩ := h
      split at h
      · simp at h
      · obtain ⟨hmeans, rfl⟩ := means?_of_lookup hlookup
        obtain ⟨rfl, hfinish⟩ := finish h
        exact ⟨hmeans, hfinish⟩
    · rw [gives_bind] at h
      obtain ⟨entries, _, hlookup, h⟩ := h
      split at h
      · simp at h
      · obtain ⟨hmeans, rfl⟩ := means?_of_lookup hlookup
        simp only [gives_bind, gives_kindOf] at h
        obtain ⟨kind, _, ⟨hkind, rfl⟩, h⟩ := h
        split at h
        · next scope =>
          rw [gives_bind] at h
          obtain ⟨_, s₁, hmark, h⟩ := h
          simp only [gives_bind, gives_entriesOf] at h
          obtain ⟨_, _, ⟨⟨-, rfl⟩, rfl⟩, h⟩ := h
          obtain ⟨hmark, hscopes⟩ := refines_markUsed hmark
          split at h
          · simp at h
          · next first rest hentries =>
            obtain ⟨rfl, htype, hrefines, hscopes'⟩ := finish h
            refine ⟨?_, htype, hmark.trans hrefines, hscopes'.trans hscopes⟩
            rw [hscopes] at hentries
            simp [meansType?, hmeans, hkind, hentries]
        · simp at h

/-- Binding the name of a field. -/
theorem refines_declareRow {span : Span} {row : Row} (hrow : s.tables.symbols.IsField row.symbol)
    (h : (declareRow span row).Gives settings s () s') :
    s.Refines s' ∧ s'.scopes.cursor = s.scopes.cursor := by
  simp only [declareRow, gives_bind, gives_requireComparable, gives_state] at h
  obtain ⟨_, _, ⟨-, rfl⟩, _, _, ⟨rfl, rfl⟩, h⟩ := h
  split at h
  · next hidden g hinsert =>
    simp only [gives_bind, gives_update] at h
    obtain ⟨_, _, rfl, h⟩ := h
    have hbound := refines_insertField hinsert hrow
    have hcursor := (ScopeGraph.grows_insert hinsert).2.2
    split at h
    · simp only [warnShadow, gives_bind, gives_symbol, gives_kindOf, gives_settings, report] at h
      obtain ⟨_, _, ⟨-, rfl⟩, _, _, ⟨-, rfl⟩, _, _, ⟨-, rfl⟩, h⟩ := h
      rw [gives_ite] at h
      split at h
      · obtain ⟨-, rfl⟩ := gives_pure.mp h
        exact ⟨hbound, hcursor⟩
      · obtain rfl := gives_update.mp h
        exact ⟨hbound.trans (refines_aside rfl rfl rfl), hcursor⟩
    · obtain ⟨-, rfl⟩ := gives_pure.mp h
      exact ⟨hbound, hcursor⟩
  · exact absurd h not_gives_clash

end Check

end Stela
