import Stela.Proofs.Safety.Steps

/-!
# Safe changes

Each change of the state is safe if what it adds lies inside the state.
-/

namespace Stela

/-! ## Changes of the tables -/

/-- The details of a symbol change: its sort stays, and it gets no duty. What an alias was
resolved to stays too. -/
structure SymbolKind.Turns (kind kind' : SymbolKind) : Prop where
  isType : kind.isType = true → kind'.isType = true
  closure : ∀ info, kind = .closure info → ∃ info', kind' = .closure info'
  duty : ∀ duty, kind'.duty? = some duty → kind.duty? = some duty
  resolved : ∀ info target, kind = .aliasType info → info.target = .resolved target →
    ∃ info', kind' = .aliasType info' ∧ info'.target = .resolved target

theorem SymbolKind.Turns.refl (kind : SymbolKind) : kind.Turns kind :=
  ⟨fun h => h, fun info h => ⟨info, h⟩, fun _ h => h, fun info _ h htarget => ⟨info, h, htarget⟩⟩

/-- The symbols of the first table are in the second and have kept their sort. Aliases have kept
what they were resolved to. -/
structure SymbolTable.Retains (t t' : SymbolTable) : Prop where
  size : t.size ≤ t'.size
  isType : ∀ id, t.IsType id → t'.IsType id
  isClosure : ∀ id, t.IsClosure id → t'.IsClosure id
  resolved : ∀ id info target, t.kind? id = some (.aliasType info) → info.target = .resolved target →
    ∃ info', t'.kind? id = some (.aliasType info') ∧ info'.target = .resolved target

namespace SymbolTable

variable {t t' : SymbolTable} {id other : SymbolId} {entry : Symbol} {duty : Duty}
  {f : SymbolKind → SymbolKind}

theorem IsType.lt_size (h : t.IsType id) : id < t.size := by
  obtain ⟨kind, hkind, -⟩ := h
  exact lt_size_of_kind? hkind

theorem IsClosure.lt_size (h : t.IsClosure id) : id < t.size := by
  obtain ⟨info, hkind⟩ := h
  exact lt_size_of_kind? hkind

theorem Retains.refl (t : SymbolTable) : t.Retains t :=
  ⟨Nat.le_refl _, fun _ h => h, fun _ h => h, fun _ info _ h htarget => ⟨info, h, htarget⟩⟩

theorem retains_add : t.Retains (t.add entry).2 := by
  have hkind {id : SymbolId} {kind : SymbolKind} (h : t.kind? id = some kind) :
      (t.add entry).2.kind? id = some kind := by
    rw [kind?_add, if_neg (Nat.ne_of_lt (lt_size_of_kind? h))]
    exact h
  refine ⟨by simp, ?_, ?_, fun id info target h htarget => ⟨info, hkind h, htarget⟩⟩
  · rintro id ⟨kind, h, htype⟩
    exact ⟨kind, hkind h, htype⟩
  · rintro id ⟨info, h⟩
    exact ⟨info, hkind h⟩

theorem retains_modifyKind (hf : ∀ kind, t.kind? id = some kind → kind.Turns (f kind)) :
    t.Retains (t.modifyKind id f) := by
  refine ⟨by simp, ?_, ?_, fun other info target h htarget => ?_⟩
  · rintro other ⟨kind, h, htype⟩
    by_cases heq : id = other
    · subst heq
      exact ⟨f kind, kind?_modifyKind_of h, (hf kind h).isType htype⟩
    · exact ⟨kind, by rw [kind?_modifyKind_ne heq, h], htype⟩
  · rintro other ⟨info, h⟩
    by_cases heq : id = other
    · subst heq
      obtain ⟨info', hinfo'⟩ := (hf _ h).closure info rfl
      exact ⟨info', by rw [kind?_modifyKind_of h, hinfo']⟩
    · exact ⟨info, by rw [kind?_modifyKind_ne heq, h]⟩
  · by_cases heq : id = other
    · subst heq
      obtain ⟨info', hinfo', htarget'⟩ := (hf _ h).resolved info target rfl htarget
      exact ⟨info', by rw [kind?_modifyKind_of h, hinfo'], htarget'⟩
    · exact ⟨info, by rw [kind?_modifyKind_ne heq, h], htarget⟩

theorem isResolving_add (h : t.IsResolving id) : (t.add entry).2.IsResolving id := by
  obtain ⟨kind, hkind, hresolving⟩ := h
  refine ⟨kind, ?_, hresolving⟩
  rw [kind?_add, if_neg (Nat.ne_of_lt (lt_size_of_kind? hkind))]
  exact hkind

/-- An alias whose target is being looked for is so still if its details stay such. -/
theorem isResolving_modifyKind
    (hf : ∀ kind, t.kind? id = some kind → kind.IsResolving → (f kind).IsResolving)
    (h : t.IsResolving other) : (t.modifyKind id f).IsResolving other := by
  obtain ⟨kind, hkind, hresolving⟩ := h
  by_cases heq : id = other
  · subst heq
    exact ⟨f kind, kind?_modifyKind_of hkind, hf kind hkind hresolving⟩
  · exact ⟨kind, by rw [kind?_modifyKind_ne heq, hkind], hresolving⟩

theorem duty?_add : (t.add entry).2.duty? id =
    if id = t.size then entry.kind.duty? else t.duty? id := by
  rw [duty?, kind?_add]
  split <;> rfl

theorem duty?_of_modifyKind (hf : ∀ kind, t.kind? id = some kind → kind.Turns (f kind))
    (h : (t.modifyKind id f).duty? other = some duty) : t.duty? other = some duty := by
  by_cases heq : id = other
  · subst heq
    cases hkind : t.kind? id with
    | none => simp [duty?, kind?_modifyKind, hkind] at h
    | some kind =>
        rw [duty?_of_kind? (kind?_modifyKind_of hkind)] at h
        rw [duty?_of_kind? hkind]
        exact (hf kind hkind).duty duty h
  · rwa [duty?, kind?_modifyKind_ne heq] at h

theorem get?_add : (t.add entry).2.get? id = if id = t.size then some entry else t.get? id :=
  Array.getElem?_push

/-- The second table differs from the first one only in how symbols are marked. -/
def Marks (t t' : SymbolTable) : Prop :=
  ∀ id, (t'.get? id).map (fun entry => (entry.kind, entry.scope)) =
    (t.get? id).map fun entry => (entry.kind, entry.scope)

theorem marks_modify {g : Symbol → Symbol}
    (hg : ∀ entry, (g entry).kind = entry.kind ∧ (g entry).scope = entry.scope) :
    t.Marks (t.modify id g) := by
  intro other
  simp only [modify, get?, Array.getElem?_modify]
  split <;> simp [Function.comp_def, hg]

theorem Marks.trans {t'' : SymbolTable} (h : t.Marks t') (h' : t'.Marks t'') : t.Marks t'' :=
  fun id => (h' id).trans (h id)

theorem Marks.kind? (h : t.Marks t') (id : SymbolId) : t'.kind? id = t.kind? id := by
  have hmarks := congrArg (Option.map Prod.fst) (h id)
  rwa [Option.map_map, Option.map_map] at hmarks

theorem Marks.retains (h : t.Marks t') : t.Retains t' := by
  refine ⟨Nat.le_of_not_lt fun hlt => ?_, ?_, ?_, fun id info target hkind htarget => ?_⟩
  rotate_left
  · rintro id ⟨kind, hkind, htype⟩
    exact ⟨kind, by rwa [h.kind?], htype⟩
  · rintro id ⟨info, hinfo⟩
    exact ⟨info, by rwa [h.kind?]⟩
  · exact ⟨info, by rwa [h.kind?], htarget⟩
  have hnone : t'.get? t'.size = none := Array.getElem?_eq_none (Nat.le_refl _)
  have hmarks := h t'.size
  rw [hnone, show t.get? t'.size = some _ from Array.getElem?_eq_getElem hlt] at hmarks
  cases hmarks

theorem Marks.isResolving (h : t.Marks t') (hid : t.IsResolving id) : t'.IsResolving id := by
  obtain ⟨kind, hkind, hresolving⟩ := hid
  exact ⟨kind, by rwa [h.kind?], hresolving⟩

/-- An entry of a table of which details of one symbol were changed. -/
theorem get?_of_modifyKind (h : (t.modifyKind id f).get? other = some entry) :
    ∃ old, t.get? other = some old ∧ entry.scope = old.scope ∧
      (entry.kind = old.kind ∨ other = id ∧ entry.kind = f old.kind) := by
  simp only [modifyKind, modify, get?, Array.getElem?_modify] at h ⊢
  split at h
  · next heq =>
    obtain ⟨old, hold, rfl⟩ := Option.map_eq_some_iff.mp h
    exact ⟨old, hold, rfl, .inr ⟨heq.symm, rfl⟩⟩
  · exact ⟨entry, h, rfl, .inl rfl⟩

end SymbolTable

namespace CheckState

variable {s s' : CheckState} {own : List NodeKey} {n bound : Nat} {id : SymbolId}
  {f : SymbolKind → SymbolKind}

/-- What is told apart by the numbers of entries grows with the tables and the scopes. -/
theorem extent_le (htypes : s.tables.types.Within s'.tables.types)
    (hscopes : s.scopes.size ≤ s'.scopes.size)
    (hsymbols : s.tables.symbols.Retains s'.tables.symbols) : s.extent.Le s'.extent :=
  ⟨htypes.size_le, hsymbols.size, hscopes, hsymbols.isType, hsymbols.isClosure,
    fun type id => htypes type (.aliasType id), fun _ hgrounded => hgrounded.mono htypes hsymbols.resolved⟩

/-- A change that brings no duties and no meanings. -/
theorem Adds.follows (h : s.Adds s')
    (hduties : ∀ id duty, s'.duty? id = some duty → s.duty? id = some duty)
    (hmeanings : s'.meanings = s.meanings) : Follows [] s s' :=
  ⟨h.extent, fun id duty hduty => .inl (hduties id duty hduty), fun key hkey _ _ => by rwa [hmeanings],
    fun key hkey _ _ => by rwa [hmeanings], fun node id hnode => by rwa [hmeanings]⟩

/-- Such a change that leaves the aliases alone whose targets are being looked for. -/
theorem Adds.proceeds (h : s.Adds s') (hs : s.Ready n bound)
    (hduties : ∀ id duty, s'.duty? id = some duty → s.duty? id = some duty)
    (hmeanings : s'.meanings = s.meanings)
    (hresolving : ∀ id, s.tables.symbols.IsResolving id → s'.tables.symbols.IsResolving id) :
    Proceeds n [] s s' := by
  have hfollows := h.follows hduties hmeanings
  exact ⟨hfollows, hs.closed.adds h, hfollows.dutiful hs.dutiful hduties (by simp), hresolving⟩

/-- Such a change that leaves the bodies under analysis. -/
theorem Adds.finishes (h : s.Adds s') (hs : s.Ready n bound)
    (hduties : ∀ id duty, s'.duty? id = some duty → s.duty? id = some duty)
    (hmeanings : s'.meanings = s.meanings) (hbodies : s'.bodies = s.bodies)
    (hresolving : ∀ id, s.tables.symbols.IsResolving id → s'.tables.symbols.IsResolving id) :
    Finishes n [] s s' :=
  ⟨h.proceeds hs hduties hmeanings hresolving, hbodies, hduties⟩

/-- A change that leaves the symbols as they are. -/
theorem Adds.aside (h : s.Adds s') (hs : s.Ready n bound) (hsymbols : s'.tables.symbols = s.tables.symbols)
    (hmeanings : s'.meanings = s.meanings) (hbodies : s'.bodies = s.bodies) : Finishes n [] s s' := by
  refine h.finishes hs (fun id duty hduty => ?_) hmeanings hbodies fun id hid => by rwa [hsymbols]
  rwa [CheckState.duty?, hsymbols] at hduty

/-- A symbol is added that lies inside the state. -/
theorem adds_symbol {entry : Symbol} (hkind : entry.kind.Inside s.extent s.tables.symbols.size)
    (hscope : entry.scope < s.scopes.size) :
    s.Adds { s with tables.symbols := (s.tables.symbols.add entry).2 } := by
  have hextent : s.extent.Le (extent { s with tables.symbols := (s.tables.symbols.add entry).2 }) :=
    extent_le (.refl _) (Nat.le_refl _) SymbolTable.retains_add
  refine { extent := hextent, symbols := fun id old hid => ?_ }
  rw [SymbolTable.get?_add] at hid
  split at hid
  · next heq =>
    obtain rfl := Option.some.inj hid
    subst heq
    exact .inr ⟨hkind.mono hextent, hscope⟩
  · exact .inl ⟨old, hid, rfl, rfl⟩

/-- The details of a symbol are replaced by others that lie inside the state. -/
theorem adds_modifyKind (hs : s.Closed)
    (hf : ∀ kind, s.tables.symbols.kind? id = some kind →
      kind.Turns (f kind) ∧ (f kind).Inside s.extent id) :
    s.Adds { s with tables.symbols := s.tables.symbols.modifyKind id f } := by
  have hextent :
      s.extent.Le (extent { s with tables.symbols := s.tables.symbols.modifyKind id f }) :=
    extent_le (.refl _) (Nat.le_refl _) (SymbolTable.retains_modifyKind fun kind h => (hf kind h).1)
  refine { extent := hextent, symbols := fun other entry hentry => ?_ }
  obtain ⟨old, hold, hscope, hkind | ⟨rfl, hkind⟩⟩ := SymbolTable.get?_of_modifyKind hentry
  · exact .inl ⟨old, hold, hkind.symm, hscope.symm⟩
  · refine .inr ⟨?_, ?_⟩
    · rw [hkind]
      exact (hf old.kind (SymbolTable.kind?_of_get? hold)).2.mono hextent
    · rw [hscope]
      exact (hs.symbols _ old hold).2

theorem finishes_modifyKind (hs : s.Ready n bound)
    (hf : ∀ kind, s.tables.symbols.kind? id = some kind →
      kind.Turns (f kind) ∧ (f kind).Inside s.extent id)
    (hresolving : ∀ kind, s.tables.symbols.kind? id = some kind → kind.IsResolving → (f kind).IsResolving) :
    Finishes n [] s { s with tables.symbols := s.tables.symbols.modifyKind id f } :=
  (adds_modifyKind hs.closed hf).finishes hs
    (fun _ _ hduty => SymbolTable.duty?_of_modifyKind (fun kind h => (hf kind h).1) hduty) rfl rfl
    fun _ => SymbolTable.isResolving_modifyKind hresolving

/-- Symbols are marked. -/
theorem finishes_marks (hs : s.Ready n bound) {t : SymbolTable} (h : s.tables.symbols.Marks t) :
    Finishes n [] s { s with tables.symbols := t } := by
  have hextent : s.extent.Le (extent { s with tables.symbols := t }) :=
    extent_le (.refl _) (Nat.le_refl _) h.retains
  refine Adds.finishes { extent := hextent, symbols := fun other entry hentry => ?_ } hs
    (fun other duty hduty => ?_) rfl rfl fun _ => h.isResolving
  · have hmarks := h other
    rw [show t.get? other = some entry from hentry] at hmarks
    obtain ⟨old, hold, heq⟩ := Option.map_eq_some_iff.mp hmarks.symm
    exact .inl ⟨old, hold, congrArg Prod.fst heq, congrArg Prod.snd heq⟩
  · change t.duty? other = some duty at hduty
    rwa [SymbolTable.duty?, h.kind?] at hduty

/-- Types are added that lie inside the state. -/
theorem adds_types {t : TypeTable} (hwithin : s.tables.types.Within t)
    (htypes : ∀ id ty, t.get? id = some ty → s.tables.types.get? id = some ty ∨ ty.Inside s.extent)
    (hordered : s.tables.types.Ordered → t.Ordered) :
    s.Adds { s with tables.types := t } := by
  have hextent : s.extent.Le (extent { s with tables.types := t }) :=
    extent_le hwithin (Nat.le_refl _) (.refl _)
  exact { extent := hextent, types := fun id ty h => (htypes id ty h).imp_right fun hty => hty.mono hextent
          ordered := hordered }

/-- Scopes are added or changed, and lie inside the state. -/
theorem adds_scopes {g : ScopeGraph} (hsize : s.scopes.size ≤ g.size) (hcursor : g.cursor < g.size)
    (hscopes : ∀ id scope, g.get? id = some scope → s.scopes.get? id = some scope ∨
      scope.Inside (extent { s with scopes := g }) id) : s.Adds { s with scopes := g } :=
  { extent := extent_le (.refl _) hsize (.refl _)
    scopes := hscopes
    cursor := .inr hcursor }

/-- Names mean the same in both states. -/
structure Resembles (s s' : CheckState) : Prop where
  scopes : s'.scopes = s.scopes
  modules : s'.modules = s.modules
  kinds : ∀ id, s'.tables.symbols.kind? id = s.tables.symbols.kind? id

theorem Resembles.refl (s : CheckState) : s.Resembles s := ⟨rfl, rfl, fun _ => rfl⟩

theorem Resembles.trans {s'' : CheckState} (h : s.Resembles s') (h' : s'.Resembles s'') : s.Resembles s'' :=
  ⟨h'.scopes.trans h.scopes, h'.modules.trans h.modules, fun id => (h'.kinds id).trans (h.kinds id)⟩

end CheckState

namespace Check

open CheckState

variable {α β : Type} {n bound : Nat} {own : List NodeKey} {s s' : CheckState} {id : SymbolId}
  {Q : Unit → CheckState → Prop}

/-! ## Tables -/

theorem Safe.update {f : CheckState → CheckState} (h : s.Ready n bound → Finishes n own s (f s))
    (hQ : Q () (f s)) : Safe n bound own (update f) s Q :=
  fun hs _ => ⟨(h hs).toProceeds, (h hs).balanced, hQ⟩

theorem safe_report {d : Diagnostic} : Safe n bound [] (report d) s fun _ s' => s'.scopes = s.scopes :=
  .update (fun hs => Adds.aside { extent := .refl _ } hs rfl rfl rfl) rfl

/-- Entering a type leaves the symbols. -/
theorem safe_enterType (ty : Ty) (hty : ty.Inside s.extent) :
    Safe n bound [] (intern ty) s fun type s' =>
      s'.tables.types.get? type = some ty ∧ s'.tables.symbols = s.tables.symbols := by
  intro hs _
  have hadds : s.Adds { s with tables.types := (s.tables.types.intern ty).2 } := by
    refine adds_types (TypeTable.within_intern _ ty) (fun id ty' h => ?_) fun h => h.intern hty.part_lt
    rcases TypeTable.get?_intern_inv h with hold | ⟨-, rfl⟩
    · exact .inl hold
    · exact .inr hty
  have hfinishes := hadds.aside hs rfl rfl rfl
  exact ⟨hfinishes.toProceeds, hfinishes.balanced, TypeTable.get?_intern _ _, rfl⟩

theorem safe_intern (ty : Ty) (hty : ty.Inside s.extent) :
    Safe n bound [] (intern ty) s fun type s' => type < s'.tables.types.size :=
  Safe.imp (safe_enterType ty hty) fun _ _ _ h => TypeTable.lt_size_of_get? h.1

/-- A new symbol has the next number. -/
theorem safe_newSymbol {name : String} {span : Span} {kind : SymbolKind} {scope : ScopeId}
    (hkind : kind.Inside s.extent s.tables.symbols.size) (hscope : scope < s.scopes.size)
    (hduty : kind.duty? = none) :
    Safe n bound [] (newSymbol name span kind scope) s fun id s' =>
      id = s.tables.symbols.size ∧ s'.tables.symbols.kind? id = some kind := by
  intro hs _
  let entry : Symbol := { name, span, kind, scope }
  have hadds : s.Adds { s with tables.symbols := (s.tables.symbols.add entry).2 } :=
    adds_symbol hkind hscope
  have hfinishes := hadds.finishes hs
    (fun id duty h => by
      change (s.tables.symbols.add _).2.duty? id = some duty at h
      rw [SymbolTable.duty?_add] at h
      split at h
      · rw [hduty] at h
        cases h
      · exact h) rfl rfl fun _ => SymbolTable.isResolving_add
  exact ⟨hfinishes.toProceeds, hfinishes.balanced, rfl,
    SymbolTable.kind?_add.trans (if_pos rfl)⟩

/-- The table is changed at a symbol that is there. -/
theorem safe_modifyAt {f : SymbolTable → SymbolTable} (hid : id < s.tables.symbols.size)
    (h : s.Ready n bound → Finishes n own s { s with tables.symbols := f s.tables.symbols }) :
    Safe n bound own (modifyAt id f) s fun _ s' => s' = { s with tables.symbols := f s.tables.symbols } :=
  Fares.symbol hid fun _ _ => Safe.update h rfl

theorem safe_modifyKind {f : SymbolKind → SymbolKind} (hid : id < s.tables.symbols.size)
    (hf : s.Ready n bound → ∀ kind, s.tables.symbols.kind? id = some kind →
      kind.Turns (f kind) ∧ (f kind).Inside s.extent id)
    (hresolving : ∀ kind, s.tables.symbols.kind? id = some kind → kind.IsResolving → (f kind).IsResolving) :
    Safe n bound [] (modifyKind id f) s fun _ s' =>
      s' = { s with tables.symbols := s.tables.symbols.modifyKind id f } :=
  safe_modifyAt hid fun hs => finishes_modifyKind hs (hf hs) hresolving

theorem safe_modifyClosure {f : ClosureInfo → ClosureInfo} (hid : id < s.tables.symbols.size)
    (hf : ∀ info, s.tables.symbols.closure? id = some info → info.Inside s.extent →
      (f info).Inside s.extent ∧ (f info).parent = info.parent) :
    Safe n bound [] (modifyClosure id f) s fun _ _ => True := by
  refine Safe.imp (safe_modifyKind hid (fun hs kind hkind => ?_) fun kind _ hresolving => ?_)
    fun _ _ _ _ => trivial
  · have hinside := hs.closed.kind_inside hkind
    cases kind with
    | closure info =>
        obtain ⟨hnew, hparent⟩ := hf info (SymbolTable.closure?_eq_some.mpr hkind) hinside.1
        refine ⟨⟨fun h => h, fun _ _ => ⟨_, rfl⟩, fun _ h => h, by simp⟩, hnew, fun parent h => ?_⟩
        exact hinside.2 parent (hparent ▸ h)
    | _ => exact ⟨.refl _, hinside⟩
  · obtain ⟨info, rfl, htarget⟩ := hresolving
    exact ⟨info, rfl, htarget⟩

/-- Details of a function change, but a body that was begun stays begun. -/
theorem safe_modifyFunc {f : FuncInfo → FuncInfo} (hid : id < s.tables.symbols.size)
    (hf : ∀ info, s.tables.symbols.func? id = some info → info.Inside s.extent →
      (f info).Inside s.extent ∧ (f info).decl = info.decl ∧
        ((f info).state = .unchecked → info.state = .unchecked)) :
    Safe n bound [] (modifyFunc id f) s fun _ s' =>
      s' = { s with tables.symbols := s.tables.symbols.modifyFunc id f } := by
  refine safe_modifyKind hid (fun hs kind hkind => ?_) fun kind _ hresolving => ?_
  · have hinside := hs.closed.kind_inside hkind
    cases kind with
    | func info =>
        obtain ⟨hnew, hdecl, hstate⟩ := hf info (SymbolTable.func?_eq_some.mpr hkind) hinside
        refine ⟨⟨fun h => h, by simp, fun duty h => ?_, by simp⟩, hnew⟩
        simp only [SymbolKind.duty?] at h ⊢
        split at h
        · next hunchecked => rw [if_pos (hstate hunchecked), ← hdecl, h]
        · cases h
    | _ => exact ⟨.refl _, hinside⟩
  · obtain ⟨info, rfl, htarget⟩ := hresolving
    exact ⟨info, rfl, htarget⟩

theorem safe_markUsed (hid : id < s.tables.symbols.size) : Safe n bound [] (markUsed id) s fun _ s' =>
    s'.meanings = s.meanings ∧ s.Resembles s' := by
  have hmarks : s.tables.symbols.Marks (s.tables.symbols.modify id fun entry => { entry with used := true }) :=
    SymbolTable.marks_modify fun _ => ⟨rfl, rfl⟩
  refine Safe.imp (safe_modifyAt hid fun hs => finishes_marks hs hmarks) ?_
  rintro _ _ - rfl
  exact ⟨rfl, rfl, rfl, hmarks.kind?⟩

/-! ## Scopes -/

theorem adds_setCursor {scope : ScopeId} (hscope : scope < s.scopes.size) :
    s.Adds { s with scopes := s.scopes.setCursor scope } :=
  adds_scopes (Nat.le_refl _) hscope fun _ _ h => .inl h

theorem safe_setCursor {scope : ScopeId} (hscope : scope < s.scopes.size) :
    Safe n bound [] (modifyScopes fun g => g.setCursor scope) s fun _ s' =>
      s' = { s with scopes := s.scopes.setCursor scope } :=
  .update (fun hs => (adds_setCursor hscope).aside hs rfl rfl rfl) rfl

section

variable {α : Type} {scope : ScopeId} {p : Check α} {R : α → CheckState → Prop}

/-- A step may be taken elsewhere. -/
theorem Fares.withCursor (hscope : scope < s.scopes.size)
    (h : ∀ s₁, Finishes n [] s s₁ → Fares n bound own p s₁ fun a s' =>
      R a { s' with scopes := s'.scopes.setCursor s.scopes.cursor }) :
    Fares n bound own (withCursor scope p) s R := by
  refine .of_ready fun hs => .scopeAt hscope fun _ _ => .cursor ?_
  have hthere := (adds_setCursor hscope).aside hs rfl rfl rfl
  refine Fares.bind (safe_setCursor hscope).fares (List.nil_subset own) ?_
  rintro _ _ - rfl
  refine Fares.bind (h _ hthere) (List.Subset.refl own) fun a s₂ hthen hR => ?_
  have hback := hthen.scope_lt (hthere.scope_lt hs.closed.cursor)
  refine Fares.bind (safe_setCursor hback).fares (List.nil_subset own) ?_
  rintro _ _ - rfl
  exact .pure fun _ => hR

theorem Safe.withCursor (hscope : scope < s.scopes.size)
    (h : ∀ s₁, Finishes n [] s s₁ → Safe n bound own p s₁ fun a s' =>
      R a { s' with scopes := s'.scopes.setCursor s.scopes.cursor }) :
    Safe n bound own (withCursor scope p) s R := by
  refine Fares.withCursor hscope fun s₁ hthere => Fares.imp (h s₁ hthere) fun a s' _ hR => ?_
  have hbalanced := hthere.balanced.trans hR.1
  exact ⟨⟨hbalanced.bodies, hbalanced.duties⟩, hR.2⟩

end

theorem safe_enterScope {kind : ScopeKind} {owner : Option SymbolId}
    (howner : ∀ id, owner = some id → id < s.tables.symbols.size) :
    Safe n bound [] (enterScope kind owner) s fun scope s' => scope < s'.scopes.size := by
  refine .step (P := fun _ s' => s' = { s with scopes := s.scopes.enter kind owner })
    (.update (fun hs => Adds.aside ?_ hs rfl rfl rfl) rfl) ?_
  · refine adds_scopes (by simp) (by simp)
      fun id scope h => ?_
    rw [ScopeGraph.get?_enter] at h
    split at h
    · obtain rfl := Option.some.inj h
      next hnew =>
        refine .inr ⟨fun parent hparent => ?_, howner, by simp⟩
        obtain rfl := Option.some.inj hparent
        exact hnew ▸ hs.closed.cursor
    · exact .inl h
  · rintro _ _ - rfl
    exact Fares.last (Fares.cursor (Safe.pure fun _ => by simp))

theorem safe_leaveScope : Safe n bound [] leaveScope s fun _ s' => s'.scopes = s.scopes.leave := by
  refine .of_ready fun hs => .cursor (Fares.scopeAt hs.closed.cursor fun _ _ =>
    Safe.update (fun hs => Adds.aside ?_ hs rfl rfl rfl) rfl)
  refine adds_scopes (Nat.le_refl _) ?_ fun _ _ h => .inl h
  simp only [ScopeGraph.leave]
  cases hparent : s.scopes.parent? s.scopes.cursor with
  | none => exact hs.closed.cursor
  | some parent =>
      obtain ⟨entry, hentry, hp⟩ := Option.bind_eq_some_iff.mp hparent
      exact Nat.lt_trans ((hs.closed.scopes _ entry hentry).1 parent hp) hs.closed.cursor

theorem safe_setOwner {scope : ScopeId} (hscope : scope < s.scopes.size)
    (hid : id < s.tables.symbols.size) :
    Safe n bound [] (setOwner scope id) s fun _ _ => True := by
  refine Fares.scopeAt hscope fun _ _ =>
    Safe.update (fun hs => Adds.aside ?_ hs rfl rfl rfl) trivial
  have hextent : s.extent.Le (extent { s with scopes := s.scopes.setOwner scope id }) :=
    extent_le (.refl _) (by simp [ScopeGraph.setOwner, ScopeGraph.size]) (.refl _)
  refine adds_scopes hextent.scopes (Nat.lt_of_lt_of_le hs.closed.cursor hextent.scopes)
    fun other entry h => ?_
  simp only [ScopeGraph.setOwner, ScopeGraph.get?, Array.getElem?_modify] at h
  split at h
  · obtain ⟨old, hold, rfl⟩ := Option.map_eq_some_iff.mp h
    have hinside := (hs.closed.scopes other old hold).mono hextent
    refine .inr ⟨hinside.1, fun owner howner => ?_, hinside.2.2⟩
    exact Option.some.inj howner ▸ hid
  · exact .inl h

/-- A row is bound in the current scope. -/
theorem adds_insert (hs : s.Closed) {row : Row} {conflicts : SymbolId → Bool} {hidden : Option SymbolId}
    {g : ScopeGraph} (h : s.scopes.insert row conflicts = .ok (hidden, g))
    (hrow : row.symbol < s.tables.symbols.size) : s.Adds { s with scopes := g } := by
  obtain ⟨hgrows, -, hcursor⟩ := ScopeGraph.grows_insert h
  have hextent : s.extent.Le (extent { s with scopes := g }) :=
    extent_le (.refl _) hgrows.size (.refl _)
  refine adds_scopes hgrows.size (hcursor ▸ Nat.lt_of_lt_of_le hs.cursor hgrows.size) fun id entry hid => ?_
  unfold ScopeGraph.insert at h
  split at h
  · cases h
  · obtain ⟨-, rfl⟩ := Prod.mk.inj (Except.ok.inj h)
    simp only [ScopeGraph.get?, Array.getElem?_modify] at hid
    split at hid
    · obtain ⟨old, hold, rfl⟩ := Option.map_eq_some_iff.mp hid
      have hinside := (hs.scopes id old hold).mono hextent
      refine .inr ⟨hinside.1, hinside.2.1, fun other hmem => ?_⟩
      rcases List.mem_append.mp hmem with hmem | hmem
      · exact hinside.2.2 other hmem
      · exact List.mem_singleton.mp hmem ▸ hrow
    · exact .inl hid

/-! ## Bodies under analysis -/

/-- The innermost body under analysis changes. -/
theorem fares_modifyFrame {f : Frame → Frame}
    (hinside : s.Ready n bound → ∀ frame, frame.Inside s.extent → (f frame).Inside s.extent) :
    Fares n bound [] (modifyFrame f) s fun _ s' =>
      s'.frames = s.frames.modifyHead f ∧ ∀ id duty, s'.duty? id = some duty → s.duty? id = some duty := by
  intro hs _
  cases hframes : s.frames with
  | nil =>
      simp only [modifyFrame, update, hframes, CheckResult.Meets]
      exact ⟨.refl hs, rfl, fun _ _ h => h⟩
  | cons frame rest =>
      simp only [modifyFrame, update, hframes, CheckResult.Meets]
      refine ⟨Adds.proceeds { extent := .refl _, frames := fun other hmem => ?_ } hs
        (fun _ _ h => h) rfl fun _ h => h,
        rfl, fun _ _ h => h⟩
      rcases List.mem_cons.mp hmem with rfl | hmem
      · exact .inr (hinside hs frame (hs.closed.frames frame (hframes ▸ List.mem_cons_self)))
      · exact .inl (hframes ▸ List.mem_cons_of_mem _ hmem)

theorem safe_modifyFrame {f : Frame → Frame}
    (hf : ∀ frame, (f frame).place = frame.place ∧ (f frame).loopDepth = frame.loopDepth)
    (hinside : s.Ready n bound → ∀ frame, frame.Inside s.extent → (f frame).Inside s.extent) :
    Safe n bound [] (modifyFrame f) s fun _ _ => True := by
  refine Fares.imp (fares_modifyFrame hinside) ?_
  rintro _ s' - ⟨hframes, hduties⟩
  refine ⟨⟨?_, hduties⟩, trivial⟩
  rw [bodies, bodies, hframes]
  cases s.frames with
  | nil => rfl
  | cons frame rest => simp [hf]

/-! ## Meanings -/

/-- Meanings are given to nodes that are left to no symbol. -/
theorem finishes_meanings (hs : s.Ready n bound) {m : Meanings} (hinside : m.Inside s.extent)
    (hvacant : ∀ key, s.meanings.Vacant key → key ∉ own → m.Vacant key)
    (hunnamed : ∀ key, s.meanings.Unnamed key → key ∉ own → m.Unnamed key)
    (hdecls : ∀ node id, s.meanings.decls.get? node = some id → m.decls.get? node = some id)
    (hown : ∀ key ∈ own, ¬ s.Promised key) : Finishes n own s { s with meanings := m } := by
  have hfollows : Follows own s { s with meanings := m } :=
    ⟨.refl _, fun _ _ h => .inl h, fun key hkey hmem _ => hvacant key hkey hmem,
      fun key hkey hmem _ => hunnamed key hkey hmem, hdecls⟩
  exact ⟨⟨hfollows, hs.closed.adds { extent := .refl _, meanings := .inr hinside },
    hfollows.dutiful hs.dutiful (fun _ _ h => h) hown, fun _ h => h⟩, rfl, fun _ _ h => h⟩

section

variable {γ : Type} [DecidableEq γ] {get : Meanings → NodeMap γ}
  {set : Meanings → NodeMap γ → Meanings} {node : Nat} {value : γ}

/-- Filling an entry that is vacant, or has the value already, is no fault. -/
theorem safe_fill (hvalue : ∀ old, (get s.meanings).get? node = some old → old = value)
    (hfinishes : ∀ map, (get s.meanings).fill? node value = some map → s.Ready n bound →
      Finishes n own s { s with meanings := set s.meanings map }) :
    Safe n bound own (fill get set node value) s fun _ s' =>
      ∃ map, (get s.meanings).fill? node value = some map ∧
        s' = { s with meanings := set s.meanings map } := by
  obtain ⟨map, hmap⟩ : ∃ map, (get s.meanings).fill? node value = some map := by
    unfold NodeMap.fill?
    split
    · exact ⟨_, rfl⟩
    · next old hold => exact ⟨_, if_pos (hvalue old hold)⟩
  exact .state (.require hmap (Safe.update (hfinishes map hmap) ⟨map, hmap, rfl⟩))

end

/-- Where what is filled in has a property, and so has all that was there. -/
theorem forall_of_fill? {γ : Type} [DecidableEq γ] {m map : NodeMap γ} {P : γ → Prop} {node : Nat}
    {value : γ} (hmap : m.fill? node value = some map) (hvalue : P value)
    (h : ∀ node old, m.get? node = some old → P old) (other : Nat) (found : γ)
    (hfound : map.get? other = some found) : P found := by
  obtain ⟨hnode, hothers⟩ := NodeMap.get?_of_fill? hmap
  by_cases heq : other = node
  · subst heq
    exact Option.some.inj (hnode.symm.trans hfound) ▸ hvalue
  · exact h other found (hothers other heq ▸ hfound)

section

variable {γ : Type} [DecidableEq γ] {get : Meanings → NodeMap γ}
  {set : Meanings → NodeMap γ → Meanings} {node : Nat} {value : γ} {key : NodeKey}

/-- A free node is given a meaning. -/
theorem safe_give (hfree : s.Free n [key])
    (hget : s.meanings.Vacant key → (get s.meanings).get? node = none)
    (hinside : ∀ map, (get s.meanings).fill? node value = some map → s.Closed →
      (set s.meanings map).Inside s.extent)
    (hothers : ∀ map other, (get s.meanings).fill? node value = some map → other ≠ key →
      s.meanings.Vacant other → (set s.meanings map).Vacant other)
    (hnames : ∀ map, (set s.meanings map).typeNames = s.meanings.typeNames)
    (hdecls : ∀ map, (get s.meanings).fill? node value = some map → ∀ node id,
      s.meanings.decls.get? node = some id → (set s.meanings map).decls.get? node = some id) :
    Safe n bound [key] (fill get set node value) s fun _ s' =>
      ∃ map, (get s.meanings).fill? node value = some map ∧
        s' = { s with meanings := set s.meanings map } := by
  have hnone := hget (hfree.vacant key List.mem_cons_self)
  refine safe_fill (by simp [hnone]) fun map hmap hs => ?_
  exact finishes_meanings hs (hinside map hmap hs.closed)
    (fun other hkey hmem => hothers map other hmap (by simpa using hmem) hkey)
    (fun other hkey _ => hkey.of_typeNames (hnames map)) (hdecls map hmap) hfree.unpromised

end

variable {node : Nat} {symbol : SymbolId} {type : TypeId}

theorem vacant_exprs {m : Meanings} {map : NodeMap SymbolId}
    (hmap : m.exprs.fill? node symbol = some map) {key : NodeKey} (hne : key ≠ .node .expr node)
    (h : m.Vacant key) : Meanings.Vacant { m with exprs := map } key := by
  obtain ⟨_ | _ | _ | _, id⟩ | type := key
  · exact ((NodeMap.get?_of_fill? hmap).2 id fun heq => hne (heq ▸ rfl)).trans h
  all_goals exact h

/-- An expression means what it meant already, if it meant anything. -/
theorem safe_setExprSymbol (hsymbol : symbol < s.tables.symbols.size)
    (hvalue : ∀ old, s.meanings.exprs.get? node = some old → old = symbol)
    (hfree : ¬ s.Promised (.node .expr node)) :
    Safe n bound [.node .expr node] (setExprSymbol node symbol) s fun _ s' =>
      ∃ map, s.meanings.exprs.fill? node symbol = some map ∧
        s' = { s with meanings.exprs := map } := by
  refine safe_fill hvalue fun map hmap hs => ?_
  have hinside := hs.closed.meanings
  exact finishes_meanings hs { hinside with exprs := forall_of_fill? hmap hsymbol hinside.exprs }
    (fun key hkey hmem => vacant_exprs hmap (by simpa using hmem) hkey)
    (fun _ hkey _ => hkey.of_typeNames rfl) (fun _ _ h => h) (by simpa using hfree)

theorem safe_setLocalSymbol (hsymbol : symbol < s.tables.symbols.size)
    (hfree : s.Free n [.node .stmt node]) :
    Safe n bound [.node .stmt node] (setLocalSymbol node symbol) s fun _ _ => True := by
  refine Safe.imp (safe_give hfree (fun h => h) (fun map hmap hs =>
      { hs.meanings with locals := forall_of_fill? hmap hsymbol hs.meanings.locals })
    (fun map key hmap hne h => ?_) (fun _ => rfl) fun _ _ _ _ h => h) fun _ _ _ _ => trivial
  obtain ⟨_ | _ | _ | _, id⟩ | type := key
  case node.stmt => exact ((NodeMap.get?_of_fill? hmap).2 id fun heq => hne (heq ▸ rfl)).trans h
  all_goals exact h

theorem safe_setParamSymbol (hsymbol : symbol < s.tables.symbols.size)
    (hfree : s.Free n [.param node]) :
    Safe n bound [.param node] (setParamSymbol node symbol) s fun _ _ => True := by
  refine Safe.imp (safe_give hfree (fun h => h) (fun map hmap hs =>
      { hs.meanings with params := forall_of_fill? hmap hsymbol hs.meanings.params })
    (fun map key hmap hne h => ?_) (fun _ => rfl) fun _ _ _ _ h => h) fun _ _ _ _ => trivial
  obtain ⟨_ | _ | _ | _, id⟩ | type := key
  case param => exact ((NodeMap.get?_of_fill? hmap).2 type fun heq => hne (heq ▸ rfl)).trans h
  all_goals exact h

/-- A type may be noted after the name that it has was looked up. -/
theorem safe_setType (htype : type < s.tables.types.size) (hnone : s.meanings.types.get? node = none)
    (hunpromised : ¬ s.Promised (.node .type node)) :
    Safe n bound [.node .type node] (setType node type) s fun _ _ => True := by
  refine Safe.imp (safe_fill (by simp [hnone]) fun map hmap hs => ?_) fun _ _ _ _ => trivial
  have hinside := hs.closed.meanings
  refine finishes_meanings hs { hinside with types := forall_of_fill? hmap htype hinside.types }
    (fun key hkey hmem => ?_) (fun _ hkey _ => hkey.of_typeNames rfl) (fun _ _ h => h)
    (by simpa using hunpromised)
  obtain ⟨_ | _ | _ | _, id⟩ | type := key
  case node.type =>
    exact ((NodeMap.get?_of_fill? hmap).2 id fun heq => hmem (by simp [heq])).trans hkey
  all_goals exact hkey

theorem vacant_decls {m : Meanings} {map : NodeMap SymbolId}
    (hmap : m.decls.fill? node symbol = some map) {key : NodeKey} (hne : key ≠ .node .decl node)
    (h : m.Vacant key) : Meanings.Vacant { m with decls := map } key := by
  obtain ⟨_ | _ | _ | _, id⟩ | type := key
  case node.decl => exact ((NodeMap.get?_of_fill? hmap).2 id fun heq => hne (heq ▸ rfl)).trans h
  all_goals exact h

theorem safe_setDeclSymbol (hsymbol : symbol < s.tables.symbols.size)
    (hfree : s.Free n [.node .decl node]) :
    Safe n bound [.node .decl node] (setDeclSymbol node symbol) s fun _ s' =>
      s'.meanings.decls.get? node = some symbol := by
  refine Safe.imp (safe_give hfree (fun h => h) (fun map hmap hs =>
      { hs.meanings with decls := forall_of_fill? hmap hsymbol hs.meanings.decls })
    (fun map key hmap hne h => vacant_decls hmap hne h) (fun _ => rfl)
    fun map hmap _ _ h => NodeMap.get?_mono_of_fill? hmap h) ?_
  rintro _ _ - ⟨map, hmap, rfl⟩
  exact (NodeMap.get?_of_fill? hmap).1

/-- The name of a type is looked up before its type is known. -/
theorem safe_setTypeName (hsymbol : s.tables.symbols.IsType symbol)
    (hnone : s.meanings.typeNames.get? node = none) (hunpromised : ¬ s.Promised (.node .type node)) :
    Safe n bound [.node .type node] (setTypeName node symbol) s fun _ s' =>
      s'.meanings.types = s.meanings.types := by
  refine Safe.imp (safe_fill (by simp [hnone]) fun map hmap hs => ?_) ?_
  · have hinside := hs.closed.meanings
    refine finishes_meanings hs
      { hinside with typeNames := forall_of_fill? hmap hsymbol hinside.typeNames }
      (fun key hkey _ => ?_) (fun key hkey hmem => ?_) (fun _ _ h => h) (by simpa using hunpromised)
    · obtain ⟨_ | _ | _ | _, id⟩ | type := key <;> exact hkey
    · obtain ⟨_ | _ | _ | _, id⟩ | type := key
      case node.type =>
        exact ((NodeMap.get?_of_fill? hmap).2 id fun heq => hmem (by simp [heq])).trans hkey
      all_goals trivial
  · rintro _ _ - ⟨map, -, rfl⟩
    rfl

/-- An expression that is free is given a meaning. -/
theorem safe_useSymbol (hsymbol : symbol < s.tables.symbols.size)
    (hfree : s.Free n [.node .expr node]) :
    Safe n bound [.node .expr node] (useSymbol node symbol) s fun _ _ => True := by
  refine .step (safe_markUsed hsymbol) fun _ s₁ h _ => ?_
  have hfree' := hfree.still h.toFollows
  have hnone : s₁.meanings.exprs.get? node = none := hfree'.vacant _ List.mem_cons_self
  exact Safe.imp (safe_setExprSymbol (h.symbol_lt hsymbol) (by simp [hnone])
    (hfree'.unpromised _ List.mem_cons_self)) fun _ _ _ _ => trivial

end Check

end Stela
