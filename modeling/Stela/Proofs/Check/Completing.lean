import Stela.Proofs.Check.Charting

/-!
# Completing the types of a module

The types of a module are completed one after the other. Between them no target
is being found, and fields are no types. So if all are completed, following
aliases through names, arrays and function types ends from every one of them.
-/

namespace Stela

namespace Check

open CheckState

variable {settings : Settings} {n bound : Nat} {t s s' : CheckState} {owner : SymbolId} {scope : ScopeId}

/-- A field is declared, and other steps follow. -/
theorem Tells.declareField {β : Type} {name : Ident} {info : FieldInfo} {access : Access}
    {f : SymbolId → Check β} {R : β → CheckState → Prop} (hs : t.Charted n bound s)
    (hscope : scope < s.scopes.size) (hinside : (SymbolKind.field info).Inside s.extent s.tables.symbols.size)
    (hsettled : s.tables.types.Settled info.type)
    (hf : ∀ symbol s', t.Charts n [] s s' → Tells settings t.Loops (f symbol) s' R) :
    Tells settings t.Loops (do
      let symbol ← newSymbol name.name name.span (.field info) scope
      Check.withCursor scope (declareRow name.span ⟨name.name, symbol, access, false⟩)
      f symbol) s R := by
  refine .step (ordinary_newSymbol (by simp)) fun symbol s₁ hnew hsame => ?_
  obtain ⟨hfinishes, -, hkind⟩ := (safe_newSymbol hinside hscope rfl).ends hs.ready hnew
  have hcalm := (calm_newSymbol hs.sound hnew hsettled (by simp) (by simp)).1
  obtain ⟨rfl, rfl⟩ := gives_newSymbol.mp hnew
  have hnew := hs.still hfinishes hcalm hsame (refines_addField rfl) rfl
  refine .step ordinary_declareRow.withCursor fun _ s₂ hdeclare hsame' => hf _ _ (hnew.trans ?_)
  have hs₁ := hnew.charted hs
  have hsymbol := SymbolTable.lt_size_of_kind? hkind
  have hfinishes' := ((Safe.withCursor (R := fun _ _ => True) (hfinishes.scope_lt hscope) fun _ h =>
    safe_declareRow (h.symbol_lt hsymbol)).ends hs₁.ready hdeclare).1
  have hfunc := SymbolTable.func?_eq_none_of_kind? hkind (by simp)
  have hcalm' := calm_withCursor hs₁.sound
    (fun _ _ hs heq => calm_declareRow hs rfl (heq ▸ hfunc)) hdeclare
  obtain ⟨-, s₃, hrow, rfl⟩ := gives_withCursor.mp hdeclare
  obtain ⟨hrefines, -⟩ := refines_declareRow ⟨info, hkind⟩ hrow
  exact hs₁.still hfinishes' hcalm' hsame'
    (((refines_setCursor _ _).trans hrefines).trans (refines_setCursor _ _)) rfl

theorem charts_declareFields : ∀ (members : List Member) (index : Nat) (s : CheckState),
    t.Charted n bound s → (∀ r, ¬ s.Resolving r) → owner < s.tables.symbols.size → scope < s.scopes.size →
    s.Free n (members.flatMap Member.fieldKeys) →
    Tells settings t.Loops (declareFields owner scope index members) s fun _ s' =>
      t.Charts n (members.flatMap Member.fieldKeys) s s' := by
  intro members
  induction members with
  | nil => exact fun _ s hs _ _ _ _ => .pure hs.refl
  | cons member rest ih =>
      intro index s hs hidle howner hscope hfree
      cases member with
      | func decl => exact ih index s hs hidle howner hscope hfree
      | field field =>
          rw [List.flatMap_cons] at hfree ⊢
          refine (charts_lowerType hs hidle hfree.left).bind fun type s₁ hgives h => ?_
          have hs₁ := h.charted hs
          obtain ⟨-, htype⟩ := (safe_lowerType hfree.left).ends hs.ready hgives
          have hsettled : s₁.tables.types.Settled (FieldInfo.mk owner type field.access index).type :=
            (written_lowerType hs.sound hgives).2.1
          refine .declareField hs₁ (h.finishes.scope_lt hscope) ⟨h.finishes.symbol_lt howner, htype⟩ hsettled
            fun symbol s₂ h' => ?_
          have hfirst := h.trans (h'.widen (List.nil_subset _))
          refine (ih (index + 1) s₂ (h'.charted hs₁)
            (fun r hr => hidle r (hfirst.details.resolving r hr)) (hfirst.finishes.symbol_lt howner)
            (hfirst.finishes.scope_lt hscope) (hfree.right hfirst.finishes.toFollows)).bind
              fun symbols s₃ _ hrest => .pure ?_
          exact (hfirst.widen (List.subset_append_left _ _)).trans
            (hrest.widen (List.subset_append_right _ _))

theorem charts_lowerHostFields {host : String} : ∀ (fields : List HostField) (seen : List String)
    (s : CheckState), t.Charted n bound s → (∀ r, ¬ s.Resolving r) →
    s.Free n (fields.flatMap fun field => field.type.keys) →
    Tells settings t.Loops (lowerHostFields host seen fields) s fun _ s' =>
      t.Charts n (fields.flatMap fun field => field.type.keys) s s' := by
  intro fields
  induction fields with
  | nil => exact fun _ s hs _ _ => .pure hs.refl
  | cons field rest ih =>
      intro seen s hs hidle hfree
      rw [List.flatMap_cons] at hfree ⊢
      unfold lowerHostFields
      dsimp only
      split
      · exact .step (ordinary_raise (by simp)) fun _ _ hgives _ => absurd hgives gives_raise
      · refine (charts_lowerType hs hidle hfree.left).bind fun type s₁ _ h => ?_
        refine (ih _ s₁ (h.charted hs) (fun r hr => hidle r (h.details.resolving r hr))
          (hfree.right h.finishes.toFollows)).bind fun slots s₂ _ hrest => .pure ?_
        exact (h.widen (List.subset_append_left _ _)).trans (hrest.widen (List.subset_append_right _ _))

/-- The details of a type that is no alias are set. -/
theorem tells_modifyKind {id : SymbolId} {f : SymbolKind → SymbolKind} (hmapped : t.Mapped s)
    (hf : ∀ kind : SymbolKind, kind.Refined (f kind)) (halias : ∀ info, f (.aliasType info) = .aliasType info)
    (hother : ∀ kind info, f kind = .aliasType info → kind = .aliasType info) :
    Tells settings t.Loops (modifyKind id f) s fun _ s' =>
      s.Details s' ∧ t.Mapped s' := by
  have hsame (symbols : SymbolTable) : symbols.SameAliases (symbols.modifyKind id f) :=
    SymbolTable.sameAliases_modifyKind fun kind info => ⟨hother kind info, fun heq => heq ▸ halias info⟩
  refine (Tells.ordinary (ordinary_modifyAt hsame)).imp fun _ s' hgives hsame => ?_
  obtain ⟨-, rfl⟩ := gives_modifyAt.mp hgives
  exact ⟨details_of_sameAliases hsame
      (refines_of_symbols rfl rfl (SymbolTable.refines_modifyKind fun kind _ => hf kind)) rfl,
    hmapped.sameAliases hsame (Tables.Widens.modifyKind s.tables id halias)⟩

theorem tells_memberScope {blamed : String → Prop} (hs : s.Closed) :
    Tells settings blamed (memberScope owner) s fun scope s' => s = s' ∧ scope < s.scopes.size := by
  refine .reading ordinary_kindOf (fun _ _ hgives => (gives_kindOf.mp hgives).2) fun kind hgives => ?_
  have hinside := hs.kind_inside (gives_kindOf.mp hgives).1
  split
  · exact .pure ⟨rfl, hinside.1⟩
  · refine (Tells.ordinary ordinary_cursor).imp fun scope s' hgives _ => ?_
    obtain ⟨rfl, rfl⟩ := gives_cursor.mp hgives
    exact ⟨rfl, hs.cursor⟩

/-- A type that was declared is completed. -/
theorem tells_completeType (decl : Decl) (hs : t.Charted n bound s) (hidle : ∀ r, ¬ s.Resolving r)
    (hdecl : s.Introduced decl) (hfree : s.Free n decl.partKeys) :
    Tells settings t.Loops (completeType decl) s fun _ s' => s.Details s' ∧ t.Mapped s' := by
  have found {β : Type} {node : Node} {f : SymbolId → Check β} {R : β → CheckState → Prop}
      (hmakes : decl.makesType = true) (hnode : decl.node = node)
      (h : ∀ id, s.tables.symbols.IsType id → Tells settings t.Loops (f id) s R) :
      Tells settings t.Loops (declSymbol node >>= f) s R := by
    obtain ⟨id, hid, htype⟩ := hdecl hmakes
    refine (Tells.state (Tells.ordinary ordinary_require)).bind fun id' s₁ hgives _ => ?_
    obtain ⟨hid', rfl⟩ := declSymbol_gives hgives
    rw [hnode] at hid
    obtain rfl := Option.some.inj (hid.symm.trans hid')
    exact h id htype
  cases decl with
  | aliasType node name target strong =>
      refine found rfl rfl fun id htype => ?_
      have hensure : Charters settings t n bound (s.tables.symbols.size + 1) ensureAlias :=
        charters_ensureAlias
      exact (hensure.charts s id hs (Nat.lt_succ_of_le card_waiting_le) htype.lt_size
        fun r hr => absurd hr (hidle r)).imp fun _ _ _ h => ⟨h.1.details, h.1.mapped⟩
  | structType node name members =>
      refine found rfl rfl fun owner htype => (tells_memberScope hs.ready.closed).bind fun scope _ _ h => ?_
      obtain ⟨rfl, hscope⟩ := h
      refine (charts_declareFields members 0 s hs hidle htype.lt_size hscope hfree).bind
        fun fields s₁ _ h => ?_
      refine (tells_modifyKind h.mapped (fun kind => ?_) (fun _ => rfl) fun kind info heq => ?_).imp
        fun _ s₂ _ h' => ⟨h.details.trans h'.1, h'.2⟩
      · cases kind with
        | structType info => exact .structType
        | _ => exact .refl _
      · cases kind <;> simp_all
  | hostType node name size align fields =>
      refine found rfl rfl fun id htype => ?_
      refine (charts_lowerHostFields fields [] s hs hidle hfree).bind fun slots s₁ _ h => ?_
      refine (tells_modifyKind h.mapped (fun kind => ?_) (fun _ => rfl) fun kind info heq => ?_).imp
        fun _ s₂ _ h' => ⟨h.details.trans h'.1, h'.2⟩
      · cases kind with
        | hostType info => exact .hostType
        | _ => exact .refl _
      · cases kind <;> simp_all
  | _ => exact .pure ⟨.refl s, hs.mapped⟩

/-- The types of declarations are completed one after the other. -/
theorem tells_completeTypes {first : SymbolId} : ∀ (decls : List Decl) (s : CheckState),
    t.Charted n bound s → (∀ r, ¬ s.Resolving r) → (∀ decl ∈ decls, s.Introduced decl) →
    (∀ decl ∈ decls, decl.makesType = true →
      ∃ symbol, first ≤ symbol ∧ s.meanings.decls.get? decl.node.id = some symbol) →
    s.Free n (decls.flatMap Decl.partKeys) →
    Tells settings t.Loops (decls.forM completeType) s fun _ s' => s.Details s' ∧ t.Mapped s' := by
  intro decls
  induction decls with
  | nil => exact fun s hs _ _ _ _ => .pure ⟨.refl s, hs.mapped⟩
  | cons decl rest ih =>
      intro s hs hidle hdecls hsymbols hfree
      rw [List.flatMap_cons] at hfree
      obtain ⟨hdecl, hrest⟩ := List.forall_mem_cons.mp hdecls
      refine (tells_completeType decl hs hidle hdecl hfree.left).bind fun _ s₁ hgives h => ?_
      have hproceeds : Proceeds n decl.partKeys s s₁ := by
        have hmeets := fares_completeType decl hdecl hfree.left hs.ready settings
        have hgives : completeType decl settings s = .ok () s₁ := hgives
        rw [hgives] at hmeets
        exact hmeets.1
      have hcompletes := completes_completeType hs.sound (hsymbols decl List.mem_cons_self) hgives
      refine (ih s₁ ⟨hproceeds.ready hs.ready, hcompletes.sound, hs.refines.trans h.1.refines, h.2⟩
        (fun r hr => hidle r (h.1.resolving r hr)) (fun d hd => (hrest d hd).mono hproceeds.toFollows)
        (fun d hd hmakes => ?_) (hfree.right hproceeds.toFollows)).imp
          fun _ _ _ h' => ⟨h.1.trans h'.1, h'.2⟩
      obtain ⟨symbol, hle, hsymbol⟩ := hsymbols d (List.mem_cons_of_mem _ hd) hmakes
      exact ⟨symbol, hle, hcompletes.meanings.decls _ _ hsymbol⟩

end Check

end Stela
