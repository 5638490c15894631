import Stela.Proofs.Check.Gives
import Stela.Proofs.Check.Invariant
import Stela.Proofs.Check.Slots
import Stela.Proofs.Syntax.NodeMap

/-!
# Names and captures keep the state sound

Finding, declaring and capturing names changes scopes and symbols. None of it
types an expression or touches a body, so each such step is calm.
-/

namespace Stela.Check

open CheckState

variable {settings : Settings} {s s' : CheckState} {id : SymbolId} {node : Nat}

/-! ## Single steps -/

theorem calm_intern (hs : s.Sound) {ty : Ty} {type : TypeId}
    (h : (intern ty).Gives settings s type s') (hfits : s.tables.types.Fits ty)
    (hsymbol : ty.symbol? = none) : s.Calm s' ∧ s'.tables.types.get? type = some ty := by
  obtain ⟨rfl, rfl⟩ := gives_intern.mp h
  exact ⟨hs.calm_tables (hs.tables.intern hfits (by simp [hsymbol])) (.intern s.tables ty),
    TypeTable.get?_intern s.tables.types ty⟩

/-- Entering an array type. -/
theorem written_internArray (hs : s.Sound) {element type : TypeId}
    (helement : s.tables.types.Settled element)
    (h : (intern (.array element)).Gives settings s type s') :
    s.Calm s' ∧ s'.tables.Written type := by
  obtain ⟨hcalm, htype⟩ := calm_intern hs h helement rfl
  refine ⟨hcalm, ⟨⟨_, htype, by simp⟩, fun params ret hfunc => ?_⟩, .plain htype (by simp)⟩
  simp [htype] at hfunc

/-- Entering a function type. -/
theorem written_internFunc (hs : s.Sound) {params : List (RefKind × TypeId)} {ret type : TypeId}
    (hparams : ∀ p ∈ params, s.tables.types.Settled p.2) (hret : s.tables.types.Settled ret)
    (h : (intern (.func params ret)).Gives settings s type s') :
    s.Calm s' ∧ s'.tables.Written type := by
  obtain ⟨hcalm, htype⟩ := calm_intern hs h ⟨hparams, .inl hret⟩ rfl
  refine ⟨hcalm, ⟨⟨_, htype, by simp⟩, fun params' ret' hfunc => ?_⟩, .plain htype (by simp)⟩
  obtain ⟨-, rfl⟩ : params = params' ∧ ret = ret' := by simpa [htype] using hfunc
  exact hret.1.mono hcalm.tables.types

theorem calm_newSymbol (hs : s.Sound) {name : String} {span : Span} {kind : SymbolKind}
    {scope : ScopeId} (h : (newSymbol name span kind scope).Gives settings s id s')
    (hkind : s.tables.KindSound s.tables.symbols.size kind) (hfunc : ∀ info, kind ≠ .func info)
    (halias : ∀ info, kind ≠ .aliasType info) : s.Calm s' ∧ s'.tables.symbols.kind? id = some kind := by
  obtain ⟨rfl, rfl⟩ := gives_newSymbol.mp h
  refine ⟨hs.calm_tables (hs.tables.add hkind) ⟨.add _ halias, .add _ hfunc⟩, ?_⟩
  rw [SymbolTable.kind?_add, if_pos rfl]

theorem calm_markUsed (hs : s.Sound) (h : (markUsed id).Gives settings s () s') : s.Calm s' := by
  obtain ⟨-, rfl⟩ := gives_markUsed.mp h
  exact hs.quiet rfl (SymbolTable.alike_modify _ _ (fun _ => rfl) fun _ => rfl) rfl rfl rfl rfl rfl
    rfl (.refl _) (fun _ h => .inl h) fun _ => rfl

/-- Of the scopes only the bindings matter. -/
theorem calm_scopes (hs : s.Sound) {scopes : ScopeGraph}
    (hstatics : ∀ id, scopes.Static id → s.scopes.Static id)
    (hrows : ∀ scope, scopes.rows scope = s.scopes.rows scope) : s.Calm { s with scopes := scopes } :=
  hs.quiet rfl (.refl _) rfl rfl rfl rfl rfl rfl (.refl _) (fun id h => .inl (hstatics id h)) hrows

theorem calm_setCursor (hs : s.Sound) (scope : ScopeId) :
    s.Calm { s with scopes := s.scopes.setCursor scope } :=
  calm_scopes hs (fun _ h => h) fun _ => rfl

theorem calm_leave (hs : s.Sound) : s.Calm { s with scopes := s.scopes.leave } :=
  calm_scopes hs (fun _ h => h) fun _ => rfl

theorem calm_setOwner (hs : s.Sound) {scope : ScopeId} {owner : SymbolId}
    (h : (setOwner scope owner).Gives settings s () s') : s.Calm s' := by
  obtain ⟨-, rfl⟩ := gives_setOwner.mp h
  exact calm_scopes hs (fun _ => ScopeGraph.static_setOwner) fun _ => ScopeGraph.rows_setOwner

theorem calm_enterScope (hs : s.Sound) {kind : ScopeKind} {owner : Option SymbolId}
    {scope : ScopeId} (h : (enterScope kind owner).Gives settings s scope s') : s.Calm s' := by
  obtain ⟨-, rfl⟩ := gives_enterScope.mp h
  exact calm_scopes hs (fun _ => ScopeGraph.static_enter) fun _ => ScopeGraph.rows_enter

theorem calm_leaveScope (hs : s.Sound) (h : leaveScope.Gives settings s () s') : s.Calm s' :=
  (gives_leaveScope.mp h).2 ▸ calm_leave hs

/-- A step that is calm with the cursor in one place is calm with it in another. -/
theorem calm_withCursor {α : Type} {p : Check α} {a : α} {scope : ScopeId} (hs : s.Sound)
    (hp : ∀ s₀ s₁, s₀.Sound → s₀.tables = s.tables → p.Gives settings s₀ a s₁ → s₀.Calm s₁)
    (h : (withCursor scope p).Gives settings s a s') : s.Calm s' := by
  obtain ⟨-, s₁, hrun, rfl⟩ := gives_withCursor.mp h
  have hstart := calm_setCursor hs scope
  have hrun := hp _ _ hstart.sound rfl hrun
  exact (hstart.trans hrun).trans (calm_setCursor hrun.sound _)

/-! ## Meanings -/

theorem gives_fill {α : Type} [DecidableEq α] {get : Meanings → NodeMap α}
    {set : Meanings → NodeMap α → Meanings} {value : α} :
    (fill get set node value).Gives settings s () s' ↔
      ∃ filled, (get s.meanings).fill? node value = some filled ∧
        { s with meanings := set s.meanings filled } = s' := by
  simp only [fill, gives_bind, gives_state, gives_require, gives_update]
  grind

/-- Filling a map that holds no types of the program. -/
theorem calm_fill {α : Type} [DecidableEq α] {get : Meanings → NodeMap α}
    {set : Meanings → NodeMap α → Meanings} {value : α} (hs : s.Sound)
    (h : (fill get set node value).Gives settings s () s')
    (htypes : ∀ m map, (set m map).types = m.types)
    (hmeanings : ∀ filled, (get s.meanings).fill? node value = some filled →
      s.meanings.Within (set s.meanings filled)) : s.Calm s' := by
  obtain ⟨filled, hfill, rfl⟩ := gives_fill.mp h
  exact hs.quiet rfl (.refl _) rfl rfl rfl rfl rfl (htypes _ _) (hmeanings filled hfill)
    (fun _ h => .inl h) fun _ => rfl

theorem calm_setExprSymbol (hs : s.Sound) (h : (setExprSymbol node id).Gives settings s () s') :
    s.Calm s' :=
  calm_fill hs h (fun _ _ => rfl) fun _ hfill =>
    ⟨fun _ _ hold => NodeMap.get?_mono_of_fill? hfill hold, fun _ _ hold => hold, fun _ _ hold => hold⟩

theorem calm_setTypeName (hs : s.Sound) (h : (setTypeName node id).Gives settings s () s') :
    s.Calm s' :=
  calm_fill hs h (fun _ _ => rfl) fun _ _ =>
    ⟨fun _ _ hold => hold, fun _ _ hold => hold, fun _ _ hold => hold⟩

theorem calm_setDeclSymbol (hs : s.Sound) (h : (setDeclSymbol node id).Gives settings s () s') :
    s.Calm s' :=
  calm_fill hs h (fun _ _ => rfl) fun _ hfill =>
    ⟨fun _ _ hold => hold, fun _ _ hold => NodeMap.get?_mono_of_fill? hfill hold, fun _ _ hold => hold⟩

theorem calm_setLocalSymbol (hs : s.Sound) (h : (setLocalSymbol node id).Gives settings s () s') :
    s.Calm s' :=
  calm_fill hs h (fun _ _ => rfl) fun _ hfill =>
    ⟨fun _ _ hold => hold, fun _ _ hold => hold, fun _ _ hold => NodeMap.get?_mono_of_fill? hfill hold⟩

theorem calm_setParamSymbol (hs : s.Sound) (h : (setParamSymbol node id).Gives settings s () s') :
    s.Calm s' :=
  calm_fill hs h (fun _ _ => rfl) fun _ _ =>
    ⟨fun _ _ hold => hold, fun _ _ hold => hold, fun _ _ hold => hold⟩

/-- The type noted for a node is settled, and its aliases are resolved. -/
theorem calm_setType (hs : s.Sound) {type : TypeId} (hsettled : s.tables.types.Settled type)
    (hgrounded : s.tables.Grounded type) (h : (setType node type).Gives settings s () s') :
    s.Calm s' := by
  obtain ⟨filled, hfill, rfl⟩ := gives_fill.mp h
  refine hs.calm hs.tables (.refl _) rfl rfl (fun _ h => h) (fun _ h => .inl h) (fun _ h => .inl h)
    (fun _ h => .inl h) (fun other type' htype' => ?_)
    ⟨fun _ _ h => h, fun _ _ h => h, fun _ _ h => h⟩ (fun _ h => .inl h) fun _ => rfl
  by_cases heq : other = node
  · subst heq
    obtain rfl := Option.some.inj ((NodeMap.get?_of_fill? hfill).1.symm.trans htype')
    exact .inr ⟨hsettled, hgrounded⟩
  · exact .inl (((NodeMap.get?_of_fill? hfill).2 other heq).symm.trans htype')

theorem calm_useSymbol (hs : s.Sound) (h : (useSymbol node id).Gives settings s () s') :
    s.Calm s' := by
  simp only [useSymbol, gives_bind] at h
  obtain ⟨_, s₁, hmark, hset⟩ := h
  have hmark := calm_markUsed hs hmark
  exact hmark.trans (calm_setExprSymbol hmark.sound hset)

/-! ## Declarations -/

theorem calm_warnShadow (hs : s.Sound) {name : Ident} {symbol hidden : SymbolId}
    (h : (warnShadow name symbol hidden).Gives settings s () s') : s.Calm s' := by
  simp only [warnShadow, gives_bind, gives_symbol, gives_kindOf, gives_settings, report] at h
  obtain ⟨_, _, ⟨-, rfl⟩, _, _, ⟨-, rfl⟩, _, _, ⟨-, rfl⟩, h⟩ := h
  rw [gives_ite] at h
  split at h
  · obtain ⟨-, rfl⟩ := gives_pure.mp h
    exact .refl hs
  · obtain rfl := gives_update.mp h
    exact hs.quiet rfl (.refl _) rfl rfl rfl rfl rfl rfl (.refl _) (fun _ h => .inl h) fun _ => rfl

theorem not_gives_clash {α : Type} {name : Ident} {existing : SymbolId} {a : α} :
    ¬ (clash name existing : Check α).Gives settings s a s' := by
  simp only [clash, gives_bind, gives_cursor, gives_scopeAt, gives_symbol]
  rintro ⟨_, _, ⟨rfl, rfl⟩, _, _, ⟨-, rfl⟩, _, _, ⟨-, rfl⟩, h⟩
  split at h
  · split at h <;> simp at h
  · split at h <;> simp at h
  · simp at h

/-- A row is inserted where nothing of its name conflicts with it; nothing but a warning follows. -/
theorem declareRow_gives {span : Span} {row : Row} (h : (declareRow span row).Gives settings s () s') :
    ∃ hidden g, s.scopes.insert row (s.tables.conflicts row.symbol) = .ok (hidden, g) ∧
      (CheckState.Sound { s with scopes := g } → CheckState.Calm { s with scopes := g } s') := by
  simp only [declareRow, gives_bind, gives_requireComparable, gives_state] at h
  obtain ⟨_, _, ⟨-, rfl⟩, _, _, ⟨rfl, rfl⟩, h⟩ := h
  split at h
  · next hidden g hok =>
    simp only [gives_bind, gives_update] at h
    obtain ⟨_, _, rfl, h⟩ := h
    refine ⟨hidden, g, hok, fun hg => ?_⟩
    split at h
    · exact calm_warnShadow hg h
    · exact (gives_pure.mp h).2 ▸ .refl hg
  · exact absurd h not_gives_clash

section

variable {row : Row} {conflicts : SymbolId → Bool} {hidden : Option SymbolId} {g : ScopeGraph}
  (hinsert : s.scopes.insert row conflicts = .ok (hidden, g))

include hinsert

/-- Inserting a symbol that is told apart from what its name is bound to. -/
theorem apart_insert {bound : Nat} (h : s.Apart bound)
    (hrow : ∀ old, conflicts old = false → s.tables.ToldApart bound old row.symbol) :
    CheckState.Apart { s with scopes := g } bound := by
  intro scope
  rcases ScopeGraph.rows_insert hinsert scope with hrows | ⟨hrows, hfree⟩
  · exact hrows ▸ h scope
  · rw [hrows, List.pairwise_append]
    refine ⟨h scope, List.pairwise_singleton _ _, fun old hold new hnew hname => ?_⟩
    obtain rfl := List.mem_singleton.mp hnew
    exact hrow _ (hfree old hold hname)

/-- Only functions are bound as static members. -/
theorem mild_insert (hs : s.Sound)
    (hrow : row.isStatic = true → (s.tables.symbols.func? row.symbol).isSome)
    (hconflicts : ∀ old, conflicts old = false → s.tables.conflicts row.symbol old = false) :
    s.Mild { s with scopes := g } := by
  refine ⟨⟨hs.tables, hs.exprs, hs.frames, hs.distinct, hs.assumptions, hs.transfers, hs.defaults,
    hs.remembered, fun id hid => ?_⟩, .refl _, rfl, rfl, fun _ h => h, .refl _,
    fun hcomplete hapart => apart_insert hinsert hapart fun old hold => ?_⟩
  · rcases ScopeGraph.static_insert hinsert hid with hold | ⟨hstatic, rfl⟩
    · exact hs.statics id hold
    · exact hrow hstatic
  · exact ⟨s.tables, hs.tables, hcomplete, Nat.le_refl _, .refl _, hconflicts old hold⟩

/-- What conflicts with everything shares its name with nothing. -/
theorem calm_insert (hs : s.Sound) (hstatic : row.isStatic = false)
    (hconflicts : ∀ old, conflicts old = true) : s.Calm { s with scopes := g } :=
  ⟨mild_insert hinsert hs (by simp [hstatic]) (by simp [hconflicts]),
    fun _ hapart => apart_insert hinsert hapart (by simp [hconflicts])⟩

end

theorem mild_declareRow (hs : s.Sound) {span : Span} {row : Row}
    (hrow : row.isStatic = true → (s.tables.symbols.func? row.symbol).isSome)
    (h : (declareRow span row).Gives settings s () s') : s.Mild s' := by
  obtain ⟨hidden, g, hinsert, hrest⟩ := declareRow_gives h
  have hmild := mild_insert hinsert hs hrow fun _ h => h
  exact hmild.trans (hrest hmild.sound).toMild

/-- A symbol that is no function is bound to a name of its own. -/
theorem calm_declareRow (hs : s.Sound) {span : Span} {row : Row} (hstatic : row.isStatic = false)
    (hfunc : s.tables.symbols.func? row.symbol = none)
    (h : (declareRow span row).Gives settings s () s') : s.Calm s' := by
  obtain ⟨hidden, g, hinsert, hrest⟩ := declareRow_gives h
  have hcalm := calm_insert hinsert hs hstatic fun _ => Tables.conflicts_of_func?_eq_none hfunc
  exact hcalm.trans (hrest hcalm.sound)

theorem calm_declareObject (hs : s.Sound) {name : Ident} {type : ExprType} {origin : Origin}
    (htype : s.tables.types.Settled type.type)
    (h : (declareObject name type origin).Gives settings s id s') :
    s.Calm s' ∧ s'.tables.symbols.kind? id = some (.object ⟨type, origin⟩) := by
  simp only [declareObject, declare, gives_bind, gives_cursor, gives_pure] at h
  obtain ⟨_, _, ⟨rfl, rfl⟩, symbol, s₁, hnew, _, _, hdeclare, rfl, rfl⟩ := h
  obtain ⟨hnew, hkind⟩ := calm_newSymbol hs hnew htype (by simp) (by simp)
  have hdeclare := calm_declareRow hnew.sound rfl
    (SymbolTable.func?_eq_none_of_kind? hkind (by simp)) hdeclare
  exact ⟨hnew.trans hdeclare, hdeclare.tables.toContained.object hkind⟩

theorem calm_declareParams (params : List (Param × ExprType)) (hs : s.Sound)
    (hparams : ∀ p ∈ params, s.tables.types.Settled p.2.type)
    (h : (declareParams params).Gives settings s () s') : s.Calm s' := by
  induction params generalizing s with
  | nil =>
      obtain ⟨-, rfl⟩ := gives_pure.mp h
      exact .refl hs
  | cons entry rest ih =>
      obtain ⟨param, type⟩ := entry
      simp only [declareParams, gives_bind] at h
      obtain ⟨symbol, s₁, hobject, _, s₂, hset, hrest⟩ := h
      have htype : s.tables.types.Settled (ExprType.named type.type param.mutability).type :=
        hparams (param, type) List.mem_cons_self
      have hobject := (calm_declareObject hs htype hobject).1
      have hstart := hobject.trans (calm_setParamSymbol hobject.sound hset)
      refine hstart.trans (ih hstart.sound (fun p hp => ?_) hrest)
      exact (hparams p (List.mem_cons_of_mem _ hp)).mono hstart.tables.types

/-! ## Searches -/

theorem calm_staticPath_finish (hs : s.Sound) {found : Option SymbolId}
    (h : (staticPath.finish node id).Gives settings s found s') : s.Calm s' := by
  simp only [staticPath.finish, gives_bind, gives_kindOf] at h
  obtain ⟨_, _, ⟨-, rfl⟩, h⟩ := h
  split at h
  · simp only [if_true, gives_bind, gives_pure] at h
    obtain ⟨_, _, huse, -, rfl⟩ := h
    exact calm_useSymbol hs huse
  · rw [gives_ite] at h
    split at h
    · simp only [gives_bind, gives_pure] at h
      obtain ⟨_, _, huse, -, rfl⟩ := h
      exact calm_useSymbol hs huse
    · obtain ⟨-, rfl⟩ := gives_pure.mp h
      exact .refl hs

theorem calm_staticPath (e : Expr) (hs : s.Sound) {found : Option SymbolId}
    (h : (staticPath e).Gives settings s found s') : s.Calm s' := by
  induction e using staticPath.induct generalizing s s' found with
  | case1 node name =>
      simp only [staticPath, gives_bind] at h
      obtain ⟨_, _, hlookup, h⟩ := h
      obtain rfl := lookup_state hlookup
      split at h
      · obtain ⟨-, rfl⟩ := gives_pure.mp h
        exact .refl hs
      · exact calm_staticPath_finish hs h
  | case2 node object member ih =>
      simp only [staticPath, gives_bind] at h
      obtain ⟨_, s₁, hobject, h⟩ := h
      have hcalm := ih hs hobject
      split at h
      · obtain ⟨-, rfl⟩ := gives_pure.mp h
        exact hcalm
      · simp only [gives_bind, gives_kindOf] at h
        obtain ⟨_, _, ⟨-, rfl⟩, h⟩ := h
        split at h
        · simp only [gives_bind, gives_entriesOf] at h
          obtain ⟨_, _, ⟨⟨-, rfl⟩, rfl⟩, h⟩ := h
          split at h
          · obtain ⟨-, rfl⟩ := gives_pure.mp h
            exact hcalm
          · exact hcalm.trans (calm_staticPath_finish hcalm.sound h)
        · obtain ⟨-, rfl⟩ := gives_pure.mp h
          exact hcalm
  | case3 e hident hmember =>
      rw [staticPath.eq_3 _ hident hmember] at h
      obtain ⟨-, rfl⟩ := gives_pure.mp h
      exact .refl hs

/-! ## Captures -/

/-- Changing a closure in what neither its parameters nor its result depend on. -/
theorem calm_modifyClosure (hs : s.Sound) (closure : SymbolId) {f : ClosureInfo → ClosureInfo}
    (hparams : ∀ info, (f info).params = info.params) (hret : ∀ info, (f info).ret = info.ret)
    (hcaptures : ∀ info, ∀ c ∈ (f info).captures,
      c ∈ info.captures ∨ s.tables.types.Settled c.type) :
    s.Calm { s with tables.symbols := s.tables.symbols.modifyClosure closure f } := by
  have hgrows : s.tables.Grows
      { s.tables with symbols := s.tables.symbols.modifyClosure closure f } := by
    refine .modifyKind s.tables closure fun kind _ => ?_
    cases kind with
    | closure info => exact .closure ⟨hparams info, fun _ h => (hret info).trans h⟩
    | _ => exact .refl _
  refine hs.calm_tables (hs.tables.modifyKind hgrows.widens ?_) ⟨hgrows, .modifyKind _ _ ?_ ?_⟩
  · intro kind _ hsound
    cases kind with
    | closure info =>
        obtain ⟨hp, hr, hc⟩ := hsound
        refine ⟨hparams info ▸ hp, hret info ▸ hr, fun c hmem => ?_⟩
        exact (hcaptures info c hmem).elim (hc c) id
    | _ => exact hsound
  · intro kind info
    cases kind <;> simp
  · intro info
    exact ⟨_, rfl, hret info⟩

/-- Adding a captured value of a settled type to a closure. -/
theorem calm_addCapture (hs : s.Sound) {closure : SymbolId} {capture : Capture}
    (hcapture : s.tables.types.Settled capture.type) :
    s.Calm { s with tables.symbols := s.tables.symbols.modifyClosure closure fun info =>
      { info with captures := info.captures ++ [capture] } } := by
  refine calm_modifyClosure hs closure (fun _ => rfl) (fun _ => rfl) fun info c hc => ?_
  rcases List.mem_append.mp hc with hold | hnew
  · exact .inl hold
  · exact .inr (List.mem_singleton.mp hnew ▸ hcapture)

theorem calm_captureWithin (bound : Nat) (hs : s.Sound) {closure source : SymbolId} {slot : Nat}
    (h : (captureWithin bound closure source).Gives settings s slot s') : s.Calm s' := by
  induction bound generalizing closure source slot s s' with
  | zero => simp [captureWithin] at h
  | succ bound ih =>
      obtain ⟨info, -, ⟨-, rfl⟩ | ⟨-, hadds⟩⟩ := captureWithin_gives h
      · exact .refl hs
      obtain ⟨entry, object, via, s₁, info', -, hobject, hfills, rfl, -, -⟩ := hadds
      have hsettled : s.tables.types.Settled object.type.type :=
        hs.tables.kinds _ _ (SymbolTable.object?_eq_some.mp hobject)
      cases hfills with
      | root | stray | enclosing => exact calm_addCapture hs hsettled
      | parent _ _ _ hrun =>
          have hparent := ih hs hrun
          exact hparent.trans (calm_addCapture hparent.sound (hsettled.mono hparent.tables.types))

theorem calm_noteCapture (hs : s.Sound) {source : SymbolId}
    (h : (noteCapture node source).Gives settings s () s') : s.Calm s' := by
  obtain ⟨frame, entry, object, slot, s₁, -, hrun, rfl⟩ | ⟨-, rfl⟩ := noteCapture_gives h
  · simp only [capture, gives_bind, gives_tables] at hrun
    obtain ⟨_, _, ⟨rfl, rfl⟩, hrun⟩ := hrun
    have hcapture := calm_captureWithin _ hs hrun
    exact hcapture.trans (hcapture.sound.quiet rfl (.refl _) rfl rfl rfl rfl rfl rfl (.refl _)
      (fun _ h => .inl h) fun _ => rfl)
  · exact .refl hs

end Stela.Check
