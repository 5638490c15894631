import Stela.Check.Module
import Stela.Proofs.Check.Lowering

/-!
# Types of a module

The types of a module are declared before they are completed, so that a struct
or an alias is there before its parts are known. Symbols of earlier modules are
left as they are, and at the end no alias stands for nothing.
-/

namespace Stela

/-- Whether a declaration makes a type. -/
def Decl.makesType : Decl → Bool
  | .func _ | .global .. => false
  | .structType .. | .enumType .. | .aliasType .. | .hostType .. => true

namespace Check

open CheckState

variable {settings : Settings} {s s' s'' : CheckState} {first : SymbolId}

/-- What holds around the declaration of types whose symbols are numbered from `first` on. -/
structure Prepares (first : SymbolId) (s s' : CheckState) : Prop where
  sound : s'.Sound
  widens : s.tables.Widens s'.tables
  steady : s.tables.Steady s'.tables
  older : ∀ id < first, ∀ kind, s.tables.symbols.kind? id = some kind →
    (∃ kind', s'.tables.symbols.kind? id = some kind' ∧ kind.Becomes kind') ∧
      s'.tables.symbols.name id = s.tables.symbols.name id
  size : s.tables.symbols.size ≤ s'.tables.symbols.size
  frames : s'.frames = s.frames
  exprs : s'.exprTypes = s.exprTypes
  assumptions : ∀ a ∈ s.assumptions, a ∈ s'.assumptions
  meanings : s.meanings.Within s'.meanings
  apart : s.Apart first → s'.Apart first

theorem prepares_of_calm (first : SymbolId) (h : s.Calm s') : Prepares first s s' :=
  ⟨h.sound, h.tables.toGrows.widens, h.tables.toSteady, fun id _ => h.tables.symbols id,
    h.tables.toGrows.size_le, h.frames, h.exprs, h.assumptions, h.meanings, h.apart first⟩

theorem Prepares.trans (h : Prepares first s s') (h' : Prepares first s' s'') :
    Prepares first s s'' := by
  refine ⟨h'.sound, h.widens.trans h'.widens, h.steady.trans h'.steady, fun id hid kind hkind => ?_,
    Nat.le_trans h.size h'.size, h'.frames.trans h.frames, h'.exprs.trans h.exprs,
    fun a ha => h'.assumptions a (h.assumptions a ha), h.meanings.trans h'.meanings,
    fun hapart => h'.apart (h.apart hapart)⟩
  obtain ⟨⟨kind', hkind', hbecomes⟩, hname⟩ := h.older id hid kind hkind
  obtain ⟨⟨kind'', hkind'', hbecomes'⟩, hname'⟩ := h'.older id hid kind' hkind'
  exact ⟨⟨kind'', hkind'', hbecomes.trans hbecomes'⟩, hname'.trans hname⟩

/-- What was told apart among older symbols stays so while these do. -/
theorem apart_of_older {t : Tables} (h : s.Apart first) (hw : s.tables.types.Within t.types)
    (holder : ∀ id < first, ∀ kind, s.tables.symbols.kind? id = some kind →
      (∃ kind', t.symbols.kind? id = some kind' ∧ kind.Becomes kind') ∧
        t.symbols.name id = s.tables.symbols.name id) :
    CheckState.Apart { s with tables := t } first := by
  refine fun scope => (h scope).imp fun htold hname => ?_
  obtain ⟨u, hsound, hcomplete, hbound, hcontained, hconflicts⟩ := htold hname
  refine ⟨u, hsound, hcomplete, hbound, ⟨hcontained.types.trans hw, fun id kind hkind => ?_⟩, hconflicts⟩
  obtain ⟨⟨kind', hkind', hbecomes⟩, hname⟩ := hcontained.symbols id kind hkind
  have hlt := Nat.lt_of_lt_of_le (SymbolTable.lt_size_of_kind? hkind) hbound
  obtain ⟨⟨kind'', hkind'', hbecomes'⟩, hname'⟩ := holder id hlt kind' hkind'
  exact ⟨⟨kind'', hkind'', hbecomes.trans hbecomes'⟩, hname'.trans hname⟩

/-! ## Declaring -/

/-- A type symbol is added along with the type entered for it, which its details speak of. -/
theorem newTypeSymbol_gives {name : Ident} {ty : SymbolId → Ty} {kind : TypeId → SymbolKind}
    {symbol : SymbolId} (h : (newTypeSymbol name ty kind).Gives settings s symbol s') :
    s.tables.symbols.size = symbol ∧
      { s with tables := ⟨(s.tables.types.intern (ty symbol)).2, (s.tables.symbols.add
        ⟨name.name, name.span, kind (s.tables.types.intern (ty symbol)).1, s.scopes.cursor, false,
          false⟩).2⟩ } = s' := by
  simp only [newTypeSymbol, gives_bind, gives_cursor, gives_newSymbol, gives_intern,
    gives_modifyKind, gives_pure] at h
  obtain ⟨_, _, ⟨rfl, rfl⟩, _, _, ⟨rfl, rfl⟩, _, _, ⟨rfl, rfl⟩, _, _, ⟨-, rfl⟩, rfl, rfl⟩ := h
  refine ⟨rfl, ?_⟩
  rw [SymbolTable.modifyKind_add]

/-- What is known about a new type symbol. -/
structure AddsType (first : SymbolId) (kind : TypeId → SymbolKind) (symbol : SymbolId)
    (s s' : CheckState) : Prop extends Prepares first s s' where
  fresh : s.tables.symbols.size = symbol
  func : s'.tables.symbols.func? symbol = none
  aliases : ∀ id info', s'.tables.symbols.kind? id = some (.aliasType info') →
    (∃ info, s.tables.symbols.kind? id = some (.aliasType info)) ∨
      id = symbol ∧ ∃ type, kind type = .aliasType info'

theorem addsType_newTypeSymbol (first : SymbolId) (hs : s.Sound) {name : Ident} {ty : SymbolId → Ty}
    {kind : TypeId → SymbolKind} {symbol : SymbolId}
    (h : (newTypeSymbol name ty kind).Gives settings s symbol s')
    (hfits : ∀ t : TypeTable, t.Fits (ty symbol)) (hsymbol : (ty symbol).symbol? = some symbol)
    (hkind : ∀ (t : Tables) type, t.types.get? type = some (ty symbol) →
      t.KindSound symbol (kind type))
    (hfunc : ∀ type info, kind type ≠ .func info) : AddsType first kind symbol s s' := by
  obtain ⟨rfl, rfl⟩ := newTypeSymbol_gives h
  set types := s.tables.types.intern (ty s.tables.symbols.size)
  set entry : Symbol := ⟨name.name, name.span, kind types.1, s.scopes.cursor, false, false⟩
  have hintern := Tables.Extends.intern s.tables (ty s.tables.symbols.size)
  have hother (info : FuncInfo) : entry.kind ≠ .func info := hfunc types.1 info
  have hsteady := hintern.toSteady.trans
    (Tables.Steady.add { s.tables with types := types.2 } hother)
  have hwidens := hintern.toGrows.widens.trans (.add { s.tables with types := types.2 } entry)
  have hentry : Tables.KindSound { s.tables with types := types.2 } s.tables.symbols.size entry.kind :=
    hkind _ types.1 (TypeTable.get?_intern _ _)
  have htables := hs.tables.declare (hfits _) hsymbol hentry
  have hsound := sound_of_steady hs htables hsteady hwidens.types fun type hg => hg.widens hwidens
  have holder (id : SymbolId) (old : SymbolKind) (hold : s.tables.symbols.kind? id = some old) :
      (∃ kind', (s.tables.symbols.add entry).2.kind? id = some kind' ∧ old.Becomes kind') ∧
        (s.tables.symbols.add entry).2.name id = s.tables.symbols.name id := by
    have hlt := SymbolTable.lt_size_of_kind? hold
    refine ⟨⟨old, ?_, .refl old⟩, SymbolTable.name_add_of_lt hlt⟩
    rw [SymbolTable.kind?_add, if_neg (Nat.ne_of_lt hlt), hold]
  refine ⟨⟨hsound, hwidens, hsteady, fun id _ => holder id, hwidens.size, rfl, rfl, fun _ h => h,
    .refl _, fun hapart => apart_of_older hapart hwidens.types fun id _ => holder id⟩, rfl, ?_,
    fun id info' hinfo' => ?_⟩
  · exact hsteady.func?_eq_none SymbolTable.func?_size
  · rw [SymbolTable.kind?_add] at hinfo'
    split at hinfo'
    · next heq => exact .inr ⟨heq, types.1, Option.some.inj hinfo'⟩
    · exact .inl ⟨info', hinfo'⟩

theorem calm_newMemberScope (hs : s.Sound) {kind : ScopeKind} {scope : ScopeId}
    (h : (newMemberScope kind).Gives settings s scope s') : s.Calm s' := by
  simp only [newMemberScope, gives_bind, gives_pure] at h
  obtain ⟨_, s₁, henter, _, _, hleave, rfl, rfl⟩ := h
  have henter := calm_enterScope hs henter
  exact henter.trans (calm_leaveScope henter.sound hleave)

theorem calm_declare (hs : s.Sound) {name : Ident} {symbol : SymbolId}
    (hfunc : s.tables.symbols.func? symbol = none)
    (h : (declare name symbol).Gives settings s () s') : s.Calm s' :=
  calm_declareRow hs rfl hfunc h

theorem calm_declareCases (cases : List EnumCase) (hs : s.Sound) {owner : SymbolId} {scope : ScopeId}
    {next : Int64} (h : (declareCases owner scope next cases).Gives settings s () s') : s.Calm s' := by
  induction cases generalizing s next with
  | nil =>
      obtain ⟨-, rfl⟩ := gives_pure.mp h
      exact .refl hs
  | cons enumCase rest ih =>
      simp only [declareCases, gives_bind] at h
      obtain ⟨symbol, s₁, hnew, _, s₂, hdeclare, hrest⟩ := h
      obtain ⟨hnew, hkind⟩ := calm_newSymbol hs hnew trivial (by simp) (by simp)
      have hfunc := SymbolTable.func?_eq_none_of_kind? hkind (by simp)
      have hdeclare := calm_withCursor hnew.sound
        (fun _ _ hs heq => calm_declare hs (heq ▸ hfunc)) hdeclare
      exact (hnew.trans hdeclare).trans (ih hdeclare.sound hrest)

/-- Binding a declaration notes its symbol. -/
theorem calm_bindDecl (hs : s.Sound) {node : Node} {name : Ident} {symbol : SymbolId}
    (hfunc : s.tables.symbols.func? symbol = none)
    (h : (bindDecl node name symbol).Gives settings s () s') :
    s.Calm s' ∧ s'.meanings.decls.get? node.id = some symbol := by
  simp only [bindDecl, gives_bind] at h
  obtain ⟨_, s₁, hset, hdeclare⟩ := h
  have hset' := calm_setDeclSymbol hs hset
  have hdeclare' := calm_declare hset'.sound (hset'.tables.func?_eq_none hfunc) hdeclare
  obtain ⟨filled, hfill, rfl⟩ := gives_fill.mp hset
  exact ⟨hset'.trans hdeclare', hdeclare'.meanings.decls _ _ (NodeMap.get?_of_fill? hfill).1⟩

/-- What is known about declarations whose types were declared. -/
structure DeclaresTypes (first : SymbolId) (decls : List Decl) (s s' : CheckState) : Prop
    extends Prepares first s s' where
  symbols : ∀ decl ∈ decls, decl.makesType = true →
    ∃ symbol, first ≤ symbol ∧ s'.meanings.decls.get? decl.node.id = some symbol
  aliases : ∀ id info', s'.tables.symbols.kind? id = some (.aliasType info') →
    (∃ info, s.tables.symbols.kind? id = some (.aliasType info)) ∨
      ∃ node name target strong, .aliasType node name target strong ∈ decls ∧
        s'.meanings.decls.get? node.id = some id

theorem DeclaresTypes.append {decls decls' : List Decl} (h : DeclaresTypes first decls s s')
    (h' : DeclaresTypes first decls' s' s'') : DeclaresTypes first (decls ++ decls') s s'' := by
  refine ⟨h.toPrepares.trans h'.toPrepares, fun decl hdecl hmakes => ?_, fun id info'' hinfo'' => ?_⟩
  · rcases List.mem_append.mp hdecl with hold | hnew
    · obtain ⟨symbol, hle, hsymbol⟩ := h.symbols decl hold hmakes
      exact ⟨symbol, hle, h'.meanings.decls _ _ hsymbol⟩
    · exact h'.symbols decl hnew hmakes
  · rcases h'.aliases id info'' hinfo'' with ⟨info', hinfo'⟩ | ⟨node, name, target, strong, hmem, hid⟩
    · rcases h.aliases id info' hinfo' with hold | ⟨node, name, target, strong, hmem, hid⟩
      · exact .inl hold
      · exact .inr ⟨node, name, target, strong, List.mem_append_left _ hmem,
          h'.meanings.decls _ _ hid⟩
    · exact .inr ⟨node, name, target, strong, List.mem_append_right _ hmem, hid⟩

theorem declaresTypes_declareType (hs : s.Sound) (hfirst : first ≤ s.tables.symbols.size)
    {decl : Decl} (h : (declareType decl).Gives settings s () s') :
    DeclaresTypes first [decl] s s' := by
  have plain : decl.makesType = false → s = s' → DeclaresTypes first [decl] s s' := by
    rintro hmakes rfl
    refine ⟨prepares_of_calm first (.refl hs), fun decl' hdecl' hmakes' => ?_,
      fun id info h => .inl ⟨info, h⟩⟩
    obtain rfl := List.mem_singleton.mp hdecl'
    simp [hmakes] at hmakes'
  have finish {s₁ s₂ s₃ : CheckState} {symbol : SymbolId} {kind : TypeId → SymbolKind} {name : Ident}
      (hbefore : s.Calm s₁) (hnew : AddsType first kind symbol s₁ s₂) (hmiddle : s₂.Calm s₃)
      (hbind : (bindDecl decl.node name symbol).Gives settings s₃ () s')
      (halias : ∀ type info, kind type = .aliasType info →
        ∃ node name target strong, decl = .aliasType node name target strong) :
      DeclaresTypes first [decl] s s' := by
    obtain ⟨hbind, hdecl⟩ :=
      calm_bindDecl hmiddle.sound (hmiddle.tables.func?_eq_none hnew.func) hbind
    have hafter := hmiddle.trans hbind
    refine ⟨((prepares_of_calm first hbefore).trans hnew.toPrepares).trans
      (prepares_of_calm first hafter), fun decl' hdecl' _ => ?_, fun id info' hinfo' => ?_⟩
    · obtain rfl := List.mem_singleton.mp hdecl'
      exact ⟨symbol, Nat.le_trans hfirst (hnew.fresh ▸ hbefore.tables.toGrows.size_le), hdecl⟩
    · obtain ⟨info₂, hinfo₂⟩ := hafter.tables.aliases id info' hinfo'
      rcases hnew.aliases id info₂ hinfo₂ with ⟨info₁, hinfo₁⟩ | ⟨rfl, type, htype⟩
      · exact .inl (hbefore.tables.aliases id info₁ hinfo₁)
      · obtain ⟨node, name, target, strong, rfl⟩ := halias type info₂ htype
        exact .inr ⟨node, name, target, strong, List.mem_singleton_self _, hdecl⟩
  cases decl with
  | func decl => exact plain rfl (gives_pure.mp h).2
  | global node binding => exact plain rfl (gives_pure.mp h).2
  | structType node name members =>
      simp only [declareType, gives_bind] at h
      obtain ⟨scope, s₁, hscope, symbol, s₂, hnew, _, s₃, howner, hbind⟩ := h
      have hscope := calm_newMemberScope hs hscope
      have hnew := addsType_newTypeSymbol first hscope.sound hnew (fun _ => trivial) rfl
        (fun _ _ h => ⟨h, by simp⟩) (by simp)
      exact finish hscope hnew (calm_setOwner hnew.sound howner) hbind (by simp)
  | enumType node name cases =>
      simp only [declareType, gives_bind] at h
      obtain ⟨scope, s₁, hscope, symbol, s₂, hnew, _, s₃, howner, _, s₄, hcases, hbind⟩ := h
      have hscope := calm_newMemberScope hs hscope
      have hnew := addsType_newTypeSymbol first hscope.sound hnew (fun _ => trivial) rfl
        (fun _ _ h => h) (by simp)
      have howner := calm_setOwner hnew.sound howner
      have hcases := calm_declareCases cases howner.sound hcases
      exact finish hscope hnew (howner.trans hcases) hbind (by simp)
  | hostType node name size align fields =>
      simp only [declareType, gives_bind] at h
      obtain ⟨symbol, s₁, hnew, hbind⟩ := h
      have hnew := addsType_newTypeSymbol first hs hnew (fun _ => trivial) rfl
        (fun _ _ h => ⟨h, by simp⟩) (by simp)
      exact finish (.refl hs) hnew (.refl hnew.sound) hbind (by simp)
  | aliasType node name target strong =>
      simp only [declareType, gives_bind] at h
      obtain ⟨symbol, s₁, hnew, hbind⟩ := h
      have hnew := addsType_newTypeSymbol first hs hnew (fun _ => trivial) rfl
        (fun _ _ h => ⟨h, by simp⟩) (by simp)
      exact finish (.refl hs) hnew (.refl hnew.sound) hbind fun _ _ _ => ⟨_, _, _, _, rfl⟩

theorem declaresTypes_forM (decls : List Decl) (hs : s.Sound)
    (hfirst : first ≤ s.tables.symbols.size)
    (h : (decls.forM declareType).Gives settings s () s') : DeclaresTypes first decls s s' := by
  induction decls generalizing s with
  | nil =>
      obtain rfl := gives_forM_nil.mp h
      exact ⟨prepares_of_calm first (.refl hs), by simp, fun id info h => .inl ⟨info, h⟩⟩
  | cons decl rest ih =>
      obtain ⟨s₁, hdecl, hrest⟩ := gives_forM_cons.mp h
      have hdecl := declaresTypes_declareType hs hfirst hdecl
      exact hdecl.append (ih hdecl.sound (Nat.le_trans hfirst hdecl.size) hrest)

/-! ## Completing -/

/-- Changing details so that no alias arises. -/
theorem modifyKind_alias {t : SymbolTable} {id other : SymbolId} {f : SymbolKind → SymbolKind}
    {info' : AliasInfo} (h : (t.modifyKind id f).kind? other = some (.aliasType info'))
    (hf : ∀ kind info, f kind = .aliasType info → kind = .aliasType info) :
    ∃ info, t.kind? other = some (.aliasType info) := by
  rw [SymbolTable.kind?_modifyKind] at h
  split at h
  · obtain ⟨kind, hkind, heq⟩ := Option.map_eq_some_iff.mp h
    exact ⟨info', hkind.trans (congrArg some (hf kind info' heq))⟩
  · exact ⟨info', h⟩

/-- Changing the details of one type of the module. -/
theorem prepares_modifyKind (hs : s.Sound) {id : SymbolId} (hid : first ≤ id)
    {f : SymbolKind → SymbolKind} (halias : ∀ info, f (.aliasType info) = .aliasType info)
    (hfunc : ∀ kind info, f kind = .func info ↔ kind = .func info)
    (hclosure : ∀ info, f (.closure info) = .closure info)
    (hkind : ∀ kind, s.tables.symbols.kind? id = some kind → s.tables.KindSound id kind →
      s.tables.KindSound id (f kind)) :
    Prepares first s { s with tables.symbols := s.tables.symbols.modifyKind id f } := by
  have hsteady := Tables.Steady.modifyKind s.tables id hfunc fun info => ⟨info, hclosure info, rfl⟩
  have hwidens := Tables.Widens.modifyKind s.tables id halias
  have hsound := sound_of_steady hs (hs.tables.modifyKind hwidens hkind) hsteady (.refl _)
    fun type hg => hg.widens hwidens
  have holder (other : SymbolId) (hother : other < first) (kind : SymbolKind)
      (hkind : s.tables.symbols.kind? other = some kind) :
      (∃ kind', (s.tables.symbols.modifyKind id f).kind? other = some kind' ∧ kind.Becomes kind') ∧
        (s.tables.symbols.modifyKind id f).name other = s.tables.symbols.name other := by
    have hne : id ≠ other := fun heq => Nat.lt_irrefl _ (Nat.lt_of_lt_of_le (heq ▸ hother) hid)
    exact ⟨⟨kind, (SymbolTable.kind?_modifyKind_ne hne).trans hkind, .refl kind⟩,
      SymbolTable.name_modifyKind⟩
  exact ⟨hsound, hwidens, hsteady, holder, hwidens.size, rfl, rfl, fun _ h => h, .refl _,
    fun hapart => apart_of_older hapart (.refl _) holder⟩

/-- The symbols of the fields are there in the end. -/
theorem calm_declareFields (members : List Member) (hs : s.Sound) {owner : SymbolId}
    {scope : ScopeId} {index : Nat} {fields : List SymbolId}
    (h : (declareFields owner scope index members).Gives settings s fields s') :
    s.Calm s' ∧ ∀ field ∈ fields, field < s'.tables.symbols.size := by
  induction members generalizing s index fields with
  | nil =>
      obtain ⟨rfl, rfl⟩ := gives_pure.mp h
      exact ⟨.refl hs, by simp⟩
  | cons member rest ih =>
      cases member with
      | func decl => exact ih hs h
      | field field =>
          simp only [declareFields, gives_bind, gives_pure] at h
          obtain ⟨type, s₁, hlower, symbol, s₂, hnew, _, s₃, hdeclare, symbols, _, hrest, rfl, rfl⟩ := h
          obtain ⟨hlower, hwritten⟩ := written_lowerType hs hlower
          obtain ⟨hnew, hkind⟩ := calm_newSymbol hlower.sound hnew hwritten.1 (by simp) (by simp)
          have hfunc := SymbolTable.func?_eq_none_of_kind? hkind (by simp)
          have hdeclare := calm_withCursor hnew.sound
            (fun _ _ hs heq => calm_declareRow hs rfl (heq ▸ hfunc)) hdeclare
          obtain ⟨hrest, hsymbols⟩ := ih hdeclare.sound hrest
          have hafter := hdeclare.trans hrest
          refine ⟨(hlower.trans hnew).trans hafter, List.forall_mem_cons.mpr ⟨?_, hsymbols⟩⟩
          exact Nat.lt_of_lt_of_le (SymbolTable.lt_size_of_kind? hkind) hafter.tables.toGrows.size_le

theorem settled_lowerHostFields (fields : List HostField) (hs : s.Sound) {owner : String}
    {seen : List String} {slots : List HostSlot}
    (h : (lowerHostFields owner seen fields).Gives settings s slots s') :
    s.Calm s' ∧ ∀ slot ∈ slots, s'.tables.types.Settled slot.type := by
  induction fields generalizing s seen slots with
  | nil =>
      obtain ⟨rfl, rfl⟩ := gives_pure.mp h
      exact ⟨.refl hs, by simp⟩
  | cons field rest ih =>
      simp only [lowerHostFields] at h
      rw [gives_ite] at h
      split at h
      · simp at h
      · simp only [gives_bind, gives_pure] at h
        obtain ⟨type, s₁, hlower, slots', _, hrest, rfl, rfl⟩ := h
        obtain ⟨hlower, hwritten⟩ := written_lowerType hs hlower
        obtain ⟨hcalm, hsettled⟩ := ih hlower.sound hrest
        refine ⟨hlower.trans hcalm, fun slot hslot => ?_⟩
        rcases List.mem_cons.mp hslot with rfl | hslot
        · exact hwritten.1.mono hcalm.tables.types
        · exact hsettled slot hslot

/-- What is known about declarations whose types were completed. -/
structure Completes (first : SymbolId) (decls : List Decl) (s s' : CheckState) : Prop
    extends Prepares first s s' where
  aliases : ∀ id info', s'.tables.symbols.kind? id = some (.aliasType info') →
    ∃ info, s.tables.symbols.kind? id = some (.aliasType info)
  targets : ∀ node name target strong, .aliasType node name target strong ∈ decls →
    ∀ id info', s.meanings.decls.get? node.id = some id →
      s'.tables.symbols.kind? id = some (.aliasType info') →
      ∃ target, info'.target = .resolved target

theorem Completes.append {decls decls' : List Decl} (h : Completes first decls s s')
    (h' : Completes first decls' s' s'') : Completes first (decls ++ decls') s s'' := by
  refine ⟨h.toPrepares.trans h'.toPrepares, fun id info'' hinfo'' => ?_,
    fun node name target strong hmem id info'' hid hinfo'' => ?_⟩
  · obtain ⟨info', hinfo'⟩ := h'.aliases id info'' hinfo''
    exact h.aliases id info' hinfo'
  · rcases List.mem_append.mp hmem with hold | hnew
    · obtain ⟨info', hinfo'⟩ := h'.aliases id info'' hinfo''
      obtain ⟨found, hfound⟩ := h.targets node name target strong hold id info' hid hinfo'
      obtain ⟨info₁, hinfo₁, htarget⟩ := h'.widens.resolved id info' found hinfo' hfound
      obtain rfl : info'' = info₁ := by simpa [hinfo''] using hinfo₁
      exact ⟨found, htarget⟩
    · exact h'.targets node name target strong hnew id info'' (h.meanings.decls _ _ hid) hinfo''

theorem declSymbol_gives {node : Node} {symbol : SymbolId}
    (h : (declSymbol node).Gives settings s symbol s') :
    s.meanings.decls.get? node.id = some symbol ∧ s = s' := by
  simp only [declSymbol, gives_bind, gives_state, gives_require] at h
  obtain ⟨_, _, ⟨rfl, rfl⟩, hsymbol, rfl⟩ := h
  exact ⟨hsymbol, rfl⟩

theorem memberScope_state {owner : SymbolId} {scope : ScopeId}
    (h : (memberScope owner).Gives settings s scope s') : s = s' := by
  simp only [memberScope, gives_bind, gives_kindOf] at h
  obtain ⟨_, _, ⟨-, rfl⟩, h⟩ := h
  split at h
  · exact (gives_pure.mp h).2
  · exact (gives_cursor.mp h).2

theorem completes_completeType (hs : s.Sound) {decl : Decl}
    (hdecl : decl.makesType = true →
      ∃ symbol, first ≤ symbol ∧ s.meanings.decls.get? decl.node.id = some symbol)
    (h : (completeType decl).Gives settings s () s') : Completes first [decl] s s' := by
  have other {s' : CheckState} (hprepares : Prepares first s s')
      (haliases : ∀ id info', s'.tables.symbols.kind? id = some (.aliasType info') →
        ∃ info, s.tables.symbols.kind? id = some (.aliasType info))
      (hdecl : ∀ node name target strong, decl ≠ .aliasType node name target strong) :
      Completes first [decl] s s' := by
    refine ⟨hprepares, haliases, fun node name target strong hmem => ?_⟩
    exact absurd (List.mem_singleton.mp hmem).symm (hdecl node name target strong)
  cases decl with
  | func decl =>
      obtain ⟨-, rfl⟩ := gives_pure.mp h
      exact other (prepares_of_calm first (.refl hs)) (fun id info h => ⟨info, h⟩) (by simp)
  | global node binding =>
      obtain ⟨-, rfl⟩ := gives_pure.mp h
      exact other (prepares_of_calm first (.refl hs)) (fun id info h => ⟨info, h⟩) (by simp)
  | enumType node name cases =>
      obtain ⟨-, rfl⟩ := gives_pure.mp h
      exact other (prepares_of_calm first (.refl hs)) (fun id info h => ⟨info, h⟩) (by simp)
  | aliasType node name target strong =>
      simp only [completeType, gives_bind] at h
      obtain ⟨symbol, _, hsymbol, hensure⟩ := h
      obtain ⟨hfound, rfl⟩ := declSymbol_gives hsymbol
      obtain ⟨hcalm, hresolved⟩ := resolves_ensureAlias hs hensure
      refine ⟨prepares_of_calm first hcalm, hcalm.tables.aliases,
        fun node' name' target' strong' hmem id info' hid hinfo' => ?_⟩
      obtain ⟨rfl, -⟩ := Decl.aliasType.inj (List.mem_singleton.mp hmem)
      obtain rfl := Option.some.inj (hfound.symm.trans hid)
      exact hresolved info' hinfo'
  | structType node name members =>
      simp only [completeType, gives_bind] at h
      obtain ⟨owner, _, howner, scope, _, hscope, fields, s₁, hfields, hmodify⟩ := h
      obtain ⟨hfound, rfl⟩ := declSymbol_gives howner
      obtain rfl := memberScope_state hscope
      obtain ⟨symbol, hle, hsymbol⟩ := hdecl rfl
      obtain rfl := Option.some.inj (hfound.symm.trans hsymbol)
      obtain ⟨hfields, hsymbols⟩ := calm_declareFields members hs hfields
      obtain ⟨-, rfl⟩ := gives_modifyAt.mp hmodify
      refine other ((prepares_of_calm first hfields).trans
        (prepares_modifyKind hfields.sound hle (fun _ => rfl) (fun kind info => ?_) (fun _ => rfl)
          fun kind _ hsound => ?_)) (fun id info' hinfo' => ?_) (by simp)
      · cases kind <;> simp
      · cases kind with
        | structType info => exact ⟨hsound.1, hsymbols⟩
        | _ => exact hsound
      · refine (modifyKind_alias hinfo' fun kind info => ?_).elim (hfields.tables.aliases id)
        cases kind <;> simp
  | hostType node name size align fields =>
      simp only [completeType, gives_bind] at h
      obtain ⟨owner, _, howner, slots, s₁, hfields, hmodify⟩ := h
      obtain ⟨hfound, rfl⟩ := declSymbol_gives howner
      obtain ⟨symbol, hle, hsymbol⟩ := hdecl rfl
      obtain rfl := Option.some.inj (hfound.symm.trans hsymbol)
      obtain ⟨hfields, hsettled⟩ := settled_lowerHostFields fields hs hfields
      obtain ⟨-, rfl⟩ := gives_modifyAt.mp hmodify
      refine other ((prepares_of_calm first hfields).trans
        (prepares_modifyKind hfields.sound hle (fun _ => rfl) (fun kind info => ?_) (fun _ => rfl)
          fun kind _ hsound => ?_)) (fun id info' hinfo' => ?_) (by simp)
      · cases kind <;> simp
      · cases kind with
        | hostType info => exact ⟨hsound.1, hsettled⟩
        | _ => exact hsound
      · refine (modifyKind_alias hinfo' fun kind info => ?_).elim (hfields.tables.aliases id)
        cases kind <;> simp

theorem completes_forM (decls : List Decl) (hs : s.Sound)
    (hdecls : ∀ decl ∈ decls, decl.makesType = true →
      ∃ symbol, first ≤ symbol ∧ s.meanings.decls.get? decl.node.id = some symbol)
    (h : (decls.forM completeType).Gives settings s () s') : Completes first decls s s' := by
  induction decls generalizing s with
  | nil =>
      obtain rfl := gives_forM_nil.mp h
      exact ⟨prepares_of_calm first (.refl hs), fun id info h => ⟨info, h⟩, by simp⟩
  | cons decl rest ih =>
      obtain ⟨s₁, hdecl, hrest⟩ := gives_forM_cons.mp h
      have hdecl := completes_completeType hs (hdecls decl List.mem_cons_self) hdecl
      refine hdecl.append (ih hdecl.sound (fun decl' hmem hmakes => ?_) hrest)
      obtain ⟨symbol, hle, hsymbol⟩ := hdecls decl' (List.mem_cons_of_mem _ hmem) hmakes
      exact ⟨symbol, hle, hdecl.meanings.decls _ _ hsymbol⟩

/-- Once the types of a module are completed, every alias is resolved. -/
theorem complete_of_completes {decls : List Decl} {s₁ : CheckState} (hcomplete : s.tables.Complete)
    (hdeclares : DeclaresTypes first decls s s₁) (hcompletes : Completes first decls s₁ s') :
    s'.tables.Complete := by
  intro id info' hinfo'
  obtain ⟨info₁, hinfo₁⟩ := hcompletes.aliases id info' hinfo'
  rcases hdeclares.aliases id info₁ hinfo₁ with ⟨info, hinfo⟩ | ⟨node, name, target, strong, hmem, hid⟩
  · obtain ⟨target, htarget⟩ := hcomplete id info hinfo
    obtain ⟨info₂, hinfo₂, htarget'⟩ :=
      (hdeclares.widens.trans hcompletes.widens).resolved id info target hinfo htarget
    obtain rfl : info' = info₂ := by simpa [hinfo'] using hinfo₂
    exact ⟨target, htarget'⟩
  · exact hcompletes.targets node name target strong hmem id info' hid hinfo'

end Check

end Stela
