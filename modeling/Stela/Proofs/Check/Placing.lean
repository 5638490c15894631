import Stela.Check.Module
import Stela.Proofs.Check.Quiet

/-!
# Declarations in their scopes

The types and imports of a module are declared in scopes of their own or in that
of the module. No closure, function or object is declared on the way, so nothing
changes about captures.
-/

namespace Stela.Check

open CheckState

variable {settings : Settings} {s s' : CheckState} {scope place : ScopeId} {symbol : SymbolId}
  {outline : Outline} {source : SourceDecl → Prop}

/-! ## Binding -/

/-- A symbol that is no object may be bound at the cursor. -/
theorem still_declare (hs : s.Scoped) {name : Ident}
    (ho : s.tables.symbols.outline? symbol = some (place, outline))
    (hobject : ∀ info, outline ≠ .object info)
    (h : (declare name symbol).Gives settings s () s') : s.Still s' :=
  still_declareRow hs ⟨place, outline, ho, fun info heq => absurd heq (hobject info)⟩ h

/-- A symbol that is no object may be bound in any scope. -/
theorem still_declareIn (hs : s.Scoped) {span : Span} {row : Row} (hscope : scope < s.scopes.size)
    (ho : s.tables.symbols.outline? row.symbol = some (place, outline))
    (hobject : ∀ info, outline ≠ .object info)
    (h : (withCursor scope (declareRow span row)).Gives settings s () s') : s.Still s' := by
  obtain ⟨-, s₁, hdeclare, rfl⟩ := gives_withCursor.mp h
  exact Still.elsewhere hs (still_declareRow (hs.moveCursor hscope)
    ⟨place, outline, ho, fun info heq => absurd heq (hobject info)⟩ hdeclare)

/-- Details of a symbol that do not show in its outline are changed. -/
theorem quiet_modifyKind {id : SymbolId} {f : SymbolKind → SymbolKind}
    (hf : ∀ kind, (f kind).outline = kind.outline)
    (hdeclared : ∀ kind name span, (f kind).declared? name span = kind.declared? name span)
    (hdescribe : ∀ kind, (f kind).describe = kind.describe) :
    Quiet (modifyKind id f) :=
  quiet_modifyAt fun _ => rests_retouch
    (fun _ => SymbolTable.outline?_modifyKind_eq fun kind _ => hf kind)
    (fun _ => SymbolTable.declared?_modifyKind hdeclared)
    fun _ => SymbolTable.identity?_modifyKind fun kind _ => hdescribe kind

/-! ## Types -/

/-- A declared type gets a symbol at the cursor. -/
theorem still_newTypeSymbol (hs : s.Scoped) {name : Ident} {ty : SymbolId → Ty}
    {kind : TypeId → SymbolKind} (inner : Option ScopeId)
    (hkind : ∀ type, (kind type).outline = .other inner)
    (hinner : ∀ scope, inner = some scope → scope < s.scopes.size)
    (h : (newTypeSymbol name ty kind).Gives settings s symbol s') :
    s.Still s' ∧ s'.tables.symbols.outline? symbol = some (s.scopes.cursor, .other inner) := by
  simp only [newTypeSymbol, gives_bind, gives_cursor, gives_pure] at h
  obtain ⟨_, _, ⟨rfl, rfl⟩, symbol, s₁, hnew, type, s₂, hintern, _, s₃, hmodify, rfl, rfl⟩ := h
  obtain ⟨hnew, ho⟩ := still_newSymbol hs hnew hs.graph.cursor (fun scope hscope => by
    rw [hkind] at hscope
    exact hinner scope hscope) (by rw [hkind]; trivial)
  have hintern := quiet_intern.still hintern hnew.fits
  have ho₂ := hintern.symbols.kept _ _ ho
  obtain ⟨-, rfl⟩ := gives_modifyAt.mp hmodify
  have hmodify := hintern.fits.retouch (t := s₂.tables.symbols.modifyKind symbol fun _ => kind type)
    fun id => SymbolTable.outline?_modifyKind_eq fun old hold => by
      obtain ⟨place, ho'⟩ := SymbolTable.exists_of_kind? hold
      obtain ⟨-, heq⟩ := SymbolTable.outline?_inj ho' ho₂
      rw [heq, hkind, hkind]
  refine ⟨(hnew.trans hintern).trans hmodify, ?_⟩
  rw [← hkind Builtin.void.typeId]
  exact hmodify.symbols.kept _ _ ho₂

theorem keeping_newTypeSymbol {name : Ident} {ty : SymbolId → Ty} {kind : TypeId → SymbolKind}
    (hkind : ∀ type name span, (kind type).declared? name span = none) :
    Keeping source (newTypeSymbol name ty kind) := by
  have hnew {scope : ScopeId} :
      Keeping source (newSymbol name.name name.span (kind Builtin.void.typeId) scope) :=
    keeping_newSymbol fun _ hd => absurd hd (by simp [hkind])
  refine quiet_cursor.keeping.bind fun _ => hnew.bind fun symbol => quiet_intern.keeping.bind fun type =>
    Keeping.bind (fun settings s u s' h hs id declared hd => ?_) fun _ => (quiet_pure _).keeping
  obtain ⟨-, rfl⟩ := gives_modifyAt.mp h
  exact hs id declared (SymbolTable.declared?_of_modifyKind (hkind type) hd)

/-- The scope of the members of a type is made and left again. -/
theorem still_newMemberScope (hs : s.Scoped) {kind : ScopeKind} (hkind : kind ≠ .namespaceScope)
    (h : (newMemberScope kind).Gives settings s scope s') : s.Still s' ∧ scope < s'.scopes.size := by
  simp only [newMemberScope, gives_bind, gives_enterScope, gives_pure] at h
  obtain ⟨_, _, ⟨rfl, rfl⟩, _, _, hleave, rfl, rfl⟩ := h
  obtain ⟨-, rfl⟩ := gives_leaveScope.mp hleave
  have hentered := hs.enter kind none fun heq => absurd heq hkind
  refine ⟨⟨hentered.moveCursor (ScopeGraph.cursor_leave hentered.graph),
    ScopeGraph.grows_enter.trans ScopeGraph.grows_leave, ?_, .refl _, rfl, rfl, fun _ _ h => h,
    rfl⟩, ?_⟩
  · show ((s.scopes.enter kind none).parent? s.scopes.size).getD _ = s.scopes.cursor
    rw [ScopeGraph.parent?_enter_self]
    rfl
  · exact ScopeGraph.lt_size_enter

theorem still_declareCases (cases : List EnumCase) (hs : s.Scoped) {owner : SymbolId} {value : Int64}
    (hscope : scope < s.scopes.size)
    (h : (declareCases owner scope value cases).Gives settings s () s') : s.Still s' := by
  induction cases generalizing s value with
  | nil => exact (gives_pure.mp h).2 ▸ .refl hs
  | cons first rest ih =>
      simp only [declareCases, gives_bind] at h
      obtain ⟨symbol, s₁, hnew, _, s₂, hdeclare, hrest⟩ := h
      obtain ⟨hnew, ho⟩ := still_newSymbol hs hnew hscope
        (by simp [SymbolKind.outline, Outline.scope?]) trivial
      have hdeclare := still_declareIn hnew.fits (Nat.lt_of_lt_of_le hscope hnew.grows.size) ho
        (by simp [SymbolKind.outline]) hdeclare
      have hfirst := hnew.trans hdeclare
      exact hfirst.trans (ih hfirst.fits (Nat.lt_of_lt_of_le hscope hfirst.grows.size) hrest)

theorem keeping_declareCases (cases : List EnumCase) {owner : SymbolId} {scope : ScopeId} :
    ∀ value, Keeping source (declareCases owner scope value cases) := by
  induction cases with
  | nil => exact fun _ => (quiet_pure _).keeping
  | cons first rest ih =>
      exact fun value => (keeping_newSymbol fun _ hd => absurd hd (by simp [SymbolKind.declared?])).bind
        fun _ => keeping_declareRow.withCursor.bind fun _ => ih _

theorem still_bindDecl (hs : s.Scoped) {node : Node} {name : Ident}
    (ho : s.tables.symbols.outline? symbol = some (place, outline))
    (hobject : ∀ info, outline ≠ .object info)
    (h : (bindDecl node name symbol).Gives settings s () s') : s.Still s' := by
  obtain ⟨_, s₁, hset, hdeclare⟩ := gives_bind.mp h
  have hset := quiet_setDeclSymbol.still hset hs
  exact hset.trans (still_declare hset.fits (hset.symbols.kept _ _ ho) hobject hdeclare)

/-- Naming the owner of a scope changes nothing else. -/
theorem quiet_setOwner {owner : SymbolId} : Quiet (setOwner scope owner) :=
  fun _ _ _ _ hgives => (gives_setOwner.mp hgives).2 ▸
    ⟨confines_of_symbols rfl, restores_setOwner (gives_setOwner.mp hgives).1, fun hs => hs.setOwner⟩

theorem keeping_newMemberScope {kind : ScopeKind} : Keeping source (newMemberScope kind) :=
  keeping_enterScope.bind fun _ => keeping_leaveScope.bind fun _ => (quiet_pure _).keeping

theorem keeping_bindDecl {node : Node} {name : Ident} : Keeping source (bindDecl node name symbol) :=
  quiet_setDeclSymbol.keeping.bind fun _ => keeping_declareRow

theorem keeping_declareType (decl : Decl) : Keeping source (declareType decl) := by
  cases decl with
  | structType node name members =>
      exact keeping_newMemberScope.bind fun _ => (keeping_newTypeSymbol fun _ _ _ => rfl).bind fun _ =>
        quiet_setOwner.keeping.bind fun _ => keeping_bindDecl
  | enumType node name cases =>
      exact keeping_newMemberScope.bind fun _ => (keeping_newTypeSymbol fun _ _ _ => rfl).bind fun _ =>
        quiet_setOwner.keeping.bind fun _ => (keeping_declareCases cases _).bind fun _ => keeping_bindDecl
  | aliasType node name target strong =>
      exact (keeping_newTypeSymbol fun _ _ _ => rfl).bind fun _ => keeping_bindDecl
  | hostType node name size align fields =>
      exact (keeping_newTypeSymbol fun _ _ _ => rfl).bind fun _ => keeping_bindDecl
  | func decl => exact (quiet_pure _).keeping
  | global node binding => exact (quiet_pure _).keeping

/-- The details of a declared type are set where its symbol was just made. -/
theorem restoring_newTypeSymbol {name : Ident} {ty : SymbolId → Ty} {kind : TypeId → SymbolKind}
    (inner : Option ScopeId) (hkind : ∀ type, (kind type).outline = .other inner)
    (hdescribe : ∀ type type', (kind type).describe = (kind type').describe) :
    Restoring (newTypeSymbol name ty kind) := by
  intro settings s symbol s' h
  simp only [newTypeSymbol, gives_bind, gives_cursor, gives_pure] at h
  obtain ⟨_, _, ⟨rfl, rfl⟩, symbol, s₁, hnew, type, s₂, hintern, _, s₃, hmodify, rfl, rfl⟩ := h
  have hmade := (restoring_newSymbol (by rw [hkind]; exact (Option.some_ne_none _).symm)).restores hnew
  have hentered := quiet_intern.restores hintern
  obtain ⟨rfl, rfl⟩ := gives_newSymbol.mp hnew
  obtain ⟨-, rfl⟩ := gives_intern.mp hintern
  obtain ⟨-, rfl⟩ := gives_modifyAt.mp hmodify
  have hold {old : SymbolKind} (h : (s.tables.symbols.add ⟨name.name, name.span, kind Builtin.void.typeId,
      s.scopes.cursor, false, false⟩).2.kind? s.tables.symbols.size = some old) :
      old = kind Builtin.void.typeId := by
    rw [SymbolTable.kind?_add, if_pos rfl] at h
    exact (Option.some.inj h).symm
  refine (hmade.trans hentered).trans (restores_resymbol (SymbolTable.preserves_of_eq fun _ =>
    SymbolTable.identity?_modifyKind fun old h => ?_) fun _ => ?_)
  · rw [hold h, hdescribe]
  · rw [SymbolTable.state?_modifyKind fun old h => by rw [hold h, hkind, hkind]]

theorem restoring_newMemberScope {kind : ScopeKind} : Restoring (newMemberScope kind) := by
  intro settings s scope s' h
  simp only [newMemberScope, gives_bind, gives_enterScope, gives_leaveScope, gives_pure] at h
  obtain ⟨_, _, ⟨rfl, rfl⟩, _, _, ⟨-, rfl⟩, rfl, rfl⟩ := h
  exact opens_enter.leave

theorem restoring_declareCases (cases : List EnumCase) {owner : SymbolId} {scope : ScopeId} :
    ∀ value, Restoring (declareCases owner scope value cases) := by
  induction cases with
  | nil => exact fun _ => (quiet_pure _).restoring
  | cons first rest ih =>
      exact fun value => (restoring_newSymbol (by nofun)).bind fun _ =>
        restoring_declareRow.withCursor.bind fun _ => ih _

theorem restoring_bindDecl {node : Node} {name : Ident} : Restoring (bindDecl node name symbol) :=
  quiet_setDeclSymbol.restoring.bind fun _ => restoring_declareRow

theorem restoring_declareType (decl : Decl) : Restoring (declareType decl) := by
  cases decl with
  | structType node name members =>
      exact restoring_newMemberScope.bind fun _ =>
        (restoring_newTypeSymbol _ (fun _ => rfl) fun _ _ => rfl).bind fun _ =>
          quiet_setOwner.restoring.bind fun _ => restoring_bindDecl
  | enumType node name cases =>
      exact restoring_newMemberScope.bind fun _ =>
        (restoring_newTypeSymbol _ (fun _ => rfl) fun _ _ => rfl).bind fun _ =>
          quiet_setOwner.restoring.bind fun _ => (restoring_declareCases cases _).bind fun _ =>
            restoring_bindDecl
  | aliasType node name target strong =>
      exact (restoring_newTypeSymbol _ (fun _ => rfl) fun _ _ => rfl).bind fun _ => restoring_bindDecl
  | hostType node name size align fields =>
      exact (restoring_newTypeSymbol _ (fun _ => rfl) fun _ _ => rfl).bind fun _ => restoring_bindDecl
  | func decl => exact (quiet_pure _).restoring
  | global node binding => exact (quiet_pure _).restoring

theorem quiet_declareType (decl : Decl) : Quiet (declareType decl) := by
  refine quiet_of_keeping (fun _ => keeping_declareType decl) (restoring_declareType decl)
    fun settings s u s' h hs => ?_
  cases decl with
  | structType node name members =>
      simp only [declareType, gives_bind] at h
      obtain ⟨scope, s₁, hscope, symbol, s₂, hnew, _, s₃, howner, hbind⟩ := h
      obtain ⟨hscope, hlt⟩ := still_newMemberScope hs (by simp) hscope
      obtain ⟨hnew, ho⟩ := still_newTypeSymbol hscope.fits (some scope) (fun _ => rfl)
        (fun inner heq => Option.some.inj heq ▸ hlt) hnew
      have howner := quiet_setOwner.still howner hnew.fits
      exact ((hscope.trans hnew).trans howner).trans
        (still_bindDecl howner.fits (howner.symbols.kept _ _ ho) (by simp) hbind)
  | enumType node name cases =>
      simp only [declareType, gives_bind] at h
      obtain ⟨scope, s₁, hscope, symbol, s₂, hnew, _, s₃, howner, _, s₄, hcases, hbind⟩ := h
      obtain ⟨hscope, hlt⟩ := still_newMemberScope hs (by simp) hscope
      obtain ⟨hnew, ho⟩ := still_newTypeSymbol hscope.fits (some scope) (fun _ => rfl)
        (fun inner heq => Option.some.inj heq ▸ hlt) hnew
      have howner := quiet_setOwner.still howner hnew.fits
      have hcases := howner.trans (still_declareCases cases howner.fits
        (Nat.lt_of_lt_of_le hlt (hnew.trans howner).grows.size) hcases)
      exact ((hscope.trans hnew).trans hcases).trans
        (still_bindDecl hcases.fits (hcases.symbols.kept _ _ ho) (by simp) hbind)
  | aliasType node name target strong =>
      simp only [declareType, gives_bind] at h
      obtain ⟨symbol, s₁, hnew, hbind⟩ := h
      obtain ⟨hnew, ho⟩ := still_newTypeSymbol hs none (fun _ => rfl) (by simp) hnew
      exact hnew.trans (still_bindDecl hnew.fits ho (by simp) hbind)
  | hostType node name size align fields =>
      simp only [declareType, gives_bind] at h
      obtain ⟨symbol, s₁, hnew, hbind⟩ := h
      obtain ⟨hnew, ho⟩ := still_newTypeSymbol hs none (fun _ => rfl) (by simp) hnew
      exact hnew.trans (still_bindDecl hnew.fits ho (by simp) hbind)
  | func decl => exact (gives_pure.mp h).2 ▸ .refl hs
  | global node binding => exact (gives_pure.mp h).2 ▸ .refl hs

/-! ## Parts of types -/

theorem lt_size_memberScope (hs : s.Scoped) {owner : SymbolId}
    (h : (memberScope owner).Gives settings s scope s') : s = s' ∧ scope < s.scopes.size := by
  simp only [memberScope, gives_bind, gives_kindOf] at h
  obtain ⟨kind, _, ⟨hkind, rfl⟩, h⟩ := h
  split at h
  · next info =>
    obtain ⟨rfl, rfl⟩ := gives_pure.mp h
    obtain ⟨place, ho⟩ := SymbolTable.exists_of_kind? hkind
    exact ⟨rfl, (hs.symbols owner place _ ho).2 _ rfl⟩
  · obtain ⟨rfl, rfl⟩ := gives_cursor.mp h
    exact ⟨rfl, hs.graph.cursor⟩

theorem keeping_memberScope {owner : SymbolId} : Keeping source (memberScope owner) := by
  refine quiet_kindOf.keeping.bind fun _ => ?_
  split
  · exact (quiet_pure _).keeping
  · exact quiet_cursor.keeping

theorem still_declareFields (members : List Member) (hs : s.Scoped) {owner : SymbolId} {index : Nat}
    {fields : List SymbolId} (hscope : scope < s.scopes.size)
    (h : (declareFields owner scope index members).Gives settings s fields s') : s.Still s' := by
  induction members generalizing s index fields with
  | nil => exact (gives_pure.mp h).2 ▸ .refl hs
  | cons member rest ih =>
      cases member with
      | func decl => exact ih hs hscope h
      | field field =>
          simp only [declareFields, gives_bind, gives_pure] at h
          obtain ⟨type, s₁, htype, symbol, s₂, hnew, _, s₃, hdeclare, fields', _, hrest, -, rfl⟩ := h
          have htype := quiet_lowerType.still htype hs
          obtain ⟨hnew, ho⟩ := still_newSymbol htype.fits hnew
            (Nat.lt_of_lt_of_le hscope htype.grows.size)
            (by simp [SymbolKind.outline, Outline.scope?]) trivial
          have hbefore := htype.trans hnew
          have hdeclare := still_declareIn hnew.fits (Nat.lt_of_lt_of_le hscope hbefore.grows.size) ho
            (by simp [SymbolKind.outline]) hdeclare
          have hfirst := hbefore.trans hdeclare
          exact hfirst.trans (ih hfirst.fits (Nat.lt_of_lt_of_le hscope hfirst.grows.size) hrest)

theorem keeping_declareFields (members : List Member) {owner : SymbolId} {scope : ScopeId} :
    ∀ index, Keeping source (declareFields owner scope index members) := by
  induction members with
  | nil => exact fun _ => (quiet_pure _).keeping
  | cons member rest ih =>
      intro index
      cases member with
      | func decl => exact ih index
      | field field =>
          exact quiet_lowerType.keeping.bind fun _ =>
            (keeping_newSymbol fun _ hd => absurd hd (by simp [SymbolKind.declared?])).bind fun _ =>
              keeping_declareRow.withCursor.bind fun _ => (ih _).bind fun _ => (quiet_pure _).keeping

theorem restoring_memberScope {owner : SymbolId} : Restoring (memberScope owner) := by
  refine quiet_kindOf.restoring.bind fun _ => ?_
  split
  · exact (quiet_pure _).restoring
  · exact quiet_cursor.restoring

theorem restoring_declareFields (members : List Member) {owner : SymbolId} {scope : ScopeId} :
    ∀ index, Restoring (declareFields owner scope index members) := by
  induction members with
  | nil => exact fun _ => (quiet_pure _).restoring
  | cons member rest ih =>
      intro index
      cases member with
      | func decl => exact ih index
      | field field =>
          exact quiet_lowerType.restoring.bind fun _ => (restoring_newSymbol (by nofun)).bind fun _ =>
            restoring_declareRow.withCursor.bind fun _ => (ih _).bind fun _ => (quiet_pure _).restoring

theorem quiet_lowerHostFields (owner : String) (fields : List HostField) :
    ∀ seen, Quiet (lowerHostFields owner seen fields) := by
  induction fields with
  | nil => exact fun _ => quiet_pure _
  | cons field rest ih =>
      intro seen
      have hrest : Quiet (do
          let type ← lowerType field.type
          let rest ← lowerHostFields owner (field.name.name :: seen) rest
          return ⟨field.name.name, type, field.offset⟩ :: rest) :=
        quiet_lowerType.bind fun _ => (ih _).bind fun _ => quiet_pure _
      exact .ite (quiet_raise.bind fun _ => hrest) hrest

theorem quiet_declSymbol {node : Node} : Quiet (declSymbol node) :=
  quiet_state.bind fun _ => quiet_require

/-- The fields of a struct are declared in its own scope. -/
theorem quiet_declareMembers (members : List Member) {owner : SymbolId}
    {last : List SymbolId → Check Unit} (hlast : ∀ fields, Quiet (last fields)) : Quiet (do
      let fields ← declareFields owner (← memberScope owner) 0 members
      last fields) := by
  refine quiet_of_keeping (fun source => ?_) ?_ fun settings s u s' h hs => ?_
  · exact keeping_memberScope.bind fun _ => (keeping_declareFields members _).bind fun fields =>
      (hlast fields).keeping
  · exact restoring_memberScope.bind fun _ => (restoring_declareFields members _).bind fun fields =>
      (hlast fields).restoring
  · simp only [gives_bind] at h
    obtain ⟨scope, _, hscope, fields, s₁, hfields, hchange⟩ := h
    obtain ⟨rfl, hlt⟩ := lt_size_memberScope hs hscope
    have hfields := still_declareFields members hs hlt hfields
    exact hfields.trans ((hlast fields).still hchange hfields.fits)

theorem quiet_completeType (decl : Decl) : Quiet (completeType decl) := by
  cases decl with
  | structType node name members =>
      refine quiet_declSymbol.bind fun owner => quiet_declareMembers members fun fields =>
        quiet_modifyKind (fun kind => ?_) (fun kind _ _ => ?_) fun kind => ?_
      all_goals split <;> rfl
  | aliasType node name target strong => exact quiet_declSymbol.bind fun owner => quiet_ensureAlias owner
  | hostType node name size align fields =>
      refine quiet_declSymbol.bind fun owner => (quiet_lowerHostFields _ _ _).bind fun fields =>
        quiet_modifyKind (fun kind => ?_) (fun kind _ _ => ?_) fun kind => ?_
      all_goals split <;> rfl
  | func decl => exact quiet_pure _
  | enumType node name cases => exact quiet_pure _
  | global node binding => exact quiet_pure _

/-! ## Modules -/

/-- Imports are found in the order in which they are named, all of them modules. -/
theorem still_declareImports (importer : String) (names : List Ident) (hs : s.Scoped)
    {seen scopes : List ScopeId} (hscope : scope < s.scopes.size)
    (hseen : ∀ i ∈ seen, s.scopes.kind? i = some .namespaceScope)
    (h : (declareImports importer scope seen names).Gives settings s scopes s') :
    s.Still s' ∧ ∀ i ∈ scopes, s'.scopes.kind? i = some .namespaceScope := by
  induction names generalizing s seen with
  | nil =>
      obtain ⟨rfl, rfl⟩ := gives_pure.mp h
      exact ⟨.refl hs, hseen⟩
  | cons name rest ih =>
      simp only [declareImports, gives_bind, gives_state] at h
      obtain ⟨_, _, ⟨rfl, rfl⟩, h⟩ := h
      split at h
      · exact absurd h gives_raise
      · next target htarget =>
        have hfits := hs.modules target (List.mem_of_find?_eq_some htarget)
        rw [gives_ite] at h
        split at h
        · exact ih hs hscope hseen h
        · obtain ⟨_, s₁, hdeclare, hrest⟩ := gives_bind.mp h
          obtain ⟨place, inner, ho⟩ := hfits.symbol
          have hdeclare := still_declareIn hs hscope ho (by simp) hdeclare
          have hkeeps (i : ScopeId) (hi : s.scopes.kind? i = some .namespaceScope) :
              s₁.scopes.kind? i = some .namespaceScope := by
            obtain ⟨entry, hentry, -⟩ := Option.map_eq_some_iff.mp hi
            rw [hdeclare.grows.kinds i (ScopeGraph.lt_size_of_get? hentry), hi]
          obtain ⟨hrest, hscopes⟩ := ih hdeclare.fits (Nat.lt_of_lt_of_le hscope hdeclare.grows.size)
            (fun i hi => by
              rcases List.mem_append.mp hi with hold | hnew
              · exact hkeeps i (hseen i hold)
              · exact List.mem_singleton.mp hnew ▸ hkeeps _ hfits.scope) hrest
          exact ⟨hdeclare.trans hrest, hscopes⟩

/-- The scope of a module lies in the root scope. -/
theorem still_enterModule (hs : s.Scoped)
    (h : (withCursor ScopeGraph.root (enterScope .namespaceScope none)).Gives settings s scope s') :
    s.Still s' ∧ s'.scopes.kind? scope = some .namespaceScope := by
  obtain ⟨-, s₁, henter, rfl⟩ := gives_withCursor.mp h
  obtain ⟨rfl, rfl⟩ := gives_enterScope.mp henter
  have hroot : ScopeGraph.root < s.scopes.size := Nat.zero_lt_of_lt hs.graph.cursor
  have hentered := (hs.moveCursor hroot).enter .namespaceScope none
    fun _ => hs.graph.root
  refine ⟨⟨hentered.moveCursor ?_, ScopeGraph.grows_setCursor.trans
    (ScopeGraph.grows_enter.trans ScopeGraph.grows_setCursor), rfl, .refl _, rfl, rfl, fun _ _ h => h,
    rfl⟩, ?_⟩
  · exact Nat.lt_of_lt_of_le hs.graph.cursor
      (ScopeGraph.grows_enter (g := s.scopes.setCursor ScopeGraph.root)).size
  · exact ScopeGraph.kind?_enter_self (g := s.scopes.setCursor ScopeGraph.root)

/-- The symbol, the scope and the imports of a module are found, and then it is entered. -/
theorem still_declareModule (hs : s.Scoped) {m : Module}
    (h : (declareModule m).Gives settings s scope s') : ∃ s₁ entry, s.Still s₁ ∧
      scope < s₁.scopes.size ∧ entry.name = m.name.name ∧ s₁.ModuleFits entry ∧
      { s₁ with modules := s₁.modules ++ [entry] } = s' := by
  simp only [declareModule, gives_bind, gives_state] at h
  obtain ⟨_, _, ⟨rfl, rfl⟩, h⟩ := h
  rw [gives_ite] at h
  split at h
  · obtain ⟨_, _, hraise, -⟩ := gives_bind.mp h
    exact absurd hraise gives_raise
  · simp only [gives_bind, gives_update, gives_pure] at h
    obtain ⟨scope', s₁, henter, symbol, s₂, hnew, _, s₃, howner, imports, s₄, himports, _, _, rfl, rfl,
      rfl⟩ := h
    obtain ⟨henter, hkind⟩ := still_enterModule hs henter
    have hroot : ScopeGraph.root < s₁.scopes.size := Nat.zero_lt_of_lt henter.fits.graph.cursor
    obtain ⟨entry, hentry, -⟩ := Option.map_eq_some_iff.mp hkind
    have hlt := ScopeGraph.lt_size_of_get? hentry
    obtain ⟨hnew, ho⟩ := still_newSymbol henter.fits hnew hroot
      (fun inner hinner => Option.some.inj hinner ▸ hlt) trivial
    have howner := quiet_setOwner.still howner hnew.fits
    have hbefore := hnew.trans howner
    obtain ⟨himports, hscopes⟩ := still_declareImports _ _ howner.fits
      (Nat.lt_of_lt_of_le hlt hbefore.grows.size) (by simp) himports
    have hafter := hbefore.trans himports
    exact ⟨s₄, _, henter.trans hafter, Nat.lt_of_lt_of_le hlt hafter.grows.size, rfl,
      ⟨(hafter.grows.kinds _ hlt).trans hkind, hscopes, _, _,
        (howner.trans himports).symbols.kept _ _ ho⟩, rfl⟩

theorem quiet_markExternal {first : SymbolId} : Quiet (markExternal first) := by
  have mark (id : SymbolId) (ids : List SymbolId) (t : SymbolTable) : (ids.foldl
      (fun t id => t.modify id fun symbol => { symbol with external := true }) t).outline? id =
        t.outline? id ∧ (ids.foldl
      (fun t id => t.modify id fun symbol => { symbol with external := true }) t).declared? id =
        t.declared? id ∧ (ids.foldl
      (fun t id => t.modify id fun symbol => { symbol with external := true }) t).identity? id =
        t.identity? id := by
    induction ids generalizing t with
    | nil => exact ⟨rfl, rfl, rfl⟩
    | cons other rest ih =>
        obtain ⟨houtline, hdeclared, hidentity⟩ :=
          ih (t.modify other fun symbol => { symbol with external := true })
        exact ⟨houtline.trans (SymbolTable.outline?_modify_eq (fun _ => rfl) fun _ _ => rfl),
          hdeclared.trans (SymbolTable.declared?_modify fun _ => rfl),
          hidentity.trans (SymbolTable.identity?_modify fun _ _ => rfl)⟩
  exact quiet_update fun s => rests_retouch (fun id => (mark id _ _).1) (fun id => (mark id _ _).2.1)
    fun id => (mark id _ _).2.2

theorem quiet_warnUnused : Quiet warnUnused :=
  quiet_settings.bind fun _ => .ite (quiet_tables.bind fun _ =>
    quiet_update fun _ => rests_aside rfl rfl rfl rfl rfl rfl (.refl _)) (quiet_pure _)

/-! ## The start -/

theorem scoped_nothing {meanings : Meanings} : CheckState.Scoped { meanings := meanings } := by
  refine ⟨ScopeGraph.sound_initial, fun id place outline ho => ?_, fun scope name id hid => ?_, nofun⟩
  · exact absurd (SymbolTable.lt_size_of_outline? ho) (Nat.not_lt_zero _)
  · have hlt := ScopeGraph.lt_size_of_entries hid
    obtain rfl : scope = 0 := Nat.lt_one_iff.mp hlt
    exact absurd hid (by simp [ScopeGraph.initial, ScopeGraph.entries, ScopeGraph.get?, Scope.entries])

theorem still_addBuiltin (hs : s.Scoped) (name : String) {kind : SymbolKind}
    (hkind : kind.outline = .other none) : s.Still (s.addBuiltin name kind) := by
  have hroot : ScopeGraph.root < s.scopes.size := Nat.zero_lt_of_lt hs.graph.cursor
  have hadded := hs.add { name := name, span := .dummy, kind := kind, scope := ScopeGraph.root } hroot
    (by simp [hkind, Outline.scope?]) (by rw [hkind]; trivial)
  unfold CheckState.addBuiltin
  dsimp only
  split
  · next hidden g hinsert =>
    refine hadded.trans (hadded.fits.insert hinsert ⟨ScopeGraph.root, .other none, ?_, by simp⟩)
    exact SymbolTable.sets_add.self.trans (by rw [hkind])
  · exact hadded

theorem still_initial {meanings : Meanings} :
    CheckState.Still { meanings := meanings } (.initial meanings) := by
  have add {α : Type} (all : List α) (name : α → String) (kind : α → SymbolKind)
      (hkind : ∀ a, (kind a).outline = .other none) (s : CheckState) (hs : s.Scoped) :
      s.Still (all.foldl (fun s a => s.addBuiltin (name a) (kind a)) s) := by
    induction all generalizing s with
    | nil => exact .refl hs
    | cons a rest ih =>
        have hfirst := still_addBuiltin hs (name a) (hkind a)
        exact hfirst.trans (ih _ hfirst.fits)
  have htypes := add Builtin.all Builtin.name .builtinType (fun _ => rfl)
    { meanings := meanings } scoped_nothing
  exact htypes.trans (add BuiltinFunc.all BuiltinFunc.name .builtinFunc (fun _ => rfl) _ htypes.fits)

end Stela.Check
