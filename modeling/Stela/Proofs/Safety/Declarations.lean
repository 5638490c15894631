import Stela.Proofs.Check.Declaring
import Stela.Proofs.Safety.Functions

/-!
# Declarations

The types of a module are declared, then their parts and its functions. Each of
these passes gives meaning to nodes of its own, so what is left of a declaration
stays free until its pass comes.
-/

namespace Stela

/-! ## Keys of the passes -/

def Member.fieldKeys : Member → List NodeKey
  | .field decl => decl.type.keys
  | .func _ => []

def Member.funcKeys : Member → List NodeKey
  | .field _ => []
  | .func decl => decl.keys

namespace Decl

/-- The nodes that get a meaning, or are left to a symbol, when a type is declared. -/
def typeKeys : Decl → List NodeKey
  | .structType node .. | .enumType node .. | .hostType node .. => [.node .decl node.id]
  | .aliasType node _ target _ => target.keys ++ [.node .decl node.id]
  | .func _ | .global .. => []

/-- The nodes that get a meaning when a type is completed. -/
def partKeys : Decl → List NodeKey
  | .structType _ _ members => members.flatMap Member.fieldKeys
  | .hostType _ _ _ _ fields => fields.flatMap fun field => field.type.keys
  | _ => []

/-- The nodes of functions, which get their meanings when they are declared or analyzed. -/
def funcKeys : Decl → List NodeKey
  | .func decl => decl.keys
  | .structType _ _ members => members.flatMap Member.funcKeys
  | _ => []

/-- The nodes that get a meaning when a variable is analyzed. -/
def globalKeys : Decl → List NodeKey
  | .global node binding => binding.keys ++ [.node .decl node.id]
  | _ => []

/-- Every node of a declaration belongs to one of the passes. -/
theorem keys_perm (decl : Decl) : decl.keys.Perm
    (decl.typeKeys ++ (decl.partKeys ++ (decl.funcKeys ++ decl.globalKeys))) := by
  cases decl with
  | structType node name members =>
      have hmember : Member.keys = fun member => member.fieldKeys ++ member.funcKeys := by
        funext member
        cases member with
        | field decl => exact (List.append_nil _).symm
        | func decl => rfl
      have hmembers : (members.flatMap Member.keys).Perm
          (members.flatMap Member.fieldKeys ++ members.flatMap Member.funcKeys) :=
        hmember ▸ (List.flatMap_append_perm members _ _).symm
      simp only [keys, typeKeys, partKeys, funcKeys, globalKeys, List.append_nil]
      exact (hmembers.append_right _).trans List.perm_append_comm
  | hostType node name size align fields =>
      simp only [keys, typeKeys, partKeys, funcKeys, globalKeys, List.append_nil]
      exact List.perm_append_comm
  | _ => simp [keys, typeKeys, partKeys, funcKeys, globalKeys]

theorem keys_perm_of_list (decls : List Decl) : (decls.flatMap keys).Perm
    (decls.flatMap typeKeys ++ (decls.flatMap partKeys ++
      (decls.flatMap funcKeys ++ decls.flatMap globalKeys))) := by
  have split (f g : Decl → List NodeKey) :
      (decls.flatMap fun decl => f decl ++ g decl).Perm (decls.flatMap f ++ decls.flatMap g) :=
    (List.flatMap_append_perm decls f g).symm
  refine (List.Perm.flatMap_left decls fun decl _ => decl.keys_perm).trans ?_
  refine (split _ _).trans ((List.Perm.append_left _ ?_))
  exact (split _ _).trans ((split _ _).append_left _)

end Decl

namespace CheckState

variable {s s' : CheckState} {own : List NodeKey}

/-- The declaration of a type means a type. -/
def Introduced (s : CheckState) (decl : Decl) : Prop := decl.makesType = true →
  ∃ id, s.meanings.decls.get? decl.node.id = some id ∧ s.tables.symbols.IsType id

theorem Introduced.mono {decl : Decl} (h : Follows own s s') (hdecl : s.Introduced decl) :
    s'.Introduced decl := fun hmakes => by
  obtain ⟨id, hid, htype⟩ := hdecl hmakes
  exact ⟨id, h.decls _ id hid, h.isType htype⟩

end CheckState

namespace Check

open CheckState

variable {n bound : Nat} {own keys : List NodeKey} {s s' : CheckState} {name : Ident} {node : Node}

/-- A step for each of some items, to which nodes of their own belong. -/
theorem Fares.forM {α : Type} {f : α → Check Unit} {keys : α → List NodeKey}
    {P : α → CheckState → Prop}
    (hmono : ∀ item own s s', Follows own s s' → P item s → P item s') :
    ∀ (items : List α) (s : CheckState), s.Free n (items.flatMap keys) →
    (∀ item ∈ items, ∀ own s₁, Follows own s s₁ → s₁.Free n (keys item) →
      Fares n bound (keys item) (f item) s₁ fun _ s' => P item s') →
    Fares n bound (items.flatMap keys) (items.forM f) s fun _ s' => ∀ item ∈ items, P item s' := by
  intro items
  induction items with
  | nil => exact fun s _ _ => .pure fun _ => by simp
  | cons item rest ih =>
      intro s hfree hf
      rw [List.flatMap_cons] at hfree ⊢
      refine .bind (hf item List.mem_cons_self [] s (.refl s) hfree.left) (List.subset_append_left _ _)
        fun _ s₁ h hitem => ?_
      refine Fares.widen (Fares.imp (ih s₁ (hfree.right h.toFollows) fun other hother own s₂ h' => ?_) ?_)
        (List.subset_append_right _ _)
      · have hfirst : Follows (keys item ++ own) s s₁ := h.toFollows.widen (List.subset_append_left _ _)
        exact hf other (List.mem_cons_of_mem _ hother) _ s₂
          (hfirst.trans (h'.widen (List.subset_append_right _ _)))
      · exact fun _ s₂ h' hrest => List.forall_mem_cons.mpr ⟨hmono item _ s₁ s₂ h'.toFollows hitem, hrest⟩

/-! ## Declaring types -/

/-- A new symbol may have the duty to give meaning to nodes that are free. -/
theorem fares_newSymbol {text : String} {span : Span} {kind : SymbolKind} {scope : ScopeId}
    (hkind : kind.Inside s.extent s.tables.symbols.size) (hscope : scope < s.scopes.size)
    (hfree : s.Free n keys)
    (hduty : ∀ duty, kind.duty? = some duty → duty.decl = none ∧ duty.keys = keys) :
    Fares n bound keys (newSymbol text span kind scope) s fun id s' =>
      s'.tables.symbols.kind? id = some kind := by
  intro hs _
  let entry : Symbol := { name := text, span, kind, scope }
  have hproceeds : Proceeds n keys s { s with tables.symbols := (s.tables.symbols.add entry).2 } := by
    refine proceeds_add hs hkind hscope hfree.unpromised (fun duty h => ?_)
      (hs.closed.meanings.mono (adds_symbol hkind hscope).extent) (fun _ h _ => h) rfl (fun _ _ h => h)
    obtain ⟨hdecl, rfl⟩ := hduty duty h
    exact ⟨hfree, fun key hkey => ⟨hkey, hfree.vacant key hkey⟩, by simp [hdecl]⟩
  exact ⟨hproceeds, SymbolTable.kind?_add.trans (if_pos rfl)⟩

/-- The type with a number stands behind resolved aliases only, or is the given one. -/
def Names (s : CheckState) (type : TypeId) (ty : Ty) : Prop :=
  s.tables.Grounded type ∨ s.tables.types.get? type = some ty

theorem Names.grounded {type : TypeId} {ty : Ty} (h : Names s type ty)
    (hplain : ∀ symbol, ty ≠ .aliasType symbol) : s.tables.Grounded type :=
  h.elim (fun hgrounded => hgrounded) fun htype => .plain htype hplain

/-- The details of a type whose own number is known in the end. -/
structure Types (e : Extent) (ty : SymbolId → Ty) (kind : TypeId → SymbolKind) : Prop where
  insideTy : ∀ e' id, e.Le e' → id < e'.symbols → (ty id).Inside e'
  insideKind : ∀ s id type, e.Le s.extent → Names s type (ty id) → (kind type).Inside s.extent id
  isType : ∀ type, (kind type).isType = true
  duty : ∀ type type', (kind type).duty? = (kind type').duty?
  unresolved : ∀ type info, kind type = .aliasType info → ∃ written, info.target = .unresolved written

theorem fares_newTypeSymbol {ty : SymbolId → Ty} {kind : TypeId → SymbolKind}
    (htypes : Types s.extent ty kind) (hfree : s.Free n keys)
    (hduty : ∀ type duty, (kind type).duty? = some duty → duty.decl = none ∧ duty.keys = keys) :
    Fares n bound keys (newTypeSymbol name ty kind) s fun symbol s' =>
      s'.tables.symbols.IsType symbol := by
  unfold newTypeSymbol
  refine .of_ready fun hs => .cursor (.bind (fares_newSymbol (htypes.insideKind s _ _ (.refl _)
    (.inl (hs.closed.builtinTypes .void))) hs.closed.cursor hfree (hduty _)) (List.Subset.refl _)
    fun symbol s₁ h hkind => ?_)
  refine .bind (safe_enterType _ (htypes.insideTy _ _ h.extent (SymbolTable.lt_size_of_kind? hkind)))
    (List.nil_subset _) ?_
  rintro type s₂ h' ⟨-, htype, hsymbols⟩
  rw [← hsymbols] at hkind
  refine .bind (safe_modifyKind (SymbolTable.lt_size_of_kind? hkind) (fun hs₂ kind' hkind' => ?_)
    fun kind' hkind' hresolving => ?_) (List.nil_subset _) ?_
  · obtain rfl := Option.some.inj (hkind.symm.trans hkind')
    refine ⟨⟨fun _ => htypes.isType type, fun info heq => ?_, fun duty hduty => ?_,
      fun info target heq htarget => ?_⟩, htypes.insideKind s₂ _ _ (h.extent.trans h'.extent) (.inr htype)⟩
    · have := htypes.isType Builtin.void.typeId
      rw [heq] at this
      cases this
    · rw [htypes.duty _ type]
      exact hduty
    · obtain ⟨written, hwritten⟩ := htypes.unresolved _ info heq
      cases hwritten.symm.trans htarget
  · obtain rfl := Option.some.inj (hkind.symm.trans hkind')
    obtain ⟨info, heq, htarget⟩ := hresolving
    obtain ⟨written, hwritten⟩ := htypes.unresolved _ info heq
    cases hwritten.symm.trans htarget
  · rintro _ _ - ⟨-, rfl⟩
    exact .pure fun _ => ⟨_, SymbolTable.kind?_modifyKind_of hkind, htypes.isType type⟩

theorem safe_newMemberScope {kind : ScopeKind} :
    Safe n bound [] (newMemberScope kind) s fun scope s' => scope < s'.scopes.size := by
  unfold newMemberScope
  refine Safe.step (safe_enterScope (by simp)) fun scope s₁ _ hscope => ?_
  exact Safe.step safe_leaveScope fun _ s₂ h _ => Safe.pure fun _ => h.scope_lt hscope

theorem safe_declareCases {owner : SymbolId} {scope : ScopeId} : ∀ (cases : List EnumCase)
    (next : Int64) (s : CheckState), owner < s.tables.symbols.size → scope < s.scopes.size →
    Safe n bound [] (declareCases owner scope next cases) s fun _ _ => True := by
  intro cases
  induction cases with
  | nil => exact fun _ _ _ _ => Safe.pure fun _ => trivial
  | cons enumCase rest ih =>
      intro next s howner hscope
      unfold declareCases
      refine Safe.step (safe_newSymbol howner hscope rfl) ?_
      rintro symbol s₁ h ⟨-, hkind⟩
      have hsymbol := SymbolTable.lt_size_of_kind? hkind
      refine Safe.step (P := fun _ _ => True) (Safe.withCursor (h.scope_lt hscope) fun s₂ h' =>
        safe_declare (h'.symbol_lt hsymbol)) fun _ s₂ h' _ => ?_
      exact ih _ s₂ (h'.symbol_lt (h.symbol_lt howner)) (h'.scope_lt (h.scope_lt hscope))

theorem safe_bindDecl {symbol : SymbolId} (hsymbol : s.tables.symbols.IsType symbol)
    (hfree : s.Free n [.node .decl node.id]) :
    Safe n bound [.node .decl node.id] (bindDecl node name symbol) s fun _ s' =>
      ∃ id, s'.meanings.decls.get? node.id = some id ∧ s'.tables.symbols.IsType id := by
  unfold bindDecl
  refine Safe.bind (safe_setDeclSymbol hsymbol.lt_size hfree) (List.Subset.refl _)
    fun _ s₁ h hnode => ?_
  have hsymbol := h.isType hsymbol
  refine Safe.widen (Safe.imp (safe_declare hsymbol.lt_size) fun _ s₂ h' _ => ?_) (List.nil_subset _)
  exact ⟨symbol, h'.decls _ _ hnode, h'.isType hsymbol⟩

/-- Declaring a type leaves its parts, and the target of an alias to the alias. -/
theorem fares_declareType (decl : Decl) (hfree : s.Free n decl.typeKeys) :
    Fares n bound decl.typeKeys (declareType decl) s fun _ s' => s'.Introduced decl := by
  cases decl with
  | structType node name members =>
      refine .bind safe_newMemberScope (List.nil_subset _) ?_
      rintro scope s₁ h ⟨-, hscope⟩
      refine .bind (fares_newTypeSymbol ⟨fun e id _ hid => hid, ?_, fun _ => rfl, fun _ _ => rfl, by simp⟩
        .nil (by simp [SymbolKind.duty?])) (List.nil_subset _) fun symbol s₂ h' hsymbol => ?_
      · exact fun s id type hle htype =>
          ⟨Nat.lt_of_lt_of_le hscope hle.scopes, by simp, htype.grounded (by simp)⟩
      · refine .bind (safe_setOwner (h'.scope_lt hscope) hsymbol.lt_size) (List.nil_subset _)
          fun _ s₃ h'' _ => ?_
        have hfree := ((hfree.still h.toFollows).still h'.toFollows).still h''.toFollows
        exact Fares.imp (safe_bindDecl (h''.isType hsymbol) hfree) fun _ _ _ hbound _ => hbound.2
  | enumType node name cases =>
      refine .bind safe_newMemberScope (List.nil_subset _) ?_
      rintro scope s₁ h ⟨-, hscope⟩
      refine .bind (fares_newTypeSymbol ⟨fun e id _ hid => hid, ?_, fun _ => rfl, fun _ _ => rfl, by simp⟩
        .nil (by simp [SymbolKind.duty?])) (List.nil_subset _) fun symbol s₂ h' hsymbol => ?_
      · exact fun s id type hle htype =>
          ⟨Nat.lt_of_lt_of_le hscope hle.scopes, htype.grounded (by simp)⟩
      · refine .bind (safe_setOwner (h'.scope_lt hscope) hsymbol.lt_size) (List.nil_subset _)
          fun _ s₃ h₃ _ => ?_
        have hsymbol := h₃.isType hsymbol
        refine .bind (safe_declareCases cases 0 s₃ hsymbol.lt_size
          (h₃.scope_lt (h'.scope_lt hscope))) (List.nil_subset _) fun _ s₄ h₄ _ => ?_
        have hfree := (((hfree.still h.toFollows).still h'.toFollows).still h₃.toFollows).still h₄.toFollows
        exact Fares.imp (safe_bindDecl (h₄.isType hsymbol) hfree) fun _ _ _ hbound _ => hbound.2
  | aliasType node name target strong =>
      refine .bind (fares_newTypeSymbol ⟨fun e id _ hid => hid, ?_, fun _ => rfl, fun _ _ => rfl, ?_⟩
        hfree.left ?_) (List.subset_append_left _ _) fun symbol s₁ h hsymbol => ?_
      · exact fun s id type _ htype => ⟨htype, by simp [AliasInfo.target?]⟩
      · exact fun type info heq => ⟨target, SymbolKind.aliasType.inj heq ▸ rfl⟩
      · simp [SymbolKind.duty?]
      · have hfree := hfree.right h.toFollows
        exact Fares.widen (Fares.imp (safe_bindDecl hsymbol hfree) fun _ _ _ hbound _ => hbound.2)
          (List.subset_append_right _ _)
  | hostType node name size align fields =>
      refine .bind (fares_newTypeSymbol ⟨fun e id _ hid => hid, ?_, fun _ => rfl, fun _ _ => rfl, by simp⟩
        .nil (by simp [SymbolKind.duty?])) (List.nil_subset _) fun symbol s₁ h hsymbol => ?_
      · exact fun s id type _ htype => ⟨by simp, htype.grounded (by simp)⟩
      · exact Fares.imp (safe_bindDecl hsymbol (hfree.still h.toFollows)) fun _ _ _ hbound _ => hbound.2
  | func decl => exact .pure fun _ hmakes => by cases hmakes
  | global node binding => exact .pure fun _ hmakes => by cases hmakes

/-! ## Completing types -/

/-- A type that was declared is found under its declaration. -/
theorem Fares.declSymbol {β : Type} {decl : Decl} {f : SymbolId → Check β} {R : β → CheckState → Prop}
    (hdecl : s.Introduced decl) (hmakes : decl.makesType = true) (hnode : decl.node = node)
    (h : ∀ id, s.tables.symbols.IsType id → Fares n bound own (f id) s R) :
    Fares n bound own (Check.declSymbol node >>= f) s R := by
  obtain ⟨id, hid, htype⟩ := hdecl hmakes
  rw [hnode] at hid
  refine .gives (x := id) (fun settings => ?_) (h id htype)
  exact gives_bind.mpr ⟨s, s, gives_state.mpr ⟨rfl, rfl⟩, gives_require.mpr ⟨hid, rfl⟩⟩

theorem Fares.memberScope {β : Type} {owner : SymbolId} {f : ScopeId → Check β}
    {R : β → CheckState → Prop} (howner : owner < s.tables.symbols.size)
    (h : ∀ scope, scope < s.scopes.size → Fares n bound own (f scope) s R) :
    Fares n bound own (Check.memberScope owner >>= f) s R := by
  unfold Check.memberScope
  rw [Check.bind_bind]
  refine .of_ready fun hs => .kindOf howner fun kind hkind => ?_
  split
  · exact h _ (hs.closed.kind_inside hkind).1
  · exact .cursor (h _ hs.closed.cursor)

theorem safe_declareFields {owner : SymbolId} {scope : ScopeId} : ∀ (members : List Member)
    (index : Nat) (s : CheckState), owner < s.tables.symbols.size → scope < s.scopes.size →
    s.Free n (members.flatMap Member.fieldKeys) →
    Safe n bound (members.flatMap Member.fieldKeys) (declareFields owner scope index members) s
      fun fields s' => ∀ field ∈ fields, field < s'.tables.symbols.size := by
  intro members
  induction members with
  | nil => exact fun _ _ _ _ _ => Safe.pure fun _ => by simp
  | cons member rest ih =>
      intro index s howner hscope hfree
      cases member with
      | func decl => exact ih index s howner hscope hfree
      | field field =>
          rw [List.flatMap_cons] at hfree ⊢
          refine Safe.bind (safe_lowerType hfree.left) (List.subset_append_left _ _)
            fun type s₁ h htype => Safe.widen ?_ (List.subset_append_right _ _)
          have howner := h.symbol_lt howner
          have hscope := h.scope_lt hscope
          refine Safe.step (safe_newSymbol ⟨howner, htype⟩ hscope rfl) ?_
          rintro symbol s₂ h' ⟨-, hkind⟩
          have hsymbol := SymbolTable.lt_size_of_kind? hkind
          refine Safe.step (P := fun _ _ => True) (Safe.withCursor (h'.scope_lt hscope) fun s₃ h'' =>
            safe_declareRow (h''.symbol_lt hsymbol)) fun _ s₃ h'' _ => ?_
          have hfree := ((hfree.right h.toFollows).still h'.toFollows).still h''.toFollows
          refine Safe.bind (ih (index + 1) s₃ (h''.symbol_lt (h'.symbol_lt howner))
            (h''.scope_lt (h'.scope_lt hscope)) hfree) (List.Subset.refl _)
            fun fields s₄ h₄ hfields => Safe.pure fun _ => ?_
          exact List.forall_mem_cons.mpr ⟨h₄.symbol_lt (h''.symbol_lt hsymbol), hfields⟩

theorem safe_lowerHostFields {owner : String} : ∀ (fields : List HostField) (seen : List String)
    (s : CheckState), s.Free n (fields.flatMap fun field => field.type.keys) →
    Safe n bound (fields.flatMap fun field => field.type.keys) (lowerHostFields owner seen fields) s
      fun slots s' => ∀ slot ∈ slots, slot.type < s'.tables.types.size := by
  intro fields
  induction fields with
  | nil => exact fun _ _ _ => Safe.pure fun _ => by simp
  | cons field rest ih =>
      intro seen s hfree
      rw [List.flatMap_cons] at hfree ⊢
      unfold lowerHostFields
      dsimp only
      split
      · exact Fares.raise_bind
      · refine Safe.bind (safe_lowerType hfree.left) (List.subset_append_left _ _)
          fun type s₁ h htype => ?_
        refine Safe.bind (ih _ s₁ (hfree.right h.toFollows)) (List.subset_append_right _ _)
          fun slots s₂ h' hslots => Safe.pure fun _ => ?_
        exact List.forall_mem_cons.mpr ⟨h'.type_lt htype, hslots⟩

/-- A type that was declared is completed. -/
theorem fares_completeType (decl : Decl) (hdecl : s.Introduced decl) (hfree : s.Free n decl.partKeys) :
    Fares n bound decl.partKeys (completeType decl) s fun _ _ => True := by
  cases decl with
  | aliasType node name target strong =>
      refine .declSymbol hdecl rfl rfl fun id htype => ?_
      exact Fares.imp (safe_ensureAlias htype.lt_size) fun _ _ _ _ => trivial
  | structType node name members =>
      refine .declSymbol hdecl rfl rfl fun owner htype => .memberScope htype.lt_size fun scope hscope => ?_
      refine Fares.bind (safe_declareFields members 0 s htype.lt_size hscope hfree)
        (List.Subset.refl _) ?_
      rintro fields s₁ h ⟨-, hfields⟩
      refine Fares.widen (Fares.imp (safe_modifyKind (h.symbol_lt htype.lt_size)
        (fun hs kind hkind => ?_) fun kind _ hresolving => ?_) fun _ _ _ _ => trivial) (List.nil_subset _)
      · have hinside := hs.closed.kind_inside hkind
        split
        · exact ⟨⟨fun h => h, by simp, fun _ h => h, by simp⟩, hinside.1, hfields, hinside.2.2⟩
        · exact ⟨.refl _, hinside⟩
      · obtain ⟨info, rfl, htarget⟩ := hresolving
        exact ⟨info, rfl, htarget⟩
  | hostType node name size align fields =>
      refine .declSymbol hdecl rfl rfl fun symbol htype => ?_
      refine Fares.bind (safe_lowerHostFields fields [] s hfree) (List.Subset.refl _) ?_
      rintro slots s₁ h ⟨-, hslots⟩
      refine Fares.widen (Fares.imp (safe_modifyKind (h.symbol_lt htype.lt_size)
        (fun hs kind hkind => ?_) fun kind _ hresolving => ?_) fun _ _ _ _ => trivial) (List.nil_subset _)
      · have hinside := hs.closed.kind_inside hkind
        split
        · exact ⟨⟨fun h => h, by simp, fun _ h => h, by simp⟩, hslots, hinside.2⟩
        · exact ⟨.refl _, hinside⟩
      · obtain ⟨info, rfl, htarget⟩ := hresolving
        exact ⟨info, rfl, htarget⟩
  | _ => exact .pure fun _ => trivial

/-! ## Declaring functions -/

theorem fares_declareMethods {owner : SymbolId} {scope : ScopeId} : ∀ (members : List Member)
    (s : CheckState), s.tables.symbols.IsType owner → scope < s.scopes.size →
    s.Free n (members.flatMap Member.funcKeys) →
    Fares n bound (members.flatMap Member.funcKeys) (declareMethods owner scope members) s
      fun funcs s' => ∀ func ∈ funcs, func < s'.tables.symbols.size := by
  intro members
  induction members with
  | nil => exact fun _ _ _ _ => .pure fun _ => by simp
  | cons member rest ih =>
      intro s howner hscope hfree
      cases member with
      | field field => exact ih s howner hscope hfree
      | func decl =>
          rw [List.flatMap_cons] at hfree ⊢
          refine Fares.bind (P := fun func s' => func < s'.tables.symbols.size)
            (Fares.withCursor hscope fun s₁ h => Fares.imp (fares_declareFunc
              (hfree.left.still h.toFollows) fun id heq => ?_) fun _ _ _ hfunc => hfunc.1)
            (List.subset_append_left _ _) fun func s₁ h hfunc => ?_
          · exact Option.some.inj heq ▸ h.isType howner
          · refine Fares.bind (ih s₁ (h.isType howner) (h.scope_lt hscope) (hfree.right h.toFollows))
              (List.subset_append_right _ _) fun funcs s₂ h' hfuncs => .pure fun _ => ?_
            exact List.forall_mem_cons.mpr ⟨h'.symbol_lt hfunc, hfuncs⟩

theorem fares_declareFuncs : ∀ (decls : List Decl) (s : CheckState),
    (∀ decl ∈ decls, s.Introduced decl) → s.Free n (decls.flatMap Decl.funcKeys) →
    Fares n bound (decls.flatMap Decl.funcKeys) (declareFuncs decls) s
      fun funcs s' => ∀ func ∈ funcs, func < s'.tables.symbols.size := by
  intro decls
  induction decls with
  | nil => exact fun _ _ _ => .pure fun _ => by simp
  | cons decl rest ih =>
      intro s hdecls hfree
      obtain ⟨hdecl, hrest⟩ := List.forall_mem_cons.mp hdecls
      rw [List.flatMap_cons] at hfree ⊢
      unfold declareFuncs
      extract_lets following
      have hfollowing (funcs : List SymbolId) (s₁ : CheckState)
          (h : Proceeds n decl.funcKeys s s₁) (hfuncs : ∀ func ∈ funcs, func < s₁.tables.symbols.size) :
          Fares n bound (decl.funcKeys ++ rest.flatMap Decl.funcKeys) (following funcs) s₁
            fun funcs s' => ∀ func ∈ funcs, func < s'.tables.symbols.size := by
        refine Fares.bind (ih s₁ (fun decl hmem => (hrest decl hmem).mono h.toFollows)
          (hfree.right h.toFollows)) (List.subset_append_right _ _) fun others s₂ h' hothers =>
            .pure fun _ func hmem => ?_
        rcases List.mem_append.mp hmem with hmem | hmem
        · exact h'.symbol_lt (hfuncs func hmem)
        · exact hothers func hmem
      cases decl with
      | func decl =>
          refine Fares.bind (fares_declareFunc hfree.left (by simp)) (List.subset_append_left _ _)
            fun func s₁ h hfunc => .pure_bind (hfollowing _ s₁ h ?_)
          exact List.forall_mem_singleton.mpr hfunc.1
      | structType node name members =>
          refine .declSymbol hdecl rfl rfl fun owner htype => .memberScope htype.lt_size fun scope hscope => ?_
          exact Fares.bind (fares_declareMethods members s htype hscope hfree.left)
            (List.subset_append_left _ _) hfollowing
      | _ => exact .of_ready fun hs => .pure_bind (hfollowing [] s (.refl hs) (by simp))

end Check

end Stela
