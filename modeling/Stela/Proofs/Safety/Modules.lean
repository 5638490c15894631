import Stela.Check.Module
import Stela.Proofs.Safety.Bodies
import Stela.Proofs.Safety.Declarations

/-!
# Modules

A module whose nodes are free is safe to analyze: its types and functions are
declared before their bodies are needed, and every node gets its meaning in the
pass that it belongs to.
-/

namespace Stela

theorem SymbolTable.Marks.refl (t : SymbolTable) : t.Marks t := fun _ => rfl

theorem SymbolTable.marks_foldl {g : Symbol → Symbol}
    (hg : ∀ entry, (g entry).kind = entry.kind ∧ (g entry).scope = entry.scope) (ids : List SymbolId) :
    ∀ t : SymbolTable, t.Marks (ids.foldl (fun t id => t.modify id g) t) := by
  induction ids with
  | nil => exact fun t => .refl t
  | cons id rest ih => exact fun t => (marks_modify hg).trans (ih (t.modify id g))

namespace CheckState

variable {s s' : CheckState}

theorem Closed.root_lt (hs : s.Closed) : ScopeGraph.root < s.scopes.size := Nat.zero_lt_of_lt hs.cursor

theorem Closed.module_inside (hs : s.Closed) {name : String} {m : ModuleEntry}
    (h : s.module? name = some m) : m.Inside s.extent :=
  hs.modules m (List.mem_of_find?_eq_some h)

end CheckState

namespace Check

open CheckState

variable {n bound : Nat} {s s' : CheckState}

/-! ## Declarations of a module -/

theorem fares_checkGlobal (decl : Decl) (hfree : s.Free n decl.globalKeys) :
    Fares n bound decl.globalKeys (checkGlobal bound decl) s fun _ _ => True := by
  cases decl with
  | global node binding =>
      exact Fares.imp (safe_checkBinding (analyzes_checkBody bound) (.decl node.id) binding s hfree)
        fun _ _ _ _ => trivial
  | _ => exact .pure fun _ => trivial

theorem fares_checkDecls (decls : List Decl) (hfree : s.Free n (decls.flatMap Decl.keys)) :
    Fares n bound (decls.flatMap Decl.keys) (checkDecls bound decls) s fun _ _ => True := by
  have hperm := Decl.keys_perm_of_list decls
  have hfree := hfree.perm hperm
  refine Fares.widen ?_ hperm.symm.subset
  unfold checkDecls
  refine .bind (Fares.forM (P := fun decl s' => s'.Introduced decl) (fun _ _ _ _ => Introduced.mono)
    decls s hfree.left fun decl _ _ s₁ _ hfree => fares_declareType decl hfree) (List.subset_append_left _ _)
    fun _ s₁ h₁ hdecls => Fares.widen ?_ (List.subset_append_right _ _)
  have hfree := hfree.right h₁.toFollows
  refine .bind (Fares.forM (fun _ _ _ _ _ h => h) decls s₁ hfree.left fun decl hmem _ s₂ h hfree =>
    fares_completeType decl ((hdecls decl hmem).mono h) hfree) (List.subset_append_left _ _)
    fun _ s₂ h₂ _ => Fares.widen ?_ (List.subset_append_right _ _)
  have hfree := hfree.right h₂.toFollows
  refine .bind (fares_declareFuncs decls s₂ (fun decl hmem => (hdecls decl hmem).mono h₂.toFollows)
    hfree.left) (List.subset_append_left _ _) fun funcs s₃ h₃ hfuncs => ?_
  refine .bind (Fares.forM (fun _ _ _ _ _ h => h) decls s₃ (hfree.right h₃.toFollows)
    fun decl _ _ s₄ _ hfree => fares_checkGlobal decl hfree) (List.subset_append_right _ _)
    fun _ s₄ h₄ _ => Fares.widen ?_ (List.nil_subset _)
  refine Fares.imp (Safe.forM funcs s₄ fun func hmem s₅ h₅ => Safe.imp (analyzes_checkBody bound s₅ func
    (h₅.symbol_lt (h₄.symbol_lt (hfuncs func hmem)))) fun _ _ _ _ => trivial) fun _ _ _ _ => trivial

/-! ## Modules and their imports -/

theorem safe_declareImports {importer : String} {scope : ScopeId} : ∀ (names : List Ident)
    (seen : List ScopeId) (s : CheckState), scope < s.scopes.size → (∀ i ∈ seen, i < s.scopes.size) →
    Safe n bound [] (declareImports importer scope seen names) s fun imports s' =>
      ∀ i ∈ imports, i < s'.scopes.size := by
  intro names
  induction names with
  | nil => exact fun seen s _ hseen => Safe.pure fun _ => hseen
  | cons name rest ih =>
      intro seen s hscope hseen
      unfold declareImports
      refine .of_ready fun hs => .state ?_
      split
      · exact Fares.raise
      · next target htarget =>
        obtain ⟨hsymbol, htargetScope, -⟩ := hs.closed.module_inside htarget
        split
        · exact ih seen s hscope hseen
        · refine Safe.step (P := fun _ _ => True) (Safe.withCursor hscope fun s₁ h =>
            safe_declare (h.symbol_lt hsymbol)) fun _ s₁ h _ => ?_
          refine ih _ s₁ (h.scope_lt hscope) fun i hi => ?_
          rcases List.mem_append.mp hi with hi | hi
          · exact h.scope_lt (hseen i hi)
          · exact List.mem_singleton.mp hi ▸ h.scope_lt htargetScope

theorem safe_declareModule {m : Module} :
    Safe n bound [] (declareModule m) s fun scope s' => scope < s'.scopes.size := by
  unfold declareModule
  refine .of_ready fun hs => .state ?_
  dsimp only
  split
  · exact Fares.raise_bind
  · refine Safe.step (P := fun scope s' => scope < s'.scopes.size)
      (Safe.withCursor hs.closed.root_lt fun s₁ _ => safe_enterScope (by simp)) fun scope s₁ _ hscope => ?_
    refine .of_ready fun hs₁ => Safe.step (safe_newSymbol hscope hs₁.closed.root_lt rfl) ?_
    rintro symbol s₂ h₂ ⟨-, hkind⟩
    have hsymbol := SymbolTable.lt_size_of_kind? hkind
    refine Safe.step (safe_setOwner (h₂.scope_lt hscope) hsymbol) fun _ s₃ h₃ _ => ?_
    have hscope := h₃.scope_lt (h₂.scope_lt hscope)
    refine Safe.step (safe_declareImports m.imports [] s₃ hscope (by simp)) fun imports s₄ h₄ himports => ?_
    refine Safe.step (P := fun _ s' => scope < s'.scopes.size) (.update (fun hs => Adds.aside ?_ hs
      rfl rfl rfl) (h₄.scope_lt hscope)) fun _ _ _ hscope => Safe.pure fun _ => hscope
    refine { extent := .refl _, modules := fun entry hentry => ?_ }
    rcases List.mem_append.mp hentry with hold | hnew
    · exact .inl hold
    · obtain rfl := List.mem_singleton.mp hnew
      exact .inr ⟨h₄.symbol_lt (h₃.symbol_lt hsymbol), h₄.scope_lt hscope, himports⟩

theorem safe_markExternal {first : SymbolId} :
    Safe n bound [] (markExternal first) s fun _ _ => True := by
  have hmarks := SymbolTable.marks_foldl (g := fun symbol => { symbol with external := true })
    (fun _ => ⟨rfl, rfl⟩) (List.range' first (s.tables.symbols.size - first)) s.tables.symbols
  exact .update (fun hs => finishes_marks hs hmarks) trivial

/-- A module is safe to analyze whose nodes are free. -/
theorem fares_checkModule {external : Bool} (m : Module) (hfree : s.Free n m.keys) :
    Fares n bound m.keys (checkModule bound external m) s fun _ _ => True := by
  unfold checkModule
  refine .tables (.bind safe_declareModule (List.nil_subset _) ?_)
  rintro scope s₁ h ⟨-, hscope⟩
  have hfree := hfree.still h.toFollows
  refine .bind (P := fun _ _ => True) (.withCursor hscope fun s₂ h' =>
    fares_checkDecls m.decls (hfree.still h'.toFollows)) (List.Subset.refl _) fun _ s₂ _ _ => ?_
  split
  · exact Fares.widen (Fares.imp safe_markExternal fun _ _ _ _ => trivial) (List.nil_subset _)
  · exact .pure fun _ => trivial

theorem fares_checkModules {external : Bool} (modules : List Module)
    (hfree : s.Free n (modules.flatMap Module.keys)) :
    Fares n bound (modules.flatMap Module.keys) (modules.forM (checkModule bound external)) s
      fun _ _ => True :=
  Fares.imp (Fares.forM (fun _ _ _ _ _ h => h) modules s hfree fun m _ _ _ _ hfree =>
    fares_checkModule m hfree) fun _ _ _ _ => trivial

theorem safe_warnUnused : Safe n bound [] warnUnused s fun _ _ => True := by
  unfold warnUnused
  refine Fares.settings fun c => ?_
  dsimp only
  split
  · exact Fares.tables (Safe.update (fun hs => Adds.aside { extent := .refl _ } hs
      rfl rfl rfl) trivial)
  · exact Safe.pure fun _ => trivial

/-! ## The start -/

/-- Nothing was analyzed yet. -/
structure Blank (s : CheckState) : Prop where
  closed : s.Closed
  duties : ∀ id, s.duty? id = none
  meanings : s.meanings = {}

theorem closed_nothing : CheckState.Closed {} where
  builtinTypes kind := .plain (TypeTable.get?_initial kind) (by simp)
  ordered := TypeTable.ordered_initial
  types id ty h := by
    have hmem := Array.mem_of_getElem? h
    simp only [TypeTable.initial, List.mem_toArray, List.mem_map] at hmem
    obtain ⟨kind, -, rfl⟩ := hmem
    trivial
  symbols id entry h := by cases h
  scopes id scope h := by
    obtain rfl : scope = ⟨.namespaceScope, none, none, []⟩ := by
      simpa [ScopeGraph.initial] using Array.mem_of_getElem? h
    simp [Scope.Inside]
  cursor := Nat.zero_lt_one
  modules := by simp
  frames := by simp
  exprTypes := by simp
  captured := by simp
  transfers := by simp
  defaults := by simp
  closures := by simp
  assumptions := by simp
  meanings := by constructor <;> simp

theorem blank_nothing : Blank {} := ⟨closed_nothing, fun _ => rfl, rfl⟩

theorem blank_addBuiltin (hs : Blank s) (name : String) {kind : SymbolKind}
    (hkind : ∀ e id, kind.Inside e id) (hduty : kind.duty? = none) : Blank (s.addBuiltin name kind) := by
  let entry : Symbol := { name, span := .dummy, kind, scope := ScopeGraph.root }
  have hadds : s.Adds { s with tables.symbols := (s.tables.symbols.add entry).2 } :=
    adds_symbol (hkind _ _) hs.closed.root_lt
  have hadded : Blank { s with tables.symbols := (s.tables.symbols.add entry).2 } := by
    refine ⟨hs.closed.adds hadds, fun id => ?_, hs.meanings⟩
    refine SymbolTable.duty?_add.trans ?_
    split
    · exact hduty
    · exact hs.duties id
  unfold CheckState.addBuiltin
  dsimp only
  split
  · next hidden g hinsert =>
    have hnew : s.tables.symbols.size < (s.tables.symbols.add entry).2.size := by simp
    exact ⟨hadded.closed.adds (adds_insert hadded.closed hinsert hnew), hadded.duties, hadded.meanings⟩
  · exact hadded

theorem blank_initial : Blank (.initial {}) := by
  have add {α : Type} (all : List α) (name : α → String) (kind : α → SymbolKind)
      (hkind : ∀ a e id, (kind a).Inside e id) (hduty : ∀ a, (kind a).duty? = none) (s : CheckState)
      (hs : Blank s) : Blank (all.foldl (fun s a => s.addBuiltin (name a) (kind a)) s) := by
    induction all generalizing s with
    | nil => exact hs
    | cons a rest ih => exact ih _ (blank_addBuiltin hs (name a) (hkind a) (hduty a))
  exact add BuiltinFunc.all BuiltinFunc.name .builtinFunc (fun _ _ _ => trivial) (fun _ => rfl) _
    (add Builtin.all Builtin.name .builtinType (fun _ _ _ => trivial) (fun _ => rfl) _ blank_nothing)

theorem Blank.ready (hs : Blank s) : s.Ready n (n + 1) where
  closed := hs.closed
  dutiful := ⟨by simp [hs.duties], by simp [hs.duties], by simp [hs.duties], by simp [hs.duties],
    by simp [hs.duties], by simp [hs.duties]⟩
  enough := Nat.lt_succ_of_le card_idle_le

/-- At the start all nodes are free. -/
theorem Blank.free (hs : Blank s) {keys : List NodeKey} (hnodup : keys.Nodup)
    (hbelow : ∀ key ∈ keys, key.Below n) : s.Free n keys := by
  refine ⟨hnodup, hbelow, fun key _ => ?_, fun key _ => ?_, fun key _ => ?_⟩
  · rw [hs.meanings]
    cases key with
    | node kind id => cases kind <;> exact NodeMap.get?_empty
    | param type => exact NodeMap.get?_empty
  · rw [hs.meanings]
    cases key with
    | node kind id => cases kind <;> first | exact NodeMap.get?_empty | trivial
    | param type => trivial
  · rintro ⟨id, duty, hduty, -⟩
    cases (hs.duties id).symm.trans hduty

end Check

end Stela
