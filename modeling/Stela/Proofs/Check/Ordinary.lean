import Stela.Proofs.Check.Masking
import Stela.Proofs.Types.Growth

/-!
# Ordinary steps

An ordinary step is put together from a few sorts of steps: reading the state as
far as masks leave it alone, changing it, ending in an error or a fault, giving a
warning and planning a transfer. It neither declares an alias nor changes the
target of one, and it blames none for its recursion, unless it resolves an alias
by the step that is given for this. What holds of each sort of steps and of
sequences holds of all ordinary steps.
-/

namespace Stela

namespace SymbolTable

variable {t : SymbolTable} {entry : Symbol} {id : SymbolId}

/-- The tables have the same aliases, with the same details. -/
def SameAliases (t t' : SymbolTable) : Prop :=
  ∀ id info, t'.kind? id = some (.aliasType info) ↔ t.kind? id = some (.aliasType info)

theorem SameAliases.refl (t : SymbolTable) : t.SameAliases t := fun _ _ => .rfl

theorem SameAliases.trans {t' t'' : SymbolTable} (h : t.SameAliases t') (h' : t'.SameAliases t'') :
    t.SameAliases t'' := fun id info => (h' id info).trans (h id info)

theorem Alike.sameAliases {t' : SymbolTable} (h : t.Alike t') : t.SameAliases t' := fun id info => by
  rw [(h id).1]

theorem sameAliases_add (hentry : ∀ info, entry.kind ≠ .aliasType info) : t.SameAliases (t.add entry).2 := by
  intro id info
  rw [kind?_add]
  split
  · next heq =>
    subst heq
    refine ⟨fun h => absurd (Option.some.inj h) (hentry info), fun h => ?_⟩
    exact absurd (lt_size_of_kind? h) (Nat.lt_irrefl _)
  · rfl

theorem sameAliases_modifyKind {f : SymbolKind → SymbolKind}
    (hf : ∀ kind info, f kind = .aliasType info ↔ kind = .aliasType info) :
    t.SameAliases (t.modifyKind id f) := by
  intro other info
  rw [kind?_modifyKind]
  split
  · simp [hf]
  · rfl

theorem sameAliases_modifyKind_of {f : SymbolKind → SymbolKind}
    (h : ∀ info, t.kind? id ≠ some (.aliasType info))
    (hf : ∀ kind info, f kind ≠ .aliasType info) : t.SameAliases (t.modifyKind id f) := by
  intro other info
  rw [kind?_modifyKind]
  split
  · next heq =>
    subst heq
    simp [hf, h]
  · rfl

theorem sameAliases_modifyFunc {f : FuncInfo → FuncInfo} : t.SameAliases (t.modifyFunc id f) :=
  sameAliases_modifyKind fun kind _ => by cases kind <;> simp

theorem sameAliases_modifyClosure {f : ClosureInfo → ClosureInfo} :
    t.SameAliases (t.modifyClosure id f) :=
  sameAliases_modifyKind fun kind _ => by cases kind <;> simp

end SymbolTable

namespace Check

open SymbolTable (SameAliases)

/-- A step is put together from ordinary steps and from steps that resolve an alias. -/
inductive Ordinary (ensure : SymbolId → Check Unit) : {α : Type} → Check α → Prop
  | ensure (id : SymbolId) : Ordinary ensure (ensure id)
  | bind {α β : Type} {p : Check α} {f : α → Check β} (h : Ordinary ensure p)
      (hf : ∀ a, Ordinary ensure (f a)) : Ordinary ensure (p >>= f)
  | reading {α : Type} {f : CheckState → Check α} (hmask : ∀ (m : Mask) s, f (m.state s) = f s)
      (h : ∀ s, Ordinary ensure (f s)) : Ordinary ensure (state >>= f)
  | change {α : Type} {f : CheckState → α × CheckState}
      (hmask : ∀ (m : Mask) s, f (m.state s) = ((f s).1, m.state (f s).2))
      (hdiagnostics : ∀ s, (f s).2.diagnostics = s.diagnostics)
      (haliases : ∀ s : CheckState, s.tables.symbols.SameAliases (f s).2.tables.symbols) :
      Ordinary ensure (change f)
  | raise {α : Type} {kind : TypeErrorKind} {span : Span} {help : Option String}
      {related : Option (Span × String)} (hkind : ∀ name, kind ≠ .recursiveAlias name) :
      Ordinary ensure (raise kind span help related : Check α)
  | fault {α : Type} (reason : Fault) : Ordinary ensure (fault reason : Check α)
  | warn {on : Settings → Bool} {ds : List Diagnostic}
      (hon : ∀ (m : Mask) c, on (m.settings c) = (m.warnings && on c))
      (hds : ∀ d ∈ ds, d.WarnsOfHiding) : Ordinary ensure (warn on ds)
  | plan {node : Node} {type : TypeId} {site : TransferSite} {category : Category}
      {source : ValueSource} {assign : Bool} : Ordinary ensure (do
        let transfer := planTransfer category source assign (← settings).elide
        update fun s => { s with transfers := s.transfers ++ [⟨node, type, site, transfer⟩] })

variable {α β : Type} {ensure : SymbolId → Check Unit} {p : Check α}

/-- Ordinary steps are plain. -/
theorem Ordinary.plain (h : Ordinary ensure p) (hensure : ∀ id, Plain (ensure id)) : Plain p := by
  induction h with
  | ensure id => exact hensure id
  | bind _ _ ih ihf => exact ih.bind ihf
  | reading hmask _ ih => exact plain_reading hmask ih
  | change hmask hdiagnostics _ => exact plain_change hmask hdiagnostics
  | raise _ => exact plain_raise
  | fault reason => exact plain_fault reason
  | warn hon hds => exact plain_warn hon hds
  | plan => exact plain_planned

/-! ## Blame -/

end Check

/-- The analysis ended with the error that an alias refers to itself. -/
def CheckFailure.Blames (failure : CheckFailure) (name : String) : Prop :=
  ∃ error, failure = .error error ∧ error.kind = .recursiveAlias name

namespace Check

variable {α β : Type} {ensure : SymbolId → Check Unit} {p : Check α} {known : SymbolTable → Prop}

/-- A step blames no alias where something is known of the symbols, and keeps it known. -/
def Spares (known : SymbolTable → Prop) (p : Check α) : Prop :=
  ∀ c s, known s.tables.symbols → known (p c s).final.tables.symbols ∧
    ∀ failure s', p c s = .failed failure s' → ∀ name, ¬ failure.Blames name

theorem Spares.bind {f : α → Check β} (h : Spares known p) (hf : ∀ a, Spares known (f a)) :
    Spares known (p >>= f) := by
  intro c s hs
  obtain ⟨hfinal, hfails⟩ := h c s hs
  change known (Check.bind p f c s).final.tables.symbols ∧ ∀ failure s', Check.bind p f c s = _ → _
  unfold Check.bind
  cases hresult : p c s with
  | ok a s₁ =>
      rw [hresult] at hfinal
      exact hf a c s₁ hfinal
  | failed failure s₁ =>
      rw [hresult] at hfinal
      refine ⟨hfinal, fun failure' s' heq => ?_⟩
      obtain ⟨rfl, rfl⟩ := CheckResult.failed.inj heq
      exact hfails failure s₁ hresult

theorem Spares.forM {f : α → Check Unit} (hf : ∀ a, Spares known (f a)) (items : List α) :
    Spares known (items.forM f) := by
  induction items with
  | nil => exact fun _ _ hs => ⟨hs, fun _ _ h => by cases h⟩
  | cons a rest ih => exact (hf a).bind fun _ => ih

/-- Ordinary steps blame no alias, wherever resolving one does not. -/
theorem Ordinary.spares (h : Ordinary ensure p)
    (hknown : ∀ t t' : SymbolTable, t.SameAliases t' → known t → known t')
    (hensure : ∀ id, Spares known (ensure id)) : Spares known p := by
  induction h with
  | ensure id => exact hensure id
  | bind _ _ ih ihf => exact ih.bind ihf
  | reading _ _ ih => exact fun c s => ih s c s
  | change _ _ haliases =>
      exact fun c s hs => ⟨hknown _ _ (haliases s) hs, fun _ _ heq => by cases heq⟩
  | raise hkind =>
      refine fun c s hs => ⟨hs, fun failure s' heq name hblames => ?_⟩
      obtain ⟨rfl, -⟩ := CheckResult.failed.inj heq
      obtain ⟨error, herror, hrecursive⟩ := hblames
      obtain rfl := CheckFailure.error.inj herror
      exact hkind name hrecursive
  | fault reason =>
      refine fun c s hs => ⟨hs, fun failure s' heq name hblames => ?_⟩
      obtain ⟨rfl, -⟩ := CheckResult.failed.inj heq
      obtain ⟨error, herror, -⟩ := hblames
      cases herror
  | warn => exact fun c s hs => by rw [warn_eq]; exact ⟨hs, fun _ _ heq => by cases heq⟩
  | plan => exact fun c s hs => ⟨hs, fun _ _ heq => by cases heq⟩

/-! ## Ways to build a step -/

theorem ordinary_pure (a : α) : Ordinary ensure (pure a) :=
  .change (f := fun s => (a, s)) (fun _ _ => rfl) (fun _ => rfl) fun _ => .refl _

namespace Ordinary

theorem pure_bind {a : α} {f : α → Check β} (h : Ordinary ensure (f a)) :
    Ordinary ensure (pure a >>= f) := h

theorem ite {c : Prop} [Decidable c] {p q : Check α} (hp : Ordinary ensure p) (hq : Ordinary ensure q) :
    Ordinary ensure (if c then p else q) := by
  split
  · exact hp
  · exact hq

/-- A step that is taken under a condition, before another one. -/
theorem guard {c : Prop} [Decidable c] {p : Check α} {q : Check β} (hp : Ordinary ensure p)
    (hq : Ordinary ensure q) : Ordinary ensure (if c then p >>= fun _ => q else q) :=
  ite (hp.bind fun _ => hq) hq

theorem forM {f : α → Check Unit} (hf : ∀ a, Ordinary ensure (f a)) (items : List α) :
    Ordinary ensure (items.forM f) := by
  induction items with
  | nil => exact ordinary_pure _
  | cons a rest ih => exact (hf a).bind fun _ => ih

end Ordinary

theorem ordinary_update {f : CheckState → CheckState}
    (hmask : ∀ (m : Mask) s, f (m.state s) = m.state (f s))
    (hdiagnostics : ∀ s, (f s).diagnostics = s.diagnostics)
    (haliases : ∀ s : CheckState, s.tables.symbols.SameAliases (f s).tables.symbols) :
    Ordinary ensure (update f) :=
  .change (f := fun s => ((), f s)) (fun m s => by rw [hmask]) hdiagnostics haliases

theorem ordinary_raise {kind : TypeErrorKind} {span : Span} {help : Option String}
    {related : Option (Span × String)}
    (hkind : ∀ name, kind ≠ .recursiveAlias name) :
    Ordinary ensure (raise kind span help related : Check α) := .raise hkind

theorem ordinary_fault (reason : Fault) : Ordinary ensure (fault reason : Check α) := .fault reason

theorem ordinary_require {o : Option α} {reason : Fault} : Ordinary ensure (require o reason) := by
  cases o with
  | none => exact .fault reason
  | some a => exact ordinary_pure a

/-! ## Reading and changing the state -/

/-- A change of what masks and aliases have no part in. -/
theorem ordinary_still {f : CheckState → CheckState}
    (hmask : ∀ (m : Mask) s, f (m.state s) = m.state (f s))
    (hdiagnostics : ∀ s, (f s).diagnostics = s.diagnostics)
    (hsymbols : ∀ s, (f s).tables.symbols = s.tables.symbols) : Ordinary ensure (update f) :=
  ordinary_update hmask hdiagnostics fun s => hsymbols s ▸ .refl _

theorem ordinary_tables : Ordinary ensure tables :=
  .change (f := fun s => (s.tables, s)) (fun _ _ => rfl) (fun _ => rfl) fun _ => .refl _

theorem ordinary_cursor : Ordinary ensure cursor :=
  .change (f := fun s => (s.scopes.cursor, s)) (fun _ _ => rfl) (fun _ => rfl) fun _ => .refl _

theorem ordinary_frame? : Ordinary ensure frame? :=
  .change (f := fun s => (s.frames.head?, s)) (fun _ _ => rfl) (fun _ => rfl) fun _ => .refl _

theorem ordinary_modifySymbols {f : SymbolTable → SymbolTable} (hf : ∀ t : SymbolTable, t.SameAliases (f t)) :
    Ordinary ensure (modifySymbols f) :=
  ordinary_update (fun _ _ => rfl) (fun _ => rfl) fun s => hf s.tables.symbols

theorem ordinary_symbol {id : SymbolId} : Ordinary ensure (symbol id) :=
  ordinary_tables.bind fun _ => ordinary_require

theorem ordinary_modifyAt {id : SymbolId} {f : SymbolTable → SymbolTable}
    (hf : ∀ t : SymbolTable, t.SameAliases (f t)) : Ordinary ensure (modifyAt id f) :=
  ordinary_symbol.bind fun _ => ordinary_modifySymbols hf

theorem ordinary_modifyFunc {func : SymbolId} {f : FuncInfo → FuncInfo} :
    Ordinary ensure (modifyFunc func f) :=
  ordinary_modifyAt fun _ => SymbolTable.sameAliases_modifyFunc

theorem ordinary_modifyClosure {closure : SymbolId} {f : ClosureInfo → ClosureInfo} :
    Ordinary ensure (modifyClosure closure f) :=
  ordinary_modifyAt fun _ => SymbolTable.sameAliases_modifyClosure

theorem ordinary_markUsed {id : SymbolId} : Ordinary ensure (markUsed id) :=
  ordinary_modifyAt fun t => by
    refine (SymbolTable.alike_modify t id (fun _ => ?_) fun _ => ?_).sameAliases <;> rfl

theorem ordinary_modifyScopes {f : ScopeGraph → ScopeGraph} : Ordinary ensure (modifyScopes f) :=
  ordinary_still (fun _ _ => rfl) (fun _ => rfl) fun _ => rfl

theorem ordinary_intern {ty : Ty} : Ordinary ensure (intern ty) :=
  .change (f := fun s =>
    ((s.tables.types.intern ty).1, { s with tables.types := (s.tables.types.intern ty).2 }))
    (fun _ _ => rfl) (fun _ => rfl) fun _ => .refl _

theorem ordinary_newSymbol {name : String} {span : Span} {kind : SymbolKind} {scope : ScopeId}
    (hkind : ∀ info, kind ≠ .aliasType info) : Ordinary ensure (newSymbol name span kind scope) :=
  .change (f := fun s => ((s.tables.symbols.add { name, span, kind, scope }).1,
    { s with tables.symbols := (s.tables.symbols.add { name, span, kind, scope }).2 }))
    (fun _ _ => rfl) (fun _ => rfl) fun _ => SymbolTable.sameAliases_add hkind

theorem ordinary_pushFrame {frame : Frame} : Ordinary ensure (pushFrame frame) :=
  ordinary_still (fun _ _ => rfl) (fun _ => rfl) fun _ => rfl

theorem ordinary_modifyFrame {f : Frame → Frame} : Ordinary ensure (modifyFrame f) := by
  refine ordinary_still (fun m s => ?_) (fun s => ?_) fun s => ?_
  · cases hframes : s.frames <;> simp [Mask.state, hframes]
  · cases s.frames <;> rfl
  · cases s.frames <;> rfl

theorem ordinary_popFrame : Ordinary ensure popFrame := by
  refine .reading (fun _ _ => rfl) fun s => ?_
  split
  · exact .bind (ordinary_still (fun _ _ => rfl) (fun _ => rfl) fun _ => rfl) fun _ => ordinary_pure _
  · exact .fault _

theorem ordinary_fill [DecidableEq α] {get : Meanings → NodeMap α}
    {set : Meanings → NodeMap α → Meanings} {node : Nat} {value : α} :
    Ordinary ensure (fill get set node value) :=
  .reading (fun _ _ => rfl) fun _ =>
    ordinary_require.bind fun _ => ordinary_still (fun _ _ => rfl) (fun _ => rfl) fun _ => rfl

theorem ordinary_useSymbol {node : Nat} {symbol : SymbolId} : Ordinary ensure (useSymbol node symbol) :=
  ordinary_markUsed.bind fun _ => ordinary_fill

theorem ordinary_tyOf {type : TypeId} : Ordinary ensure (tyOf type) :=
  ordinary_tables.bind fun _ => ordinary_require

theorem ordinary_concreteOf {type : TypeId} : Ordinary ensure (concreteOf type) :=
  ordinary_tables.bind fun _ => ordinary_require

theorem ordinary_concreteTy {type : TypeId} : Ordinary ensure (concreteTy type) :=
  ordinary_concreteOf.bind fun _ => ordinary_tyOf

theorem ordinary_representationTy {type : TypeId} : Ordinary ensure (representationTy type) :=
  ordinary_tables.bind fun _ => ordinary_require.bind fun _ => ordinary_tyOf

theorem ordinary_kindOf {id : SymbolId} : Ordinary ensure (kindOf id) :=
  ordinary_symbol.bind fun _ => ordinary_pure _

theorem ordinary_nameOf {id : SymbolId} : Ordinary ensure (nameOf id) :=
  ordinary_symbol.bind fun _ => ordinary_pure _

theorem ordinary_funcOf {id : SymbolId} : Ordinary ensure (funcOf id) :=
  ordinary_kindOf.bind fun kind => by cases kind <;> exact ordinary_pure _

theorem ordinary_closureOf {id : SymbolId} : Ordinary ensure (closureOf id) :=
  ordinary_kindOf.bind fun kind => by cases kind <;> exact ordinary_pure _

theorem ordinary_objectOf {id : SymbolId} : Ordinary ensure (objectOf id) :=
  ordinary_kindOf.bind fun kind => by cases kind <;> exact ordinary_pure _

theorem ordinary_typeText {type : TypeId} : Ordinary ensure (typeText type) :=
  ordinary_tables.bind fun _ => ordinary_require

theorem ordinary_typeTexts (types : List ExprType) : Ordinary ensure (typeTexts types) := by
  induction types with
  | nil => exact ordinary_pure _
  | cons e rest ih => exact ordinary_typeText.bind fun _ => ih.bind fun _ => ordinary_pure _

theorem ordinary_same {a b : TypeId} : Ordinary ensure (same a b) :=
  ordinary_tables.bind fun _ => ordinary_require

theorem ordinary_isVoid {type : TypeId} : Ordinary ensure (isVoid type) :=
  ordinary_concreteOf.bind fun _ => ordinary_pure _

theorem ordinary_pendingOf {type : TypeId} : Ordinary ensure (pendingOf type) :=
  ordinary_tyOf.bind fun ty => by cases ty <;> exact ordinary_pure _

theorem ordinary_builtinOf {type : TypeId} : Ordinary ensure (builtinOf type) :=
  ordinary_concreteTy.bind fun ty => by cases ty <;> exact ordinary_pure _

theorem ordinary_elementOf {type : TypeId} : Ordinary ensure (elementOf type) :=
  ordinary_concreteTy.bind fun ty => by cases ty <;> exact ordinary_pure _

theorem ordinary_categoryOf {type : TypeId} : Ordinary ensure (categoryOf type) :=
  ordinary_representationTy.bind fun _ => ordinary_tables.bind fun _ => ordinary_pure _

theorem ordinary_mismatch {expected found : TypeId} {span : Span} :
    Ordinary ensure (mismatch expected found span : Check α) :=
  ordinary_typeText.bind fun _ => ordinary_typeText.bind fun _ => ordinary_raise (by simp)

theorem ordinary_scopeAt {scope : ScopeId} : Ordinary ensure (scopeAt scope) :=
  .reading (fun _ _ => rfl) fun _ => ordinary_require

theorem ordinary_entriesOf {scope : ScopeId} {name : String} : Ordinary ensure (entriesOf scope name) :=
  ordinary_scopeAt.bind fun _ => ordinary_pure _

theorem ordinary_membersOf {scope : ScopeId} : Ordinary ensure (membersOf scope) :=
  ordinary_scopeAt.bind fun _ => ordinary_pure _

theorem ordinary_casesOf {scope : ScopeId} : Ordinary ensure (casesOf scope) :=
  ordinary_scopeAt.bind fun _ => ordinary_pure _

theorem ordinary_isWithin {scope ancestor : ScopeId} : Ordinary ensure (isWithin scope ancestor) :=
  .reading (fun _ _ => rfl) fun _ => ordinary_require.bind fun _ => ordinary_pure _

theorem ordinary_setOwner {scope : ScopeId} {owner : SymbolId} : Ordinary ensure (setOwner scope owner) :=
  ordinary_scopeAt.bind fun _ => ordinary_modifyScopes

theorem ordinary_enterScope {kind : ScopeKind} {owner : Option SymbolId} :
    Ordinary ensure (enterScope kind owner) :=
  ordinary_modifyScopes.bind fun _ => ordinary_cursor

theorem ordinary_leaveScope : Ordinary ensure leaveScope :=
  ordinary_cursor.bind fun _ => ordinary_scopeAt.bind fun _ => ordinary_modifyScopes

theorem Ordinary.withCursor {scope : ScopeId} (h : Ordinary ensure p) :
    Ordinary ensure (withCursor scope p) :=
  ordinary_scopeAt.bind fun _ => ordinary_cursor.bind fun _ => ordinary_modifyScopes.bind fun _ =>
    h.bind fun _ => ordinary_modifyScopes.bind fun _ => ordinary_pure _

theorem ordinary_warnShadow {name : Ident} {symbol hidden : SymbolId} :
    Ordinary ensure (warnShadow name symbol hidden) := by
  refine ordinary_symbol.bind fun old => ordinary_kindOf.bind fun kind => ?_
  dsimp only
  generalize (kind.isOverloadable && old.kind.isOverloadable) = bothOverloadable
  have hflip (c : Settings) {p : Check Unit} :
      (if !c.warnShadow || isSilenced name.name || bothOverloadable then pure () else p) =
        if c.warnShadow && !(isSilenced name.name || bothOverloadable) then p else pure () := by
    cases c.warnShadow <;> cases isSilenced name.name <;> cases bothOverloadable <;> rfl
  simp only [hflip]
  refine .warn (fun m c => ?_) (by simp [Diagnostic.WarnsOfHiding, Diagnostic.isWarning])
  rw [m.settings_warnShadow, Bool.and_assoc]

end Check

end Stela
