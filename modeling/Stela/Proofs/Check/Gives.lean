import Stela.Check.Operation
import Stela.Check.Result
import Stela.Proofs.Scopes
import Stela.Proofs.Types.Reading
import Mathlib.Logic.Basic

/-!
# Successful steps

`p.Gives settings s a s'` says that the step `p` ends in the value `a` and the
state `s'`. The lemmas of this module read the success of a composed step as
facts about its parts: a sequence succeeds if both parts do, a failure never
does, and a step that only reads leaves the state as it is.
-/

namespace Stela

namespace Tables

theorem accepts?_eq_some_iff {t : Tables} {params : List (RefKind × TypeId)} {args : List ExprType}
    {r : Bool} :
    t.accepts? params args = some r ↔ (t.accepts? params args).isSome ∧ t.accepts params args = r := by
  refine eq_some_iff_of_agrees fun c h => ?_
  refine pairs_of_pairwise? (g := fun param arg =>
    (param.1 == .value || arg.isAssignable) && t.same param.2 arg.type) (fun param arg r hr => ?_) h
  split at hr
  · next hpassed => rw [hpassed, Bool.true_and, (same?_eq_some_iff.mp hr).2]
  · next hrefused => rw [Bool.eq_false_iff.mpr hrefused, Bool.false_and]; exact Option.some.inj hr

end Tables

namespace Check

variable {α β : Type} {settings : Settings} {s s' : CheckState} {a a' : α} {b : β}

/-- The step succeeds with a value and leads to a state. -/
def Gives (p : Check α) (settings : Settings) (s : CheckState) (a : α) (s' : CheckState) : Prop :=
  p settings s = .ok a s'

theorem bind_bind {γ : Type} (p : Check α) (f : α → Check β) (g : β → Check γ) :
    (p >>= f) >>= g = p >>= fun a => f a >>= g := by
  funext settings s
  change Check.bind (Check.bind p f) g settings s = Check.bind p (fun a => Check.bind (f a) g) settings s
  unfold Check.bind
  cases p settings s <;> rfl

theorem pure_bind (a : α) (f : α → Check β) : (pure a : Check α) >>= f = f a := rfl

theorem ite_bind {c : Prop} [Decidable c] (p q : Check α) (f : α → Check β) :
    (if c then p else q) >>= f = if c then p >>= f else q >>= f := by
  split <;> rfl

@[simp] theorem gives_pure : (pure a : Check α).Gives settings s a' s' ↔ a = a' ∧ s = s' := by
  change CheckResult.ok a s = CheckResult.ok a' s' ↔ _
  simp

@[simp] theorem gives_bind {p : Check α} {f : α → Check β} :
    (p >>= f).Gives settings s b s' ↔
      ∃ a s₁, p.Gives settings s a s₁ ∧ (f a).Gives settings s₁ b s' := by
  change Check.bind p f settings s = _ ↔ _
  unfold Check.bind Gives
  cases p settings s <;> simp [and_assoc]

@[simp] theorem gives_ite {c : Prop} [Decidable c] {p q : Check α} :
    (if c then p else q).Gives settings s a s' ↔
      if c then p.Gives settings s a s' else q.Gives settings s a s' := by
  split <;> rfl

@[simp] theorem gives_forM_nil {f : α → Check Unit} {u : Unit} :
    (([] : List α).forM f).Gives settings s u s' ↔ s = s' := by
  change (pure () : Check Unit).Gives settings s u s' ↔ _
  simp

@[simp] theorem gives_forM_cons {f : α → Check Unit} {rest : List α} {u : Unit} :
    ((a :: rest).forM f).Gives settings s u s' ↔
      ∃ s₁, (f a).Gives settings s () s₁ ∧ (rest.forM f).Gives settings s₁ () s' := by
  change (f a >>= fun _ => rest.forM f).Gives settings s u s' ↔ _
  rw [gives_bind]
  exact ⟨fun ⟨_, s₁, hfirst, hrest⟩ => ⟨s₁, hfirst, hrest⟩,
    fun ⟨s₁, hfirst, hrest⟩ => ⟨(), s₁, hfirst, hrest⟩⟩

/-- What each of the steps keeps holds at the end, by induction on the steps. -/
theorem gives_forM_keeps {f : α → Check Unit} {items : List α} {P : CheckState → Prop}
    (h : (items.forM f).Gives settings s () s') (hs : P s)
    (hf : ∀ a ∈ items, ∀ t t', (f a).Gives settings t () t' → P t → P t') : P s' := by
  induction items generalizing s with
  | nil => exact gives_forM_nil.mp h ▸ hs
  | cons a rest ih =>
      obtain ⟨s₁, hfirst, hrest⟩ := gives_forM_cons.mp h
      exact ih hrest (hf a List.mem_cons_self s s₁ hfirst hs) fun b hb => hf b (List.mem_cons_of_mem _ hb)

@[simp] theorem gives_raise {kind : TypeErrorKind} {span : Span} {help : Option String}
    {related : Option (Span × String)} :
    ¬ (raise kind span help related : Check α).Gives settings s a s' := by
  simp [raise, Gives]

@[simp] theorem gives_fault {f : Fault} : ¬ (fault f : Check α).Gives settings s a s' := by
  simp [fault, Gives]

@[simp] theorem gives_update {f : CheckState → CheckState} {u : Unit} :
    (update f).Gives settings s u s' ↔ f s = s' := by
  simp [update, Gives]

@[simp] theorem gives_settings {c : Settings} :
    Check.settings.Gives settings s c s' ↔ settings = c ∧ s = s' := by
  simp [Check.settings, Gives]

@[simp] theorem gives_state {r : CheckState} :
    state.Gives settings s r s' ↔ s = r ∧ s = s' := by
  simp [state, Gives]

@[simp] theorem gives_tables {t : Tables} :
    tables.Gives settings s t s' ↔ s.tables = t ∧ s = s' := by
  simp [tables, Gives]

@[simp] theorem gives_cursor {scope : ScopeId} :
    cursor.Gives settings s scope s' ↔ s.scopes.cursor = scope ∧ s = s' := by
  simp [cursor, Gives]

@[simp] theorem gives_frame? {frame : Option Frame} :
    frame?.Gives settings s frame s' ↔ s.frames.head? = frame ∧ s = s' := by
  simp [frame?, Gives]

@[simp] theorem gives_require {o : Option α} {f : Fault} :
    (require o f).Gives settings s a s' ↔ o = some a ∧ s = s' := by
  cases o <;> simp [require]

/-- A part that has to be there and agrees with a value that is always there. -/
theorem gives_require_of_agrees {o : Option α} {f : Fault} {c : α} (h : ∀ b, o = some b → c = b) :
    (require o f).Gives settings s a s' ↔ (o.isSome ∧ c = a) ∧ s = s' := by
  rw [gives_require, eq_some_iff_of_agrees h]

/-! ## Reading the tables -/

@[simp] theorem gives_tyOf {type : TypeId} {ty : Ty} :
    (tyOf type).Gives settings s ty s' ↔ s.tables.types.get? type = some ty ∧ s = s' := by
  simp [tyOf, and_assoc]

@[simp] theorem gives_concreteOf {type last : TypeId} :
    (concreteOf type).Gives settings s last s' ↔
      ((s.tables.concrete? type).isSome ∧ s.tables.concrete type = last) ∧ s = s' := by
  simp [concreteOf, and_assoc, Tables.concrete?_eq_some_iff]

@[simp] theorem gives_concreteTy {type : TypeId} {ty : Ty} :
    (concreteTy type).Gives settings s ty s' ↔
      ((s.tables.concrete? type).isSome ∧ s.tables.concreteTy? type = some ty) ∧ s = s' := by
  simp [concreteTy, Tables.concreteTy?, and_assoc]

@[simp] theorem gives_representationTy {type : TypeId} {ty : Ty} :
    (representationTy type).Gives settings s ty s' ↔
      ((s.tables.representation? type).isSome ∧
        s.tables.types.get? (s.tables.representation type) = some ty) ∧ s = s' := by
  simp [representationTy, and_assoc, Tables.representation?_eq_some_iff]

@[simp] theorem gives_symbol {id : SymbolId} {entry : Symbol} :
    (symbol id).Gives settings s entry s' ↔ s.tables.symbols.get? id = some entry ∧ s = s' := by
  simp [symbol, and_assoc]

@[simp] theorem gives_kindOf {id : SymbolId} {kind : SymbolKind} :
    (kindOf id).Gives settings s kind s' ↔ s.tables.symbols.kind? id = some kind ∧ s = s' := by
  simp only [kindOf, gives_bind, gives_symbol, gives_pure, SymbolTable.kind?,
    Option.map_eq_some_iff]
  grind

@[simp] theorem gives_nameOf {id : SymbolId} {name : String} :
    (nameOf id).Gives settings s name s' ↔
      (s.tables.symbols.get? id).map Symbol.name = some name ∧ s = s' := by
  simp only [nameOf, gives_bind, gives_symbol, gives_pure, Option.map_eq_some_iff]
  grind

@[simp] theorem gives_funcOf {id : SymbolId} {info : Option FuncInfo} :
    (funcOf id).Gives settings s info s' ↔
      ((s.tables.symbols.kind? id).isSome ∧ s.tables.symbols.func? id = info) ∧ s = s' := by
  simp only [funcOf, gives_bind, gives_kindOf, SymbolTable.func?]
  cases s.tables.symbols.kind? id with
  | none => simp
  | some kind => cases kind <;> simp

@[simp] theorem gives_closureOf {id : SymbolId} {info : Option ClosureInfo} :
    (closureOf id).Gives settings s info s' ↔
      ((s.tables.symbols.kind? id).isSome ∧ s.tables.symbols.closure? id = info) ∧ s = s' := by
  simp only [closureOf, gives_bind, gives_kindOf, SymbolTable.closure?]
  cases s.tables.symbols.kind? id with
  | none => simp
  | some kind => cases kind <;> simp

@[simp] theorem gives_objectOf {id : SymbolId} {info : Option ObjectInfo} :
    (objectOf id).Gives settings s info s' ↔
      ((s.tables.symbols.kind? id).isSome ∧ s.tables.symbols.object? id = info) ∧ s = s' := by
  simp only [objectOf, gives_bind, gives_kindOf, SymbolTable.object?]
  cases s.tables.symbols.kind? id with
  | none => simp
  | some kind => cases kind <;> simp

@[simp] theorem gives_typeText {type : TypeId} {text : String} :
    (typeText type).Gives settings s text s' ↔ s.tables.text? type = some text ∧ s = s' := by
  simp [typeText, and_assoc]

@[simp] theorem gives_same {x y : TypeId} {result : Bool} :
    (same x y).Gives settings s result s' ↔
      ((s.tables.same? x y).isSome ∧ s.tables.same x y = result) ∧ s = s' := by
  simp [same, and_assoc, Tables.same?_eq_some_iff]

@[simp] theorem gives_isVoid {x : TypeId} {result : Bool} :
    (isVoid x).Gives settings s result s' ↔
      ((s.tables.concrete? x).isSome ∧ s.tables.isVoid x = result) ∧ s = s' := by
  simp only [isVoid, gives_bind, gives_concreteOf, gives_pure, Tables.isVoid]
  grind

@[simp] theorem gives_pendingOf {type : TypeId} {func : Option SymbolId} :
    (pendingOf type).Gives settings s func s' ↔
      ((s.tables.types.get? type).isSome ∧ s.tables.types.pending? type = func) ∧ s = s' := by
  simp only [pendingOf, gives_bind, gives_tyOf, TypeTable.pending?]
  cases s.tables.types.get? type with
  | none => simp
  | some ty => cases ty <;> simp

@[simp] theorem gives_builtinOf {type : TypeId} {kind : Option Builtin} :
    (builtinOf type).Gives settings s kind s' ↔
      ((s.tables.concrete? type).isSome ∧ (s.tables.concreteTy? type).isSome ∧
        s.tables.builtin? type = kind) ∧ s = s' := by
  simp only [builtinOf, gives_bind, gives_concreteTy, Tables.builtin?, TypeTable.builtin?,
    Tables.concreteTy?]
  cases s.tables.types.get? (s.tables.concrete type) with
  | none => simp
  | some ty => cases ty <;> simp [and_assoc]

@[simp] theorem gives_elementOf {type : TypeId} {element : Option TypeId} :
    (elementOf type).Gives settings s element s' ↔
      ((s.tables.concrete? type).isSome ∧ (s.tables.concreteTy? type).isSome ∧
        s.tables.element? type = element) ∧ s = s' := by
  simp only [elementOf, gives_bind, gives_concreteTy, Tables.element?]
  cases s.tables.concreteTy? type with
  | none => simp
  | some ty => cases ty <;> simp [and_assoc]

@[simp] theorem gives_categoryOf {type : TypeId} {category : Category} :
    (categoryOf type).Gives settings s category s' ↔
      ((s.tables.representation? type).isSome ∧
        (s.tables.types.get? (s.tables.representation type)).isSome ∧
        s.tables.classify type = category) ∧ s = s' := by
  simp only [categoryOf, gives_bind, gives_representationTy, gives_tables, gives_pure]
  cases s.tables.types.get? (s.tables.representation type) with
  | none => simp
  | some ty => simp [and_assoc]

@[simp] theorem gives_mismatch {expected found : TypeId} {span : Span} :
    ¬ (mismatch expected found span : Check α).Gives settings s a s' := by
  simp [mismatch]

@[simp] theorem gives_scopeAt {scope : ScopeId} {found : Scope} :
    (scopeAt scope).Gives settings s found s' ↔ s.scopes.get? scope = some found ∧ s = s' := by
  simp [scopeAt, and_assoc]

@[simp] theorem gives_entriesOf {scope : ScopeId} {name : String} {entries : List SymbolId} :
    (entriesOf scope name).Gives settings s entries s' ↔
      ((s.scopes.get? scope).isSome ∧ s.scopes.entries scope name = entries) ∧ s = s' := by
  simp only [entriesOf, gives_bind, gives_scopeAt, gives_pure, ScopeGraph.entries]
  cases s.scopes.get? scope <;> simp

@[simp] theorem gives_membersOf {scope : ScopeId} {rows : List Row} :
    (membersOf scope).Gives settings s rows s' ↔
      ((s.scopes.get? scope).isSome ∧ s.scopes.members scope = rows) ∧ s = s' := by
  simp only [membersOf, gives_bind, gives_scopeAt, gives_pure, ScopeGraph.members]
  cases s.scopes.get? scope <;> simp

@[simp] theorem gives_casesOf {scope : ScopeId} {rows : List Row} :
    (casesOf scope).Gives settings s rows s' ↔
      ((s.scopes.get? scope).isSome ∧ s.scopes.cases scope = rows) ∧ s = s' := by
  simp only [casesOf, gives_bind, gives_scopeAt, gives_pure, ScopeGraph.cases]
  cases s.scopes.get? scope <;> simp

@[simp] theorem gives_isWithin {scope ancestor : ScopeId} {result : Bool} :
    (isWithin scope ancestor).Gives settings s result s' ↔
      ((s.scopes.path? scope).isSome ∧ s.scopes.isWithin scope ancestor = result) ∧ s = s' := by
  simp only [isWithin, gives_bind, gives_state, gives_require_of_agrees fun _ => ScopeGraph.path_of_path?,
    gives_pure, ScopeGraph.isWithin]
  grind

/-! ## Changing the state -/

@[simp] theorem gives_modifySymbols {f : SymbolTable → SymbolTable} {u : Unit} :
    (modifySymbols f).Gives settings s u s' ↔
      { s with tables.symbols := f s.tables.symbols } = s' := by
  simp [modifySymbols]

@[simp] theorem gives_modifyAt {id : SymbolId} {f : SymbolTable → SymbolTable} {u : Unit} :
    (modifyAt id f).Gives settings s u s' ↔ (s.tables.symbols.get? id).isSome ∧
      { s with tables.symbols := f s.tables.symbols } = s' := by
  simp [modifyAt, Option.isSome_iff_exists]

@[simp] theorem gives_markUsed {id : SymbolId} {u : Unit} :
    (markUsed id).Gives settings s u s' ↔ (s.tables.symbols.get? id).isSome ∧
      { s with tables.symbols := s.tables.symbols.modify id fun e => { e with used := true } } = s' :=
  gives_modifyAt

@[simp] theorem gives_modifyKind {id : SymbolId} {f : SymbolKind → SymbolKind} {u : Unit} :
    (modifyKind id f).Gives settings s u s' ↔ (s.tables.symbols.get? id).isSome ∧
      { s with tables.symbols := s.tables.symbols.modifyKind id f } = s' :=
  gives_modifyAt

@[simp] theorem gives_modifyFunc {id : SymbolId} {f : FuncInfo → FuncInfo} {u : Unit} :
    (modifyFunc id f).Gives settings s u s' ↔ (s.tables.symbols.get? id).isSome ∧
      { s with tables.symbols := s.tables.symbols.modifyFunc id f } = s' :=
  gives_modifyAt

@[simp] theorem gives_modifyClosure {id : SymbolId} {f : ClosureInfo → ClosureInfo} {u : Unit} :
    (modifyClosure id f).Gives settings s u s' ↔ (s.tables.symbols.get? id).isSome ∧
      { s with tables.symbols := s.tables.symbols.modifyClosure id f } = s' :=
  gives_modifyAt

@[simp] theorem gives_modifyScopes {f : ScopeGraph → ScopeGraph} {u : Unit} :
    (modifyScopes f).Gives settings s u s' ↔ { s with scopes := f s.scopes } = s' := by
  simp [modifyScopes]

@[simp] theorem gives_intern {ty : Ty} {id : TypeId} :
    (intern ty).Gives settings s id s' ↔ (s.tables.types.intern ty).1 = id ∧
      { s with tables.types := (s.tables.types.intern ty).2 } = s' := by
  simp [intern, Gives]

@[simp] theorem gives_newSymbol {name : String} {span : Span} {kind : SymbolKind}
    {scope : ScopeId} {id : SymbolId} :
    (newSymbol name span kind scope).Gives settings s id s' ↔
      s.tables.symbols.size = id ∧
        { s with tables.symbols := (s.tables.symbols.add { name, span, kind, scope }).2 } = s' := by
  simp [newSymbol, Gives, SymbolTable.add]

@[simp] theorem gives_enterScope {kind : ScopeKind} {owner : Option SymbolId} {scope : ScopeId} :
    (enterScope kind owner).Gives settings s scope s' ↔ s.scopes.size = scope ∧
      { s with scopes := s.scopes.enter kind owner } = s' := by
  simp [enterScope, ScopeGraph.enter]

@[simp] theorem gives_setOwner {scope : ScopeId} {owner : SymbolId} {u : Unit} :
    (setOwner scope owner).Gives settings s u s' ↔ (s.scopes.get? scope).isSome ∧
      { s with scopes := s.scopes.setOwner scope owner } = s' := by
  simp [setOwner, Option.isSome_iff_exists]

@[simp] theorem gives_leaveScope {u : Unit} :
    leaveScope.Gives settings s u s' ↔ (s.scopes.get? s.scopes.cursor).isSome ∧
      { s with scopes := s.scopes.leave } = s' := by
  simp [leaveScope, Option.isSome_iff_exists]

@[simp] theorem gives_withCursor {scope : ScopeId} {p : Check α} :
    (withCursor scope p).Gives settings s a s' ↔ (s.scopes.get? scope).isSome ∧
      ∃ s₁, p.Gives settings { s with scopes := s.scopes.setCursor scope } a s₁ ∧
        { s₁ with scopes := s₁.scopes.setCursor s.scopes.cursor } = s' := by
  simp only [withCursor, gives_bind, gives_scopeAt, gives_cursor, gives_modifyScopes, gives_pure,
    Option.isSome_iff_exists]
  constructor
  · rintro ⟨found, _, ⟨hfound, rfl⟩, _, _, ⟨rfl, rfl⟩, _, _, rfl, _, s₁, hp, _, _, rfl, rfl, rfl⟩
    exact ⟨⟨found, hfound⟩, s₁, hp, rfl⟩
  · rintro ⟨⟨found, hfound⟩, s₁, hp, rfl⟩
    exact ⟨found, s, ⟨hfound, rfl⟩, _, s, ⟨rfl, rfl⟩, (), _, rfl, a, s₁, hp, (), _, rfl, rfl, rfl⟩

theorem gives_popFrame {frame : Frame} :
    popFrame.Gives settings s frame s' ↔
      ∃ rest, s.frames = frame :: rest ∧ { s with frames := rest } = s' := by
  simp only [popFrame, gives_bind, gives_state]
  constructor
  · rintro ⟨_, _, ⟨rfl, rfl⟩, h⟩
    split at h
    · next hframes =>
      simp only [gives_bind, gives_update, gives_pure] at h
      obtain ⟨_, _, rfl, rfl, rfl⟩ := h
      exact ⟨_, hframes, rfl⟩
    · simp at h
  · rintro ⟨rest, hframes, rfl⟩
    refine ⟨_, _, ⟨rfl, rfl⟩, ?_⟩
    simp [hframes]

/-! ## Searches -/

@[simp] theorem gives_searching {r : CheckState} :
    searching.Gives settings s r s' ↔ (s.isSearchable ∧ s = r) ∧ s = s' := by
  simp only [searching, gives_bind, gives_state]
  constructor
  · rintro ⟨_, _, ⟨rfl, rfl⟩, h⟩
    split at h
    · next hsearchable => exact ⟨⟨hsearchable, (gives_pure.mp h).1⟩, (gives_pure.mp h).2⟩
    · exact absurd h gives_fault
  · rintro ⟨⟨hsearchable, rfl⟩, rfl⟩
    exact ⟨s, s, ⟨rfl, rfl⟩, by rw [if_pos hsearchable]; exact gives_pure.mpr ⟨rfl, rfl⟩⟩

theorem lookup_state {name : Ident} {entries : List SymbolId}
    (h : (lookup name).Gives settings s entries s') : s = s' := by
  simp only [lookup, gives_bind, gives_searching] at h
  obtain ⟨_, _, ⟨⟨-, rfl⟩, rfl⟩, h⟩ := h
  split at h
  · exact (gives_pure.mp h).2
  · exact (gives_pure.mp h).2
  · simp at h

/-- All scopes and symbols are there that a new row is compared with. -/
def IsComparable (s : CheckState) (row : Row) : Prop :=
  (s.scopes.path? s.scopes.cursor).isSome ∧
    ((s.scopes.entries s.scopes.cursor row.name).findM? (s.tables.conflicts? row.symbol)).isSome

@[simp] theorem gives_requireComparable {row : Row} {u : Unit} :
    (requireComparable row).Gives settings s u s' ↔ IsComparable s row ∧ s = s' := by
  simp only [requireComparable, gives_bind, gives_state, gives_require, gives_pure, IsComparable,
    Option.isSome_iff_exists]
  constructor
  · rintro ⟨_, _, ⟨rfl, rfl⟩, path, _, ⟨hpath, rfl⟩, found, _, ⟨hfound, rfl⟩, -, rfl⟩
    exact ⟨⟨⟨path, hpath⟩, found, hfound⟩, rfl⟩
  · rintro ⟨⟨⟨path, hpath⟩, found, hfound⟩, rfl⟩
    exact ⟨s, s, ⟨rfl, rfl⟩, path, s, ⟨hpath, rfl⟩, found, s, ⟨hfound, rfl⟩, trivial, rfl⟩

/-! ## Operands and arguments -/

@[simp] theorem gives_requireKnown {type r : ExprType} {span : Span} :
    (requireKnown type span).Gives settings s r s' ↔
      ((s.tables.types.get? type.type).isSome ∧ s.tables.types.pending? type.type = none) ∧
        type = r ∧ s = s' := by
  simp only [requireKnown, gives_bind, gives_pendingOf]
  constructor
  · rintro ⟨_, _, ⟨⟨hsome, rfl⟩, rfl⟩, h⟩
    split at h
    · simp at h
    · next hnone => exact ⟨⟨hsome, hnone⟩, by simpa using h⟩
  · rintro ⟨⟨hsome, hnone⟩, rfl, rfl⟩
    exact ⟨_, _, ⟨⟨hsome, rfl⟩, rfl⟩, by simp [hnone]⟩

@[simp] theorem gives_known {p : Check ExprType} {r : ExprType} {span : Span} :
    (known span p).Gives settings s r s' ↔ p.Gives settings s r s' ∧
      (s'.tables.types.get? r.type).isSome ∧ s'.tables.types.pending? r.type = none := by
  simp only [known, gives_bind, gives_requireKnown]
  constructor
  · rintro ⟨_, _, hp, hknown, rfl, rfl⟩
    exact ⟨hp, hknown⟩
  · rintro ⟨hp, hknown⟩
    exact ⟨r, s', hp, hknown, rfl, rfl⟩

@[simp] theorem gives_funcMeant {node : Nat} {info : Option FuncInfo} :
    (funcMeant node).Gives settings s info s' ↔
      ((∀ symbol, s.meanings.exprs.get? node = some symbol → (s.tables.symbols.kind? symbol).isSome) ∧
        (s.meanings.exprs.get? node).bind s.tables.symbols.func? = info) ∧ s = s' := by
  simp only [funcMeant, gives_bind, gives_state]
  constructor
  · rintro ⟨_, _, ⟨rfl, rfl⟩, h⟩
    split at h
    · next symbol hsymbol => simpa [hsymbol] using h
    · next hnone => simpa [hnone] using h
  · rintro ⟨⟨hsome, rfl⟩, rfl⟩
    refine ⟨_, _, ⟨rfl, rfl⟩, ?_⟩
    split
    · next symbol hsymbol => simp [hsymbol, hsome symbol hsymbol]
    · next hnone => simp [hnone]

@[simp] theorem gives_expectedElement {expected element : Option TypeId} :
    (expectedElement expected).Gives settings s element s' ↔
      ((∀ type, expected = some type →
        (s.tables.concrete? type).isSome ∧ (s.tables.concreteTy? type).isSome) ∧
        expected.bind s.tables.element? = element) ∧ s = s' := by
  cases expected <;> simp [expectedElement, and_assoc]

@[simp] theorem gives_accepts {params : List (RefKind × TypeId)} {args : List ExprType} {r : Bool} :
    (accepts params args).Gives settings s r s' ↔
      ((s.tables.accepts? params args).isSome ∧ s.tables.accepts params args = r) ∧ s = s' := by
  simp [accepts, and_assoc, Tables.accepts?_eq_some_iff]

theorem operandFits_gives {op : BinOp} {type : TypeId} {r : Bool}
    (h : (operandFits op type).Gives settings s r s') : s.tables.operandFits op type = r ∧ s = s' := by
  simp only [operandFits, gives_bind, gives_concreteTy, gives_tables, gives_ite, gives_pure,
    gives_representationTy] at h
  obtain ⟨_, _, ⟨-, rfl⟩, h⟩ := h
  split at h
  · obtain ⟨_, _, ⟨-, rfl⟩, _, _, ⟨rfl, rfl⟩, h⟩ := h
    exact h
  · obtain ⟨_, _, ⟨rfl, rfl⟩, h⟩ := h
    exact h

/-- Replacing a placeholder changes neither symbols nor diagnostics. -/
theorem settleExprs_still {pending ret : TypeId} (exprs : List Nat) (s : CheckState) :
    (CheckState.settleExprs pending ret s exprs).diagnostics = s.diagnostics ∧
      (CheckState.settleExprs pending ret s exprs).tables.symbols = s.tables.symbols := by
  induction exprs generalizing s with
  | nil => exact ⟨rfl, rfl⟩
  | cons node rest ih =>
      refine ⟨(ih _).1.trans ?_, (ih _).2.trans ?_⟩ <;> dsimp only <;>
        cases s.exprTypes.get? node <;> rfl

theorem resolvePending_still {func : SymbolId} {ret : TypeId} (s : CheckState) :
    (s.resolvePending func ret).diagnostics = s.diagnostics ∧
      (s.resolvePending func ret).tables.symbols = s.tables.symbols := by
  unfold CheckState.resolvePending
  cases s.tables.types.find? (.pending func) with
  | none => exact ⟨rfl, rfl⟩
  | some pending => exact settleExprs_still _ s

theorem replacePending_gives {func : SymbolId} {ret : TypeId} {u : Unit}
    (h : (replacePending func ret).Gives settings s u s') : s.resolvePending func ret = s' := by
  have hread {s₁ : CheckState} (entries : List (Nat × Typing))
      (h : (entries.forM fun entry => do
        let _ ← tyOf entry.2.type.type).Gives settings s () s₁) : s = s₁ := by
    refine gives_forM_keeps (P := (s = ·)) h rfl fun entry _ t t' hentry heq => ?_
    simp only [gives_bind, gives_tyOf, gives_pure] at hentry
    obtain ⟨_, _, ⟨-, rfl⟩, -, rfl⟩ := hentry
    exact heq
  simp only [replacePending, gives_bind, gives_state, gives_ite, gives_update] at h
  obtain ⟨_, _, ⟨rfl, rfl⟩, h⟩ := h
  split at h
  · obtain ⟨_, s₁, hforM, h⟩ := h
    obtain rfl := hread _ hforM
    exact h
  · exact h

end Check

end Stela
