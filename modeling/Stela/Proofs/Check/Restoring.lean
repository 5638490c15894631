import Stela.Proofs.Check.Arising
import Stela.Proofs.Check.Invariant
import Stela.Proofs.Types.Outline

/-!
# Growth and return

A step may enter types, symbols and scopes; it never takes one back, and what identifies a symbol
stays. A step that restores the state leaves every scope and every body that it enters, so the
cursor is where it was, and the same bodies with the same loops are under analysis.
-/

namespace Stela

/-! ## Symbols -/

/-- What never changes about a symbol: its name, where it was declared and what sort it is of. -/
def Symbol.identity (entry : Symbol) : String × Span × ScopeId × String :=
  (entry.name, entry.span, entry.scope, entry.kind.describe)

namespace SymbolTable

variable {t t' : SymbolTable} {id other : SymbolId} {entry : Symbol}

def identity? (t : SymbolTable) (id : SymbolId) : Option (String × Span × ScopeId × String) :=
  (t.get? id).map Symbol.identity

/-- No symbol is taken back or becomes another one. -/
def Preserves (t t' : SymbolTable) : Prop :=
  ∀ id identity, t.identity? id = some identity → t'.identity? id = some identity

theorem Preserves.refl (t : SymbolTable) : t.Preserves t := fun _ _ h => h

theorem Preserves.trans {t'' : SymbolTable} (h : t.Preserves t') (h' : t'.Preserves t'') : t.Preserves t'' :=
  fun id identity hid => h' id identity (h id identity hid)

theorem preserves_of_eq (h : ∀ id, t'.identity? id = t.identity? id) : t.Preserves t' :=
  fun id _ hid => (h id).trans hid

theorem preserves_add : t.Preserves (t.add entry).2 := by
  intro id identity hid
  obtain ⟨old, hold, -⟩ := Option.map_eq_some_iff.mp hid
  rw [identity?, get?_add_of_lt (Array.getElem?_eq_some_iff.mp hold).1]
  exact hid

theorem identity?_modify {f : Symbol → Symbol}
    (hf : ∀ entry, t.get? id = some entry → (f entry).identity = entry.identity) :
    (t.modify id f).identity? other = t.identity? other := by
  have hget : (t.modify id f).get? other = if id = other then (t.get? other).map f else t.get? other :=
    Array.getElem?_modify
  rw [identity?, identity?, hget]
  split
  · next heq =>
    subst heq
    cases hentry : t.get? id with
    | none => rfl
    | some entry => exact congrArg some (hf entry hentry)
  · rfl

theorem identity?_modifyKind {f : SymbolKind → SymbolKind}
    (hf : ∀ kind, t.kind? id = some kind → (f kind).describe = kind.describe) :
    (t.modifyKind id f).identity? other = t.identity? other :=
  identity?_modify fun entry hentry => by
    rw [Symbol.identity, Symbol.identity, hf _ (kind?_of_get? hentry)]

theorem identity?_modifyFunc {f : FuncInfo → FuncInfo} :
    (t.modifyFunc id f).identity? other = t.identity? other :=
  identity?_modifyKind fun kind _ => by cases kind <;> rfl

theorem identity?_modifyClosure {f : ClosureInfo → ClosureInfo} :
    (t.modifyClosure id f).identity? other = t.identity? other :=
  identity?_modifyKind fun kind _ => by cases kind <;> rfl

end SymbolTable

/-! ## Progress of functions -/

/-- How far a function was analyzed. -/
def Outline.state? : Outline → Option BodyState
  | .func _ _ state => some state
  | _ => none

namespace SymbolTable

variable {t t' : SymbolTable} {id other : SymbolId}

def state? (t : SymbolTable) (id : SymbolId) : Option BodyState := (t.func? id).map FuncInfo.state

theorem state?_eq : t.state? id = (t.outline? id).bind fun o => o.2.state? := by
  unfold state? func? kind? outline?
  rcases t.get? id with - | ⟨_, _, kind, _⟩
  · rfl
  · cases kind <;> rfl

theorem state?_congr (h : t'.outline? id = t.outline? id) : t'.state? id = t.state? id := by
  rw [state?_eq, state?_eq, h]

theorem state?_add {entry : Symbol} : (t.add entry).2.state? id =
    if t.size = id then entry.kind.outline.state? else t.state? id := by
  rw [state?_eq, state?_eq, sets_add id]
  split <;> rfl

theorem state?_size : t.state? t.size = none := congrArg (Option.map _) func?_size

theorem state?_modifyKind {f : SymbolKind → SymbolKind}
    (hf : ∀ kind, t.kind? id = some kind → (f kind).outline.state? = kind.outline.state?) :
    (t.modifyKind id f).state? other = t.state? other := by
  rw [state?_eq, state?_eq, modifyKind, outline?_modify]
  split
  · next heq =>
    subst heq
    cases hentry : t.get? id with
    | none => simp [outline?, hentry]
    | some entry => simp [outline?, hentry, hf _ (kind?_of_get? hentry)]
  · rfl

/-- The function itself may make progress, the others do not. -/
theorem state?_modifyFunc {f : FuncInfo → FuncInfo} {info : FuncInfo} (h : t.func? id = some info)
    (other : SymbolId) : (t.modifyFunc id f).state? other =
      if id = other then some (f info).state else t.state? other := by
  obtain ⟨place, ho⟩ := outline?_of_func? h
  rw [state?_eq, state?_eq, sets_modifyFunc h ho other]
  split <;> rfl

end SymbolTable

/-! ## States -/

/-- What identifies a body under analysis. -/
def Frame.place (frame : Frame) : SymbolId × FrameKind × ScopeId :=
  (frame.symbol, frame.kind, frame.scope)

namespace CheckState

/-- The bodies under analysis with the loops that were entered in them, innermost first. -/
def bodies (s : CheckState) : List ((SymbolId × FrameKind × ScopeId) × Nat) :=
  s.frames.map fun frame => (frame.place, frame.loopDepth)

/-- The tables of the second state extend those of the first: types keep their numbers, symbols what
identifies them, and scopes their kinds, parents and bindings. -/
structure Enlarges (s s' : CheckState) : Prop where
  types : s.tables.types.Within s'.tables.types
  symbols : s.tables.symbols.Preserves s'.tables.symbols
  scopes : s.scopes.Grows s'.scopes
  rows : ∀ scope, s.scopes.rows scope <+: s'.scopes.rows scope
  /-- Scopes and modules change as those of contexts do. -/
  arises : s.Arises → s'.Arises

/-- The second state extends the first, the cursor is where it was, the same bodies and loops are
under analysis, and the same functions are in progress. -/
structure Restores (s s' : CheckState) : Prop extends s.Enlarges s' where
  cursor : s'.scopes.cursor = s.scopes.cursor
  bodies : s'.bodies = s.bodies
  progress : ∀ func, s'.tables.InProgress func ↔ s.tables.InProgress func

variable {s s₁ s' s'' : CheckState}

theorem Enlarges.refl (s : CheckState) : s.Enlarges s :=
  ⟨.refl _, .refl _, .refl _, fun _ => List.prefix_refl _, id⟩

theorem Enlarges.trans (h : s.Enlarges s') (h' : s'.Enlarges s'') : s.Enlarges s'' :=
  ⟨h.types.trans h'.types, h.symbols.trans h'.symbols, h.scopes.trans h'.scopes,
    fun scope => (h.rows scope).trans (h'.rows scope), fun hs => h'.arises (h.arises hs)⟩

theorem Restores.refl (s : CheckState) : s.Restores s := ⟨.refl s, rfl, rfl, fun _ => .rfl⟩

theorem Restores.trans (h : s.Restores s') (h' : s'.Restores s'') : s.Restores s'' :=
  ⟨h.toEnlarges.trans h'.toEnlarges, h'.cursor.trans h.cursor, h'.bodies.trans h.bodies,
    fun func => (h'.progress func).trans (h.progress func)⟩

/-! ## Single changes -/

/-- Types are added, or something else than tables and scopes changes. -/
theorem restores_aside (hscopes : s'.scopes = s.scopes) (hmodules : s'.modules = s.modules)
    (hsymbols : s'.tables.symbols = s.tables.symbols) (hbodies : s'.bodies = s.bodies)
    (htypes : s.tables.types.Within s'.tables.types) : s.Restores s' where
  types := htypes
  symbols := hsymbols ▸ .refl _
  scopes := hscopes ▸ .refl _
  rows _ := hscopes ▸ List.prefix_refl _
  arises hs := hs.aside hscopes hmodules
  cursor := hscopes ▸ rfl
  bodies := hbodies
  progress _ := by rw [Tables.InProgress, hsymbols]; rfl

/-- Only details of symbols change, or symbols are added. -/
theorem restores_resymbol {t : SymbolTable} (hpreserves : s.tables.symbols.Preserves t)
    (hstates : ∀ func, t.state? func = some .inProgress ↔ s.tables.symbols.state? func = some .inProgress) :
    s.Restores { s with tables.symbols := t } :=
  ⟨⟨.refl _, hpreserves, .refl _, fun _ => List.prefix_refl _, fun hs => hs.aside rfl rfl⟩, rfl, rfl,
    hstates⟩

/-- Only the scope graph changes. -/
theorem enlarges_rescope {g : ScopeGraph} (hgrows : s.scopes.Grows g)
    (hrows : ∀ scope, s.scopes.rows scope <+: g.rows scope)
    (harises : s.Arises → CheckState.Arises { s with scopes := g }) : s.Enlarges { s with scopes := g } :=
  ⟨.refl _, .refl _, hgrows, hrows, harises⟩

theorem restores_rescope {g : ScopeGraph} (hgrows : s.scopes.Grows g)
    (hrows : ∀ scope, s.scopes.rows scope <+: g.rows scope) (hcursor : g.cursor = s.scopes.cursor)
    (harises : s.Arises → CheckState.Arises { s with scopes := g }) : s.Restores { s with scopes := g } :=
  ⟨enlarges_rescope hgrows hrows harises, hcursor, rfl, fun _ => .rfl⟩

/-- A symbol is added that is no function in progress. -/
theorem restores_add {entry : Symbol} (hidle : entry.kind.outline.state? ≠ some .inProgress) :
    s.Restores { s with tables.symbols := (s.tables.symbols.add entry).2 } := by
  refine restores_resymbol SymbolTable.preserves_add fun func => ?_
  rw [SymbolTable.state?_add]
  split
  · next heq => simp [← heq, hidle, SymbolTable.state?_size]
  · rfl

theorem restores_modifyKind {id : SymbolId} {f : SymbolKind → SymbolKind}
    (hdescribe : ∀ kind, (f kind).describe = kind.describe)
    (hstate : ∀ kind, (f kind).outline.state? = kind.outline.state?) :
    s.Restores { s with tables.symbols := s.tables.symbols.modifyKind id f } :=
  restores_resymbol
    (SymbolTable.preserves_of_eq fun _ => SymbolTable.identity?_modifyKind fun kind _ => hdescribe kind)
    fun _ => by rw [SymbolTable.state?_modifyKind fun kind _ => hstate kind]

theorem restores_modifyClosure {closure : SymbolId} {f : ClosureInfo → ClosureInfo} :
    s.Restores { s with tables.symbols := s.tables.symbols.modifyClosure closure f } := by
  refine restores_modifyKind (fun kind => ?_) fun kind => ?_
  all_goals cases kind <;> rfl

theorem restores_modifyFunc {func : SymbolId} {f : FuncInfo → FuncInfo}
    (hstate : ∀ info, (f info).state = info.state) :
    s.Restores { s with tables.symbols := s.tables.symbols.modifyFunc func f } := by
  refine restores_modifyKind (fun kind => ?_) fun kind => ?_
  all_goals
    cases kind with
    | func info => first | rfl | exact congrArg some (hstate info)
    | _ => rfl

theorem restores_insert {row : Row} {conflicts : SymbolId → Bool} {hidden : Option SymbolId}
    {g : ScopeGraph} (h : s.scopes.insert row conflicts = .ok (hidden, g)) :
    s.Restores { s with scopes := g } := by
  obtain ⟨hgrows, -, hcursor⟩ := ScopeGraph.grows_insert h
  refine restores_rescope hgrows (fun scope => ?_) hcursor fun hs => hs.insert h
  rcases ScopeGraph.rows_insert h scope with heq | ⟨heq, -⟩
  · exact heq ▸ List.prefix_refl _
  · exact heq ▸ List.prefix_append _ _

theorem restores_setOwner {scope : ScopeId} {owner : SymbolId} (hscope : (s.scopes.get? scope).isSome) :
    s.Restores { s with scopes := s.scopes.setOwner scope owner } := by
  obtain ⟨_, hget⟩ := Option.isSome_iff_exists.mp hscope
  exact restores_rescope ScopeGraph.grows_setOwner.1
    (fun _ => ScopeGraph.rows_setOwner ▸ List.prefix_refl _) rfl
    fun hs => hs.operation (.setOwner scope owner) (ScopeGraph.lt_size_of_get? hget)

/-- A step elsewhere, from which the cursor comes back. -/
theorem Restores.elsewhere {scope : ScopeId} (hscope : (s.scopes.get? scope).isSome)
    (h : CheckState.Restores { s with scopes := s.scopes.setCursor scope } s₁) :
    s.Restores { s₁ with scopes := s₁.scopes.setCursor s.scopes.cursor } :=
  ⟨⟨h.types, h.symbols, ⟨h.scopes.size, h.scopes.kinds, h.scopes.parents⟩, h.rows,
    fun hs => hs.elsewhere hscope h.arises h.scopes.size⟩, rfl, h.bodies, h.progress⟩

/-! ## Entering and leaving -/

/-- A scope was entered from where the cursor was, and these bodies in it, innermost first. -/
structure Opens (entered : List ((SymbolId × FrameKind × ScopeId) × Nat)) (s s' : CheckState) : Prop
    extends s.Enlarges s' where
  parent : s'.scopes.parent? s'.scopes.cursor = some s.scopes.cursor
  bodies : s'.bodies = entered ++ s.bodies
  progress : ∀ func, s'.tables.InProgress func ↔ s.tables.InProgress func

namespace Opens

variable {entered : List ((SymbolId × FrameKind × ScopeId) × Nat)}
  {body : (SymbolId × FrameKind × ScopeId) × Nat}

theorem after (h : s.Restores s₁) (h' : Opens entered s₁ s') : Opens entered s s' :=
  ⟨h.toEnlarges.trans h'.toEnlarges, h'.parent.trans (congrArg some h.cursor),
    h'.bodies.trans (congrArg (entered ++ ·) h.bodies), fun func => (h'.progress func).trans (h.progress func)⟩

theorem trans (h : Opens entered s s₁) (h' : s₁.Restores s') : Opens entered s s' := by
  refine ⟨h.toEnlarges.trans h'.toEnlarges, ?_, h'.bodies.trans h.bodies,
    fun func => (h'.progress func).trans (h.progress func)⟩
  rw [h'.cursor, h'.scopes.parents _ (ScopeGraph.lt_size_of_parent? h.parent), h.parent]

/-- The cursor returns to the parent of the scope that was entered. -/
theorem leave (h : Opens [] s s₁) : s.Restores { s₁ with scopes := s₁.scopes.leave } := by
  refine ⟨⟨h.types, h.symbols, h.scopes.trans ScopeGraph.grows_leave, h.rows,
    fun hs => (h.arises hs).operation .leave trivial⟩, ?_, h.bodies, h.progress⟩
  rw [ScopeGraph.leave, h.parent]
  rfl

theorem push {frame : Frame} (h : Opens entered s s₁) :
    Opens ((frame.place, frame.loopDepth) :: entered) s { s₁ with frames := frame :: s₁.frames } :=
  ⟨⟨h.types, h.symbols, h.scopes, h.rows, fun hs => (h.arises hs).aside rfl rfl⟩, h.parent,
    congrArg (_ :: ·) h.bodies, h.progress⟩

theorem pop {frame : Frame} {rest : List Frame} (h : Opens (body :: entered) s s₁)
    (hframes : s₁.frames = frame :: rest) : Opens entered s { s₁ with frames := rest } := by
  refine ⟨⟨h.types, h.symbols, h.scopes, h.rows, fun hs => (h.arises hs).aside rfl rfl⟩, h.parent, ?_,
    h.progress⟩
  have hbodies := h.bodies
  rw [CheckState.bodies, hframes] at hbodies
  exact (List.cons.inj hbodies).2

end Opens

theorem opens_enter {kind : ScopeKind} {owner : Option SymbolId} :
    Opens [] s { s with scopes := s.scopes.enter kind owner } :=
  ⟨enlarges_rescope ScopeGraph.grows_enter (fun _ => ScopeGraph.rows_enter ▸ List.prefix_refl _)
    fun hs => hs.operation (.enter kind owner) trivial,
    ScopeGraph.parent?_enter_self, rfl, fun _ => .rfl⟩

end CheckState

namespace Check

open CheckState

variable {α β : Type} {settings : Settings} {s s₁ s' : CheckState} {p : Check α} {f : α → Check β}

/-- A step that always restores the state. -/
def Restoring (p : Check α) : Prop :=
  ∀ settings s a s', p.Gives settings s a s' → s.Restores s'

theorem Restoring.restores (h : Restoring p) {a : α} (hgives : p.Gives settings s a s') : s.Restores s' :=
  h settings s a s' hgives

theorem Restoring.bind (h : Restoring p) (hf : ∀ a, Restoring (f a)) : Restoring (p >>= f) := by
  intro settings s b s' hgives
  obtain ⟨a, s₁, hp, hrest⟩ := gives_bind.mp hgives
  exact (h.restores hp).trans ((hf a).restores hrest)

theorem Restoring.ite {c : Prop} [Decidable c] {q : Check α} (hp : Restoring p) (hq : Restoring q) :
    Restoring (if c then p else q) := by
  split
  · exact hp
  · exact hq

theorem Restoring.forM {items : List α} {f : α → Check Unit} (h : ∀ a ∈ items, Restoring (f a)) :
    Restoring (items.forM f) := fun _ s _ _ hgives =>
  gives_forM_keeps (P := s.Restores) hgives (.refl s) fun a ha _ _ hstep hs =>
    hs.trans ((h a ha).restores hstep)

theorem Restoring.withCursor (h : Restoring p) {scope : ScopeId} : Restoring (withCursor scope p) := by
  intro settings s a s' hgives
  obtain ⟨hscope, s₁, hp, rfl⟩ := gives_withCursor.mp hgives
  exact .elsewhere hscope (h.restores hp)

theorem restoring_update {f : CheckState → CheckState} (h : ∀ s : CheckState, s.Restores (f s)) :
    Restoring (update f) := fun _ s _ _ hgives => gives_update.mp hgives ▸ h s

theorem restoring_newSymbol {name : String} {span : Span} {kind : SymbolKind} {scope : ScopeId}
    (hidle : kind.outline.state? ≠ some .inProgress) : Restoring (newSymbol name span kind scope) := by
  intro settings s id s' hgives
  obtain ⟨-, rfl⟩ := gives_newSymbol.mp hgives
  exact restores_add hidle

theorem restoring_modifyAt {id : SymbolId} {f : SymbolTable → SymbolTable}
    (h : ∀ s : CheckState, s.Restores { s with tables.symbols := f s.tables.symbols }) :
    Restoring (modifyAt id f) := fun _ s _ _ hgives => (gives_modifyAt.mp hgives).2 ▸ h s

theorem restoring_modifyClosure {closure : SymbolId} {f : ClosureInfo → ClosureInfo} :
    Restoring (modifyClosure closure f) :=
  restoring_modifyAt fun _ => restores_modifyClosure

/-- A function keeps its progress where other details of it change. -/
theorem restoring_modifyFunc {func : SymbolId} {f : FuncInfo → FuncInfo}
    (hstate : ∀ info, (f info).state = info.state) : Restoring (modifyFunc func f) :=
  restoring_modifyAt fun _ => restores_modifyFunc hstate

end Check

end Stela
