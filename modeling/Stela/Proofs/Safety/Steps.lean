import Stela.Proofs.Safety.Duties
import Mathlib.Data.Finset.Card

/-!
# Safe steps

A step of the analysis is safe in a state if it ends in a value or in an error
of the program, never in a fault, and if the state in which it ends is closed.
What a safe step may do to duties and meanings is told by the nodes that belong
to it, so that the parts of a step can be looked at one by one.

The analysis of a body may need other bodies, and an alias other aliases. Each
of them is a duty that is taken up before the next one, so how many may follow
is bounded by the functions that were not begun and by the duties there are.
-/

namespace Stela

namespace CheckState

variable {s s' s'' : CheckState} {own own' keys : List NodeKey} {n bound : Nat}

/-! ## What is left to do -/

/-- The symbols that still have a duty. -/
def waiting (s : CheckState) : Finset SymbolId :=
  (Finset.range s.tables.symbols.size).filter fun id => (s.duty? id).isSome

/-- The body of the function that a declaration means was begun. -/
def begun (s : CheckState) (decl : Nat) : Bool :=
  (s.meanings.decls.get? decl).any fun id => (s.duty? id).isNone

/-- The declarations of functions that were not begun, or not even met. -/
def idle (n : Nat) (s : CheckState) : Finset Nat :=
  (Finset.range n).filter fun decl => s.begun decl = false

theorem mem_waiting {id : SymbolId} : id ∈ s.waiting ↔ (s.duty? id).isSome := by
  simp only [waiting, Finset.mem_filter, Finset.mem_range, and_iff_right_iff_imp]
  intro h
  obtain ⟨duty, hduty⟩ := Option.isSome_iff_exists.mp h
  exact SymbolTable.lt_size_of_duty? hduty

theorem card_waiting_le : s.waiting.card ≤ s.tables.symbols.size :=
  Nat.le_trans (Finset.card_filter_le _ _) (Nat.le_of_eq (Finset.card_range _))

theorem Balanced.waiting_subset (h : s.Balanced s') : s'.waiting ⊆ s.waiting := by
  intro id hid
  obtain ⟨duty, hduty⟩ := Option.isSome_iff_exists.mp (mem_waiting.mp hid)
  exact mem_waiting.mpr (Option.isSome_iff_exists.mpr ⟨duty, h.duties id duty hduty⟩)

theorem card_idle_le : (s.idle n).card ≤ n :=
  Nat.le_trans (Finset.card_filter_le _ _) (Nat.le_of_eq (Finset.card_range _))

/-- What was begun stays begun. -/
theorem Follows.idle_subset (h : Follows own s s') (hs : s.Closed) : s'.idle n ⊆ s.idle n := by
  intro decl hdecl
  obtain ⟨hlt, hbegun'⟩ := Finset.mem_filter.mp hdecl
  refine Finset.mem_filter.mpr ⟨hlt, Bool.eq_false_iff.mpr fun hbegun => Bool.eq_false_iff.mp hbegun' ?_⟩
  obtain ⟨id, hid, hnone⟩ := (Option.any_eq_true _ _).mp hbegun
  have hnone' := h.duty?_eq_none (hs.meanings.decls decl id hid) (Option.isNone_iff_eq_none.mp hnone)
  simp [begun, h.decls decl id hid, hnone']

/-- A function whose body is begun is no longer idle. -/
theorem Dutiful.idle_lt (hs : s.Dutiful n) (hclosed : s.Closed) (h : Follows own s s') {id : SymbolId}
    {duty : Duty} {decl : Nat} (hduty : s.duty? id = some duty) (hdecl : duty.decl = some decl)
    (htaken : s'.duty? id = none) : (s'.idle n).card < (s.idle n).card := by
  obtain ⟨hnode, hlt⟩ := hs.posted id duty hduty decl hdecl
  refine Finset.card_lt_card ((Finset.ssubset_iff_of_subset (h.idle_subset hclosed)).mpr ⟨decl, ?_, ?_⟩)
  · exact Finset.mem_filter.mpr ⟨Finset.mem_range.mpr hlt, by simp [begun, hnode, hduty]⟩
  · intro hmem
    have hbegun := (Finset.mem_filter.mp hmem).2
    simp [begun, h.decls decl id hnode, htaken] at hbegun

/-! ## Parts of the analysis -/

/-- A state in which the analysis may go on: fewer functions than the bound were not begun. -/
structure Ready (n bound : Nat) (s : CheckState) : Prop where
  closed : s.Closed
  dutiful : s.Dutiful n
  enough : (s.idle n).card < bound

/-- A part of the analysis to which the given nodes belong leads from one state to the other. An
alias whose target is being looked for is left alone. -/
structure Proceeds (n : Nat) (own : List NodeKey) (s s' : CheckState) : Prop extends
    Follows own s s' where
  closed : s'.Closed
  dutiful : s'.Dutiful n
  resolving : ∀ id, s.tables.symbols.IsResolving id → s'.tables.symbols.IsResolving id

/-- A part of the analysis that is complete: it leaves what it entered and puts nothing off. -/
structure Finishes (n : Nat) (own : List NodeKey) (s s' : CheckState) : Prop extends
    Proceeds n own s s' where
  balanced : s.Balanced s'

theorem Proceeds.ready (h : Proceeds n own s s') (hs : s.Ready n bound) : s'.Ready n bound :=
  ⟨h.closed, h.dutiful,
    Nat.lt_of_le_of_lt (Finset.card_le_card (h.idle_subset hs.closed)) hs.enough⟩

theorem Proceeds.refl (hs : s.Ready n bound) : Proceeds n own s s :=
  ⟨.refl s, hs.closed, hs.dutiful, fun _ h => h⟩

theorem Proceeds.trans (h : Proceeds n own s s') (h' : Proceeds n own s' s'') :
    Proceeds n own s s'' :=
  ⟨h.toFollows.trans h'.toFollows, h'.closed, h'.dutiful, fun id hid => h'.resolving id (h.resolving id hid)⟩

theorem Proceeds.widen (h : Proceeds n own s s') (hsub : own ⊆ own') : Proceeds n own' s s' :=
  ⟨h.toFollows.widen hsub, h.closed, h.dutiful, h.resolving⟩

theorem Finishes.refl (hs : s.Ready n bound) : Finishes n own s s := ⟨.refl hs, .refl s⟩

theorem Finishes.trans (h : Finishes n own s s') (h' : Finishes n own s' s'') : Finishes n own s s'' :=
  ⟨h.toProceeds.trans h'.toProceeds, h.balanced.trans h'.balanced⟩

theorem Finishes.widen (h : Finishes n own s s') (hsub : own ⊆ own') : Finishes n own' s s' :=
  ⟨h.toProceeds.widen hsub, h.balanced⟩

/-- Fewer symbols than before have a duty. -/
theorem Finishes.waiting_lt (h : Finishes n own s s') {m : Nat} (hm : s.waiting.card < m) :
    s'.waiting.card < m :=
  Nat.lt_of_le_of_lt (Finset.card_le_card h.balanced.waiting_subset) hm

end CheckState

open CheckState

/-- The step ended as described or in an error of the program. -/
def CheckResult.Meets {α : Type} (Q : α → CheckState → Prop) : CheckResult α → Prop
  | .ok a s => Q a s
  | .failed failure s => (∃ error, failure = .error error) ∧ s.Closed

namespace Check

variable {α β : Type} {n bound : Nat} {own a keys : List NodeKey} {s s' : CheckState}
  {p : Check α} {f : α → Check β} {P Q : α → CheckState → Prop} {R : β → CheckState → Prop}

/-- The step may be taken in the state. It may leave bodies open or put something off. -/
def Fares (n bound : Nat) (own : List NodeKey) (p : Check α) (s : CheckState)
    (Q : α → CheckState → Prop) : Prop :=
  s.Ready n bound → ∀ settings, (p settings s).Meets fun a s' => Proceeds n own s s' ∧ Q a s'

/-- The step may be taken in the state and is complete. -/
def Safe (n bound : Nat) (own : List NodeKey) (p : Check α) (s : CheckState)
    (Q : α → CheckState → Prop) : Prop :=
  Fares n bound own p s fun a s' => s.Balanced s' ∧ Q a s'

/-! ## Sequences -/

theorem meets_bind {r : CheckResult α} {settings : Settings} (hr : p settings s = r)
    (h : r.Meets fun a s₁ => (f a settings s₁).Meets R) : ((p >>= f) settings s).Meets R := by
  change (Check.bind p f settings s).Meets R
  unfold Check.bind
  rw [hr]
  cases r with
  | ok a s₁ => exact h
  | failed failure s₁ => exact h

theorem CheckResult.Meets.imp {r : CheckResult α} (h : r.Meets P) (hpq : ∀ a s, P a s → Q a s) :
    r.Meets Q := by
  cases r with
  | ok a s => exact hpq a s h
  | failed failure s => exact h

namespace Fares

theorem imp (h : Fares n bound own p s P) (hpq : ∀ a s', Proceeds n own s s' → P a s' → Q a s') :
    Fares n bound own p s Q := fun hs settings =>
  CheckResult.Meets.imp (h hs settings) fun a s' hp => ⟨hp.1, hpq a s' hp.1 hp.2⟩

theorem of_ready (h : s.Ready n bound → Fares n bound own p s Q) : Fares n bound own p s Q :=
  fun hs => h hs hs

theorem widen (h : Fares n bound a p s Q) (hsub : a ⊆ own) : Fares n bound own p s Q :=
  fun hs settings => CheckResult.Meets.imp (h hs settings) fun _ _ hp => ⟨hp.1.widen hsub, hp.2⟩

theorem bind (hp : Fares n bound a p s P) (hsub : a ⊆ own)
    (hf : ∀ x s₁, Proceeds n a s s₁ → P x s₁ → Fares n bound own (f x) s₁ R) :
    Fares n bound own (p >>= f) s R := fun hs settings => by
  refine meets_bind rfl (CheckResult.Meets.imp (hp hs settings) ?_)
  rintro x s₁ ⟨hfinishes, hP⟩
  exact CheckResult.Meets.imp (hf x s₁ hfinishes hP (hfinishes.ready hs) settings) fun y s₂ h =>
    ⟨(hfinishes.widen hsub).trans h.1, h.2⟩

theorem pure {x : α} (h : s.Ready n bound → Q x s) : Fares n bound own (pure x) s Q :=
  fun hs _ => ⟨.refl hs, h hs⟩

end Fares

namespace Safe

theorem imp (h : Safe n bound own p s P) (hpq : ∀ a s', Finishes n own s s' → P a s' → Q a s') :
    Safe n bound own p s Q :=
  Fares.imp h fun a s' hproceeds hp => ⟨hp.1, hpq a s' ⟨hproceeds, hp.1⟩ hp.2⟩

theorem of_ready (h : s.Ready n bound → Safe n bound own p s Q) : Safe n bound own p s Q :=
  Fares.of_ready h

theorem widen (h : Safe n bound a p s Q) (hsub : a ⊆ own) : Safe n bound own p s Q :=
  Fares.widen h hsub

theorem bind (hp : Safe n bound a p s P) (hsub : a ⊆ own)
    (hf : ∀ x s₁, Finishes n a s s₁ → P x s₁ → Safe n bound own (f x) s₁ R) :
    Safe n bound own (p >>= f) s R := by
  refine Fares.bind hp hsub ?_
  rintro x s₁ hproceeds ⟨hbalanced, hP⟩
  exact Fares.imp (hf x s₁ ⟨hproceeds, hbalanced⟩ hP) fun y s₂ _ h => ⟨hbalanced.trans h.1, h.2⟩

theorem pure {x : α} (h : s.Ready n bound → Q x s) : Safe n bound own (pure x) s Q :=
  Fares.pure fun hs => ⟨.refl s, h hs⟩

theorem fares (h : Safe n bound own p s Q) : Fares n bound own p s Q :=
  Fares.imp h fun _ _ _ hq => hq.2

/-- A step to which no nodes belong, followed by others. -/
theorem step (hp : Safe n bound [] p s P)
    (hf : ∀ x s₁, Finishes n [] s s₁ → P x s₁ → Safe n bound own (f x) s₁ R) :
    Safe n bound own (p >>= f) s R :=
  hp.bind (List.nil_subset own) hf

/-- A symbol takes up its duty, after which the nodes of the duty are given their meanings. -/
theorem discharge {id : SymbolId} {duty : Duty} {bound' : Nat} (hduty : s.duty? id = some duty)
    (hp : Safe n bound [] p s fun _ s₁ => s₁.meanings = s.meanings ∧ s₁.duty? id = none)
    (hready : ∀ s₁, s.Ready n bound → Finishes n [] s s₁ → s₁.duty? id = none → s₁.Ready n bound')
    (hf : ∀ x s₁, Finishes n [] s s₁ → s₁.duty? id = none → s₁.Free n duty.keys →
      Safe n bound' duty.keys (f x) s₁ R) : Safe n bound [] (p >>= f) s R := fun hs settings => by
  refine meets_bind rfl (CheckResult.Meets.imp (hp hs settings) ?_)
  rintro x s₁ ⟨hproceeds, hbalanced, hmeanings, htaken⟩
  have hfinishes : Finishes n [] s s₁ := ⟨hproceeds, hbalanced⟩
  have hfree := hs.dutiful.take hduty hmeanings htaken hbalanced.duties
  refine CheckResult.Meets.imp (hf x s₁ hfinishes htaken hfree (hready s₁ hs hfinishes htaken) settings) ?_
  rintro y s₂ ⟨hthen, hbalanced', hR⟩
  exact ⟨⟨hproceeds.toFollows.discharge hduty htaken hthen.toFollows hbalanced'.duties, hthen.closed,
    hthen.dutiful, fun id hid => hthen.resolving id (hproceeds.resolving id hid)⟩,
    hbalanced.trans hbalanced', hR⟩

end Safe

/-! ## Errors and reading -/

namespace Fares

variable {c : Prop} [Decidable c] {id : SymbolId} {type : TypeId}

/-- A step that is the last one. -/
theorem last (h : Fares n bound own (p >>= Pure.pure) s Q) : Fares n bound own p s Q := by
  intro hs settings
  have := h hs settings
  change (Check.bind p Check.pure settings s).Meets _ at this
  unfold Check.bind at this
  cases hr : p settings s <;> rw [hr] at this <;> exact this

theorem raise {kind : TypeErrorKind} {span : Span} {help : Option String}
    {related : Option (Span × String)} :
    Fares n bound own (raise kind span help related : Check α) s Q :=
  fun hs _ => ⟨⟨_, rfl⟩, hs.closed⟩

theorem raise_bind {kind : TypeErrorKind} {span : Span} {help : Option String}
    {related : Option (Span × String)} :
    Fares n bound own (Check.raise kind span help related >>= f) s R :=
  fun hs _ => ⟨⟨_, rfl⟩, hs.closed⟩

theorem pure_bind {x : α} (h : Fares n bound own (f x) s R) :
    Fares n bound own (Pure.pure x >>= f) s R := h

theorem settings {f : Settings → Check β} (h : ∀ c, Fares n bound own (f c) s R) :
    Fares n bound own (Check.settings >>= f) s R := fun hs c => h c hs c

theorem state {f : CheckState → Check β} (h : Fares n bound own (f s) s R) :
    Fares n bound own (Check.state >>= f) s R := h

theorem tables {f : Tables → Check β} (h : Fares n bound own (f s.tables) s R) :
    Fares n bound own (Check.tables >>= f) s R := h

theorem cursor {f : ScopeId → Check β} (h : Fares n bound own (f s.scopes.cursor) s R) :
    Fares n bound own (Check.cursor >>= f) s R := h

theorem frame? {f : Option Frame → Check β} (h : Fares n bound own (f s.frames.head?) s R) :
    Fares n bound own (Check.frame? >>= f) s R := h

/-- A step that only reads. -/
theorem gives {x : α} (hp : ∀ settings, p.Gives settings s x s) (h : Fares n bound own (f x) s R) :
    Fares n bound own (p >>= f) s R := fun hs settings => meets_bind (hp settings) (h hs settings)

theorem require {value : Option α} {x : α} {fault : Fault} (hvalue : value = some x)
    (h : Fares n bound own (f x) s R) : Fares n bound own (require value fault >>= f) s R :=
  .gives (fun _ => gives_require.mpr ⟨hvalue, rfl⟩) h

/-! ## Reading types -/

section

variable {other : TypeId} (htype : type < s.tables.types.size)
include htype

theorem tyOf {f : Ty → Check β} (h : ∀ ty, s.tables.types.get? type = some ty → Fares n bound own (f ty) s R) :
    Fares n bound own (Check.tyOf type >>= f) s R := by
  obtain ⟨ty, hty⟩ := Tables.exists_type htype
  exact .gives (fun _ => gives_tyOf.mpr ⟨hty, rfl⟩) (h ty hty)

theorem concreteTy {f : Ty → Check β}
    (h : ∀ ty, s.tables.concreteTy? type = some ty → Fares n bound own (f ty) s R) :
    Fares n bound own (Check.concreteTy type >>= f) s R := of_ready fun hs => by
  obtain ⟨ty, hty⟩ := Tables.exists_type (hs.closed.lt_concrete htype)
  exact .gives (fun _ => gives_concreteTy.mpr ⟨⟨hs.closed.isSome_concrete? htype, hty⟩, rfl⟩) (h ty hty)

theorem representationTy {f : Ty → Check β} (h : ∀ ty, Fares n bound own (f ty) s R) :
    Fares n bound own (Check.representationTy type >>= f) s R := of_ready fun hs => by
  obtain ⟨ty, hty⟩ := Tables.exists_type (hs.closed.lt_representation htype)
  exact .gives (fun _ => gives_representationTy.mpr ⟨⟨hs.closed.isSome_representation? htype, hty⟩, rfl⟩)
    (h ty)

theorem isVoid {f : Bool → Check β} (h : Fares n bound own (f (s.tables.isVoid type)) s R) :
    Fares n bound own (Check.isVoid type >>= f) s R := of_ready fun hs =>
  .gives (fun _ => gives_isVoid.mpr ⟨⟨hs.closed.isSome_concrete? htype, rfl⟩, rfl⟩) h

theorem builtinOf {f : Option Builtin → Check β} (h : Fares n bound own (f (s.tables.builtin? type)) s R) :
    Fares n bound own (Check.builtinOf type >>= f) s R := of_ready fun hs =>
  .gives (fun _ => gives_builtinOf.mpr
    ⟨⟨hs.closed.isSome_concrete? htype, hs.closed.isSome_concreteTy? htype, rfl⟩, rfl⟩) h

theorem elementOf {f : Option TypeId → Check β} (h : Fares n bound own (f (s.tables.element? type)) s R) :
    Fares n bound own (Check.elementOf type >>= f) s R := of_ready fun hs =>
  .gives (fun _ => gives_elementOf.mpr
    ⟨⟨hs.closed.isSome_concrete? htype, hs.closed.isSome_concreteTy? htype, rfl⟩, rfl⟩) h

theorem categoryOf {f : Category → Check β} (h : Fares n bound own (f (s.tables.classify type)) s R) :
    Fares n bound own (Check.categoryOf type >>= f) s R := by
  unfold Check.categoryOf
  rw [Check.bind_bind]
  refine representationTy htype fun _ => ?_
  rw [Check.bind_bind]
  exact .tables h

theorem pendingOf {f : Option SymbolId → Check β}
    (h : Fares n bound own (f (s.tables.types.pending? type)) s R) :
    Fares n bound own (Check.pendingOf type >>= f) s R := by
  obtain ⟨ty, hty⟩ := Tables.exists_type htype
  exact .gives (fun _ => gives_pendingOf.mpr ⟨⟨Option.isSome_of_mem hty, rfl⟩, rfl⟩) h

theorem typeText {f : String → Check β} (h : ∀ text, Fares n bound own (f text) s R) :
    Fares n bound own (Check.typeText type >>= f) s R := of_ready fun hs => by
  obtain ⟨text, htext⟩ := Tables.exists_text? hs.closed.ordered hs.closed.enclosed.names htype
  exact .gives (fun _ => gives_typeText.mpr ⟨htext, rfl⟩) (h text)

variable (hother : other < s.tables.types.size)
include hother

theorem same {f : Bool → Check β} (h : Fares n bound own (f (s.tables.same type other)) s R) :
    Fares n bound own (Check.same type other >>= f) s R := of_ready fun hs => by
  obtain ⟨r, hr⟩ := hs.closed.enclosed.exists_same? (hs.closed.aliasesEnd false) htype hother
  exact .gives (fun _ => gives_same.mpr ⟨⟨Option.isSome_of_mem hr, rfl⟩, rfl⟩) h

theorem mismatch {span : Span} : Fares n bound own (mismatch type other span : Check α) s Q :=
  typeText htype fun _ => typeText hother fun _ => raise

theorem mismatch_bind {span : Span} :
    Fares n bound own (Check.mismatch type other span >>= f) s R :=
  Fares.bind (mismatch (Q := fun _ _ => False) htype hother) (List.Subset.refl own) fun _ _ _ h => h.elim

end

theorem typeTexts {types : List ExprType} {f : List String → Check β} (htypes : s.extent.Exprs types)
    (h : ∀ texts, Fares n bound own (f texts) s R) :
    Fares n bound own (Check.typeTexts types >>= f) s R := by
  induction types generalizing f with
  | nil => exact h []
  | cons e rest ih =>
      unfold Check.typeTexts
      rw [Check.bind_bind]
      refine typeText (htypes e List.mem_cons_self) fun text => ?_
      rw [Check.bind_bind]
      exact ih (fun t ht => htypes t (List.mem_cons_of_mem e ht)) fun texts => h (text :: texts)

theorem accepts {params : List (RefKind × TypeId)} {args : List ExprType} {f : Bool → Check β}
    (hparams : ∀ p ∈ params, p.2 < s.tables.types.size) (hargs : s.extent.Exprs args)
    (h : Fares n bound own (f (s.tables.accepts params args)) s R) :
    Fares n bound own (Check.accepts params args >>= f) s R := of_ready fun hs => by
  obtain ⟨r, hr⟩ := hs.closed.exists_accepts? hparams hargs
  exact .gives (fun _ => gives_accepts.mpr ⟨⟨Option.isSome_of_mem hr, rfl⟩, rfl⟩) h

/-! ## Reading symbols -/

section

variable (hid : id < s.tables.symbols.size)
include hid

theorem symbol {f : Symbol → Check β}
    (h : ∀ entry, s.tables.symbols.get? id = some entry → Fares n bound own (f entry) s R) :
    Fares n bound own (Check.symbol id >>= f) s R := by
  obtain ⟨entry, hentry⟩ := Tables.exists_symbol hid
  exact .gives (fun _ => gives_symbol.mpr ⟨hentry, rfl⟩) (h entry hentry)

theorem kindOf {f : SymbolKind → Check β}
    (h : ∀ kind, s.tables.symbols.kind? id = some kind → Fares n bound own (f kind) s R) :
    Fares n bound own (Check.kindOf id >>= f) s R := by
  unfold Check.kindOf
  rw [Check.bind_bind]
  exact symbol hid fun entry hentry => h entry.kind (SymbolTable.kind?_of_get? hentry)

theorem nameOf {f : String → Check β} (h : ∀ name, Fares n bound own (f name) s R) :
    Fares n bound own (Check.nameOf id >>= f) s R := by
  unfold Check.nameOf
  rw [Check.bind_bind]
  exact symbol hid fun entry _ => h entry.name

theorem funcOf {f : Option FuncInfo → Check β} (h : Fares n bound own (f (s.tables.symbols.func? id)) s R) :
    Fares n bound own (Check.funcOf id >>= f) s R := by
  obtain ⟨kind, hkind⟩ := SymbolTable.exists_kind? hid
  exact .gives (fun _ => gives_funcOf.mpr ⟨⟨Option.isSome_of_mem hkind, rfl⟩, rfl⟩) h

theorem closureOf {f : Option ClosureInfo → Check β}
    (h : Fares n bound own (f (s.tables.symbols.closure? id)) s R) :
    Fares n bound own (Check.closureOf id >>= f) s R := by
  obtain ⟨kind, hkind⟩ := SymbolTable.exists_kind? hid
  exact .gives (fun _ => gives_closureOf.mpr ⟨⟨Option.isSome_of_mem hkind, rfl⟩, rfl⟩) h

theorem objectOf {f : Option ObjectInfo → Check β}
    (h : Fares n bound own (f (s.tables.symbols.object? id)) s R) :
    Fares n bound own (Check.objectOf id >>= f) s R := by
  obtain ⟨kind, hkind⟩ := SymbolTable.exists_kind? hid
  exact .gives (fun _ => gives_objectOf.mpr ⟨⟨Option.isSome_of_mem hkind, rfl⟩, rfl⟩) h

end

/-! ## Reading scopes -/

section

variable {scope : ScopeId} (hscope : scope < s.scopes.size)
include hscope

theorem scopeAt {f : Scope → Check β}
    (h : ∀ found, s.scopes.get? scope = some found → Fares n bound own (f found) s R) :
    Fares n bound own (Check.scopeAt scope >>= f) s R := by
  obtain ⟨found, hfound⟩ := Option.isSome_iff_exists.mp (ScopeGraph.isSome_get? hscope)
  exact .gives (fun _ => gives_scopeAt.mpr ⟨hfound, rfl⟩) (h found hfound)

theorem entriesOf {name : String} {f : List SymbolId → Check β}
    (h : Fares n bound own (f (s.scopes.entries scope name)) s R) :
    Fares n bound own (Check.entriesOf scope name >>= f) s R :=
  .gives (fun _ => gives_entriesOf.mpr ⟨⟨ScopeGraph.isSome_get? hscope, rfl⟩, rfl⟩) h

theorem membersOf {f : List Row → Check β} (h : Fares n bound own (f (s.scopes.members scope)) s R) :
    Fares n bound own (Check.membersOf scope >>= f) s R :=
  .gives (fun _ => gives_membersOf.mpr ⟨⟨ScopeGraph.isSome_get? hscope, rfl⟩, rfl⟩) h

theorem casesOf {f : List Row → Check β} (h : Fares n bound own (f (s.scopes.cases scope)) s R) :
    Fares n bound own (Check.casesOf scope >>= f) s R :=
  .gives (fun _ => gives_casesOf.mpr ⟨⟨ScopeGraph.isSome_get? hscope, rfl⟩, rfl⟩) h

theorem isWithin {ancestor : ScopeId} {f : Bool → Check β}
    (h : Fares n bound own (f (s.scopes.isWithin scope ancestor)) s R) :
    Fares n bound own (Check.isWithin scope ancestor >>= f) s R := of_ready fun hs => by
  obtain ⟨path, hpath⟩ := hs.closed.exists_path? hscope
  exact .gives (fun _ => gives_isWithin.mpr ⟨⟨Option.isSome_of_mem hpath, rfl⟩, rfl⟩) h

end

theorem searching {f : CheckState → Check β} (h : Fares n bound own (f s) s R) :
    Fares n bound own (Check.searching >>= f) s R := of_ready fun hs =>
  .gives (fun _ => gives_searching.mpr ⟨⟨hs.closed.isSearchable, rfl⟩, rfl⟩) h

theorem requireComparable {row : Row} {f : Unit → Check β} (hrow : row.symbol < s.tables.symbols.size)
    (h : Fares n bound own (f ()) s R) :
    Fares n bound own (Check.requireComparable row >>= f) s R := of_ready fun hs => by
  obtain ⟨path, hpath⟩ := hs.closed.exists_path? hs.closed.cursor
  obtain ⟨found, hfound⟩ := exists_findM? fun id hid =>
    hs.closed.exists_conflicts? hrow (hs.closed.lt_of_entries hid)
  exact .gives (fun _ => gives_requireComparable.mpr
    ⟨⟨Option.isSome_of_mem hpath, Option.isSome_of_mem hfound⟩, rfl⟩) h

end Fares

end Check

end Stela
