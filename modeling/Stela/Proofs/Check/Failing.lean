import Stela.Check.Overload
import Stela.Proofs.Check.Importing

/-!
# Failing steps

A sequence fails in its first part or, after that part has succeeded, behind it.
What a step can fail with is found part by part. Choosing the candidate of a call
fails with a fault, with the error that nothing can be called, or with the error
that not exactly one candidate accepts the arguments; apart from that only the
analysis of a body can fail, which is needed for the result type of the callee.
-/

namespace Stela

namespace Check

variable {α β : Type} {settings : Settings} {s s' : CheckState} {failure : CheckFailure}
  {P : CheckFailure → Prop}

/-- The step fails and leaves a state behind. -/
def Fails (p : Check α) (settings : Settings) (s : CheckState) (failure : CheckFailure)
    (s' : CheckState) : Prop := p settings s = .failed failure s'

/-- A sequence fails in its first part or behind it. -/
theorem fails_bind {p : Check α} {f : α → Check β} : (p >>= f).Fails settings s failure s' ↔
    p.Fails settings s failure s' ∨
      ∃ a s₁, p.Gives settings s a s₁ ∧ (f a).Fails settings s₁ failure s' := by
  change Check.bind p f settings s = _ ↔ _
  unfold Check.bind Fails Gives
  cases p settings s <;> simp

theorem Succeeds.not_fails {p : Check α} (h : p.Succeeds settings s) : ¬ p.Fails settings s failure s' := by
  obtain ⟨a, s₁, hgives⟩ := h
  intro hfails
  cases hgives.symm.trans hfails

/-- A traversal fails at an item behind others that succeed. -/
theorem exists_of_forM_fails {f : α → Check Unit} (items : List α)
    (h : (items.forM f).Fails settings s failure s') : ∃ before a after t, items = before ++ a :: after ∧
      (before.forM f).Gives settings s () t ∧ (f a).Fails settings t failure s' := by
  induction items generalizing s with
  | nil => exact absurd h (Succeeds.not_fails (succeeds_pure ()))
  | cons a rest ih =>
      have h : (f a >>= fun _ => rest.forM f).Fails settings s failure s' := h
      rcases fails_bind.mp h with hfirst | ⟨u, s₁, hfirst, hrest⟩
      · exact ⟨[], a, rest, s, rfl, gives_forM_nil.mpr rfl, hfirst⟩
      · obtain ⟨before, b, after, t, rfl, hbefore, hfails⟩ := ih hrest
        exact ⟨a :: before, b, after, t, rfl, gives_forM_cons.mpr ⟨s₁, hfirst, hbefore⟩, hfails⟩

/-! ## What a step can fail with -/

/-- Whatever state the step starts in, a failure of it has the property. -/
def FailsOnly (p : Check α) (settings : Settings) (P : CheckFailure → Prop) : Prop :=
  ∀ s failure s', p.Fails settings s failure s' → P failure

theorem FailsOnly.bind {p : Check α} {f : α → Check β} (h : p.FailsOnly settings P)
    (hf : ∀ a, (f a).FailsOnly settings P) : (p >>= f).FailsOnly settings P := by
  intro s failure s' hfails
  rcases fails_bind.mp hfails with hfirst | ⟨a, s₁, -, hrest⟩
  · exact h s failure s' hfirst
  · exact hf a s₁ failure s' hrest

theorem failsOnly_of_succeeds {p : Check α} (h : ∀ s, p.Succeeds settings s) :
    p.FailsOnly settings P := fun s _ _ hfails => absurd hfails (h s).not_fails

theorem failsOnly_pure (a : α) : (pure a : Check α).FailsOnly settings P :=
  failsOnly_of_succeeds fun _ => succeeds_pure a

theorem failsOnly_raise {kind : TypeErrorKind} {span : Span} {help : Option String}
    {related : Option (Span × String)} (h : P (.error ⟨kind, span, help, related⟩)) :
    (raise kind span help related : Check α).FailsOnly settings P := by
  intro s failure s' hfails
  cases hfails
  exact h

/-- Nothing comes after an error. -/
theorem failsOnly_raise_bind {kind : TypeErrorKind} {span : Span} {help : Option String}
    {related : Option (Span × String)} {f : α → Check β}
    (h : P (.error ⟨kind, span, help, related⟩)) :
    (raise kind span help related >>= f).FailsOnly settings P := by
  intro s failure s' hfails
  rcases fails_bind.mp hfails with hfirst | ⟨_, _, hgives, -⟩
  · exact failsOnly_raise h s failure s' hfirst
  · exact absurd hgives gives_raise

theorem failsOnly_state : state.FailsOnly settings P :=
  failsOnly_of_succeeds fun _ => .of_gives (gives_state.mpr ⟨rfl, rfl⟩)

theorem failsOnly_tables : tables.FailsOnly settings P :=
  failsOnly_of_succeeds fun _ => .of_gives (gives_tables.mpr ⟨rfl, rfl⟩)

theorem failsOnly_frame? : frame?.FailsOnly settings P :=
  failsOnly_of_succeeds fun _ => .of_gives (gives_frame?.mpr ⟨rfl, rfl⟩)

theorem failsOnly_update {f : CheckState → CheckState} : (update f).FailsOnly settings P :=
  failsOnly_of_succeeds fun _ => .of_gives (gives_update_self f)

theorem failsOnly_intern {ty : Ty} : (intern ty).FailsOnly settings P :=
  failsOnly_of_succeeds fun _ => .of_gives rfl

section

variable (hfault : ∀ reason, P (.fault reason))

include hfault

theorem failsOnly_fault (reason : Fault) : (fault reason : Check α).FailsOnly settings P := by
  intro s failure s' hfails
  cases hfails
  exact hfault reason

theorem failsOnly_require {o : Option α} {reason : Fault} :
    (require o reason).FailsOnly settings P := by
  cases o with
  | none => exact failsOnly_fault hfault reason
  | some a => exact failsOnly_pure a

theorem failsOnly_symbol {id : SymbolId} : (symbol id).FailsOnly settings P :=
  failsOnly_tables.bind fun _ => failsOnly_require hfault

theorem failsOnly_kindOf {id : SymbolId} : (kindOf id).FailsOnly settings P :=
  (failsOnly_symbol hfault).bind fun _ => failsOnly_pure _

theorem failsOnly_tyOf {type : TypeId} : (tyOf type).FailsOnly settings P :=
  failsOnly_tables.bind fun _ => failsOnly_require hfault

theorem failsOnly_concreteTy {type : TypeId} : (concreteTy type).FailsOnly settings P :=
  (failsOnly_tables.bind fun _ => failsOnly_require hfault).bind fun _ => failsOnly_tyOf hfault

theorem failsOnly_builtinOf {type : TypeId} : (builtinOf type).FailsOnly settings P :=
  (failsOnly_concreteTy hfault).bind fun ty => by cases ty <;> exact failsOnly_pure _

theorem failsOnly_elementOf {type : TypeId} : (elementOf type).FailsOnly settings P :=
  (failsOnly_concreteTy hfault).bind fun ty => by cases ty <;> exact failsOnly_pure _

theorem failsOnly_funcOf {id : SymbolId} : (funcOf id).FailsOnly settings P :=
  (failsOnly_kindOf hfault).bind fun kind => by cases kind <;> exact failsOnly_pure _

theorem failsOnly_closureOf {id : SymbolId} : (closureOf id).FailsOnly settings P :=
  (failsOnly_kindOf hfault).bind fun kind => by cases kind <;> exact failsOnly_pure _

theorem failsOnly_typeText {type : TypeId} : (typeText type).FailsOnly settings P :=
  failsOnly_tables.bind fun _ => failsOnly_require hfault

theorem failsOnly_typeTexts (types : List ExprType) : (typeTexts types).FailsOnly settings P := by
  induction types with
  | nil => exact failsOnly_pure _
  | cons e rest ih => exact (failsOnly_typeText hfault).bind fun _ => ih.bind fun _ => failsOnly_pure _

theorem failsOnly_isWithin {scope ancestor : ScopeId} : (isWithin scope ancestor).FailsOnly settings P :=
  failsOnly_state.bind fun _ => (failsOnly_require hfault).bind fun _ => failsOnly_pure _

theorem failsOnly_modifyAt {id : SymbolId} {f : SymbolTable → SymbolTable} :
    (modifyAt id f).FailsOnly settings P := (failsOnly_symbol hfault).bind fun _ => failsOnly_update

theorem failsOnly_isPrintable {type : TypeId} : (isPrintable type).FailsOnly settings P := by
  refine (failsOnly_concreteTy hfault).bind fun ty => ?_
  split
  · exact failsOnly_pure _
  · exact (failsOnly_builtinOf hfault).bind fun _ => failsOnly_pure _
  · exact failsOnly_pure _

theorem failsOnly_signature {kind : BuiltinFunc} {args : List ExprType} :
    (signature kind args).FailsOnly settings P := by
  unfold signature
  split
  · exact (failsOnly_elementOf hfault).bind fun _ => failsOnly_pure _
  · exact (failsOnly_elementOf hfault).bind fun _ => failsOnly_pure _
  · exact (failsOnly_elementOf hfault).bind fun _ => failsOnly_pure _
  · refine (failsOnly_isPrintable hfault).bind fun printable => ?_
    split
    · exact failsOnly_pure _
    · exact failsOnly_pure _
  · exact failsOnly_pure _

theorem failsOnly_instantiate {kind : BuiltinFunc} {args : List ExprType} :
    (instantiate kind args).FailsOnly settings P := by
  refine (failsOnly_signature hfault).bind fun found => ?_
  split
  · exact failsOnly_intern.bind fun _ => failsOnly_pure _
  · exact failsOnly_pure _

theorem failsOnly_accepts {params : List (RefKind × TypeId)} {args : List ExprType} :
    (accepts params args).FailsOnly settings P := failsOnly_tables.bind fun _ => failsOnly_require hfault

theorem failsOnly_candidateParams {candidate : SymbolId} {args : List ExprType} :
    (candidateParams candidate args).FailsOnly settings P := by
  refine (failsOnly_kindOf hfault).bind fun kind => ?_
  split
  · exact failsOnly_pure _
  · refine (failsOnly_instantiate hfault).bind fun type => ?_
    split
    · refine (failsOnly_tyOf hfault).bind fun ty => ?_
      split
      · exact failsOnly_pure _
      · exact failsOnly_pure _
    · exact failsOnly_pure _
  · refine (failsOnly_concreteTy hfault).bind fun ty => ?_
    split
    · exact failsOnly_pure _
    · exact failsOnly_pure _
  · exact failsOnly_pure _

theorem failsOnly_survivors {args : List ExprType} (candidates : List SymbolId) :
    (survivors args candidates).FailsOnly settings P := by
  induction candidates with
  | nil => exact failsOnly_pure _
  | cons candidate rest ih =>
      refine (failsOnly_candidateParams hfault).bind fun params => ?_
      split
      · exact (failsOnly_accepts hfault).bind fun _ => ih.bind fun _ => failsOnly_pure _
      · exact (failsOnly_kindOf hfault).bind fun kind => ih.bind fun _ => failsOnly_pure _

theorem failsOnly_useSymbol {node : Nat} {id : SymbolId} :
    (useSymbol node id).FailsOnly settings P :=
  (failsOnly_modifyAt hfault).bind fun _ => failsOnly_state.bind fun _ =>
    (failsOnly_require hfault).bind fun _ => failsOnly_update

theorem failsOnly_captureWithin {bound : Nat} {closure source : SymbolId} :
    (captureWithin bound closure source).FailsOnly settings P := by
  induction bound generalizing closure with
  | zero => exact failsOnly_fault hfault _
  | succ bound ih =>
      refine failsOnly_tables.bind fun _ => (failsOnly_require hfault).bind fun info => ?_
      split
      · exact failsOnly_pure _
      refine (failsOnly_symbol hfault).bind fun object => failsOnly_tables.bind fun _ =>
        (failsOnly_require hfault).bind fun objectInfo => ?_
      have add (via : CaptureSource) : FailsOnly (do
          modifyClosure closure fun info =>
            { info with captures := info.captures ++ [⟨source, via, objectInfo.type.type⟩] }
          let info ← require ((← tables).symbols.closure? closure) (.notAClosure closure)
          return info.captures.length - 1) settings P :=
        (failsOnly_modifyAt hfault).bind fun _ => failsOnly_tables.bind fun _ =>
          (failsOnly_require hfault).bind fun _ => failsOnly_pure _
      dsimp only
      split
      · exact (failsOnly_pure _).bind add
      · refine (failsOnly_closureOf hfault).bind fun outer => ?_
        split
        · refine (failsOnly_isWithin hfault).bind fun within => ?_
          split
          · exact (failsOnly_pure _).bind add
          · exact ih.bind fun slot => (failsOnly_pure _).bind add
        · exact (failsOnly_pure _).bind add

theorem failsOnly_capture {closure source : SymbolId} :
    (capture closure source).FailsOnly settings P :=
  failsOnly_tables.bind fun _ => failsOnly_captureWithin hfault

theorem failsOnly_noteCapture {node : Nat} {source : SymbolId} :
    (noteCapture node source).FailsOnly settings P := by
  refine failsOnly_frame?.bind fun frame => ?_
  split
  · exact failsOnly_pure _
  split
  · exact failsOnly_pure _
  refine (failsOnly_symbol hfault).bind fun entry => ?_
  split
  · split
    · exact failsOnly_pure _
    refine (failsOnly_isWithin hfault).bind fun within => ?_
    split
    · exact failsOnly_pure _
    · exact (failsOnly_capture hfault).bind fun _ => failsOnly_update
  · exact failsOnly_pure _

end

variable {analyze : SymbolId → Check Unit}

theorem failsOnly_funcType (hfault : ∀ reason, P (.fault reason))
    (hanalyze : ∀ func, (analyze func).FailsOnly settings P)
    {func : SymbolId} : (funcType analyze func).FailsOnly settings P := by
  have hreturn : (funcReturn analyze func).FailsOnly settings P := by
    refine (failsOnly_funcOf hfault).bind fun info => ?_
    split
    · exact failsOnly_pure _
    split
    · exact failsOnly_pure _
    · exact (hanalyze func).bind fun _ => (failsOnly_funcOf hfault).bind fun _ => failsOnly_pure _
    · exact failsOnly_intern
    · exact failsOnly_pure _
  exact (failsOnly_funcOf hfault).bind fun _ => hreturn.bind fun _ => failsOnly_intern

/-- What a call can fail with. -/
theorem resolveOverload_fails {node : Nat} {name : Ident} {candidates : List SymbolId}
    {args : List ExprType} (hfault : ∀ reason, P (.fault reason))
    (huncallable : ∀ text, P (.error ⟨.notAFunction text, name.span, none, none⟩))
    (hrejected : ∀ found s₁ texts, (survivors args candidates).Gives settings s found s₁ →
      found.2.length ≠ 1 →
      P (.error ⟨.noMatchingOverload name.name texts found.2.length, name.span, none, none⟩))
    (hanalyze : ∀ func, (analyze func).FailsOnly settings P)
    (h : (resolveOverload analyze node name candidates args).Fails settings s failure s') :
    P failure := by
  rcases fails_bind.mp h with hsurvivors | ⟨⟨callable, accepting⟩, s₁, hsurvivors, h⟩
  · exact failsOnly_survivors hfault candidates _ _ _ hsurvivors
  refine (?_ : FailsOnly _ settings P) _ _ _ h
  dsimp only
  split
  · split
    · exact (failsOnly_pure _).bind fun text => failsOnly_raise_bind (huncallable text)
    · refine (failsOnly_kindOf hfault).bind fun kind => ?_
      split
      · exact (failsOnly_typeText hfault).bind fun text => failsOnly_raise_bind (huncallable text)
      · exact (failsOnly_pure _).bind fun text => failsOnly_raise_bind (huncallable text)
  · split
    · refine (failsOnly_useSymbol hfault).bind fun _ => (failsOnly_kindOf hfault).bind fun kind => ?_
      split
      · exact (failsOnly_instantiate hfault).bind fun _ => (failsOnly_pure _).bind fun _ => failsOnly_pure _
      · exact (failsOnly_noteCapture hfault).bind fun _ =>
          (failsOnly_pure _).bind fun _ => failsOnly_pure _
      · exact (failsOnly_funcType hfault hanalyze).bind fun _ => failsOnly_pure _
    · next hmany =>
      refine (failsOnly_typeTexts hfault args).bind fun texts => failsOnly_raise (hrejected _ s₁ _ hsurvivors ?_)
      intro hlength
      obtain ⟨chosen, rfl⟩ := List.length_eq_one_iff.mp hlength
      exact hmany chosen rfl

end Check

end Stela
