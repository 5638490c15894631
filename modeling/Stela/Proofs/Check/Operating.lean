import Stela.Check.Operation
import Stela.Proofs.Check.Naming
import Stela.Proofs.Syntax.WellFormed
import Stela.Proofs.Types.Alias

/-!
# Operations keep the state sound

What remains to be done once the parts of an expression or statement are typed
changes the state in a few places only: assumptions are noted, transfers are
recorded and the types of builtin functions are entered.
-/

namespace Stela.Check

open CheckState

variable {settings : Settings} {s s' : CheckState}

/-! ## Assumptions and transfers -/

theorem calm_noteAssumption (hs : s.Sound) {func : SymbolId} {type : TypeId} {span : Span}
    (hfunc : s.tables.InProgress func) (htype : s.tables.types.Settled type)
    (h : (noteAssumption func type span).Gives settings s () s') : s.Calm s' := by
  obtain rfl := gives_update.mp h
  refine hs.calm hs.tables (.refl _) rfl rfl (fun a ha => List.mem_append_left _ ha)
    (fun a ha => ?_) (fun _ h => .inl h) (fun _ h => .inl h) (fun _ _ h => .inl h) (.refl _)
    (fun _ h => .inl h) fun _ => rfl
  rcases List.mem_append.mp ha with hold | hnew
  · exact .inl hold
  · obtain rfl := List.mem_singleton.mp hnew
    exact .inr ⟨hfunc, htype⟩

theorem calm_recordTransfer (hs : s.Sound) {type : TypeId} {site : TransferSite} {e : Expr}
    {source : ExprType} (htype : s.tables.types.Settled type)
    (h : (recordTransfer type site e source).Gives settings s () s') : s.Calm s' := by
  induction e, source using recordTransfer.induct generalizing s s' with
  | case1 node cond onTrue onFalse source ihTrue ihFalse =>
      simp only [recordTransfer, gives_bind, gives_state, gives_pure] at h
      obtain ⟨_, _, ⟨_, _, ⟨rfl, rfl⟩, rfl, rfl⟩, _, s₁, hTrue, _, _, ⟨_, _, ⟨rfl, rfl⟩, rfl, rfl⟩,
        hFalse⟩ := h
      have hTrue := ihTrue _ hs htype hTrue
      exact hTrue.trans (ihFalse _ hTrue.sound (htype.mono hTrue.tables.types) hFalse)
  | case2 source e hternary =>
      rw [recordTransfer.eq_2 _ _ _ _ hternary] at h
      simp only [gives_bind, gives_categoryOf, gives_settings, gives_update] at h
      obtain ⟨_, _, ⟨-, rfl⟩, _, _, ⟨rfl, rfl⟩, rfl⟩ := h
      refine hs.calm hs.tables (.refl _) rfl rfl (fun _ h => h) (fun _ h => .inl h)
        (fun r hr => ?_) (fun _ h => .inl h) (fun _ _ h => .inl h) (.refl _) (fun _ h => .inl h)
        fun _ => rfl
      rcases List.mem_append.mp hr with hold | hnew
      · exact .inl hold
      · obtain rfl := List.mem_singleton.mp hnew
        exact .inr htype

theorem calm_transferArgs (params : List (RefKind × TypeId)) (args : List (Expr × ExprType))
    (hs : s.Sound) (hparams : ∀ p ∈ params, s.tables.types.Settled p.2)
    (h : (transferArgs params args).Gives settings s () s') : s.Calm s' := by
  induction params generalizing s args with
  | nil =>
      simp only [transferArgs, gives_pure] at h
      exact h.2 ▸ .refl hs
  | cons param rest ih =>
      obtain ⟨passing, type⟩ := param
      cases args with
      | nil =>
          simp only [transferArgs, gives_pure] at h
          exact h.2 ▸ .refl hs
      | cons arg args =>
          have hrest (p : RefKind × TypeId) (hp : p ∈ rest) : s.tables.types.Settled p.2 :=
            hparams p (List.mem_cons_of_mem _ hp)
          cases passing with
          | value =>
              obtain ⟨expr, source⟩ := arg
              simp only [transferArgs, gives_bind] at h
              obtain ⟨_, s₁, htransfer, h⟩ := h
              have htransfer := calm_recordTransfer hs (hparams _ List.mem_cons_self) htransfer
              exact htransfer.trans (ih args htransfer.sound
                (fun p hp => (hrest p hp).mono htransfer.tables.types) h)
          | reference =>
              simp only [transferArgs] at h
              exact ih args hs hrest h

/-! ## Types of expressions -/

/-- A condition that is tested has a known type. -/
theorem checkCondition_gives {type : ExprType} {span : Span}
    (h : (checkCondition type span).Gives settings s () s') :
    s.tables.types.pending? type.type = none ∧ s = s' := by
  simp only [checkCondition, gives_bind, gives_requireKnown, gives_concreteTy] at h
  obtain ⟨_, _, ⟨⟨-, hnone⟩, rfl, rfl⟩, _, _, ⟨-, rfl⟩, h⟩ := h
  split at h
  · exact ⟨hnone, (gives_pure.mp h).2⟩
  · exact ⟨hnone, (gives_pure.mp h).2⟩
  · simp at h

/-- Recording a type sets one entry. -/
theorem record_gives {node : Node} {context : ExprContext} {type r : ExprType}
    (h : (record node context type).Gives settings s r s') :
    r = type ∧ { s with exprTypes := s.exprTypes.insert node.id ⟨node.span, type⟩ } = s' ∧
      (context = .condition → s.tables.types.pending? type.type = none) := by
  unfold record at h
  split at h
  · simp only [gives_bind, gives_update, gives_pure] at h
    obtain ⟨_, _, hcondition, _, _, rfl, rfl, rfl⟩ := h
    obtain ⟨hknown, rfl⟩ := checkCondition_gives hcondition
    exact ⟨rfl, rfl, fun _ => hknown⟩
  · next hcontext =>
    simp only [gives_bind, gives_update, gives_pure] at h
    obtain ⟨_, _, rfl, rfl, rfl⟩ := h
    exact ⟨rfl, rfl, fun heq => absurd heq hcontext⟩

/-- A literal gets the type of its form. -/
theorem calm_literalType (hs : s.Sound) {value : Literal} {type : TypeId}
    (h : (literalType value).Gives settings s type s') :
    s.Calm s' ∧ s'.tables.types.get? type = some value.ty := by
  unfold literalType at h
  split at h
  all_goals try
    obtain ⟨rfl, rfl⟩ := gives_pure.mp h
    exact ⟨.refl hs, hs.tables.types.builtin _⟩
  exact calm_intern hs h (hs.tables.types.settled_builtin .char) rfl

/-- A literal never waits for a result. -/
theorem settled_literal {t : TypeTable} {value : Literal} {type : TypeId}
    (h : t.get? type = some value.ty) : t.Settled type := by
  refine ⟨⟨_, h, fun func => ?_⟩, fun params ret hfunc => ?_⟩
  · cases value <;> simp [Literal.ty]
  · cases value <;> simp [h, Literal.ty] at hfunc

theorem settled_literalType (hs : s.Sound) {value : Literal} {type : TypeId}
    (h : (literalType value).Gives settings s type s') :
    s.Calm s' ∧ s'.tables.types.Settled type := by
  obtain ⟨hcalm, hty⟩ := calm_literalType hs h
  exact ⟨hcalm, settled_literal hty⟩

/-- A pending side takes the type of a known one, which is noted; two pending sides and two known
ones stay as they are. -/
theorem settlePending_gives {a b a' b' : ExprType} {span : Span}
    (h : (settlePending a b span).Gives settings s (a', b') s') :
    (∃ func, s.tables.types.pending? a.type = some func ∧ s.tables.types.pending? b.type = none ∧
      (noteAssumption func b.type span).Gives settings s () s' ∧
      a' = { a with type := b.type } ∧ b' = b) ∨
    (∃ func, s.tables.types.pending? a.type = none ∧ s.tables.types.pending? b.type = some func ∧
      (noteAssumption func a.type span).Gives settings s () s' ∧
      a' = a ∧ b' = { b with type := a.type }) ∨
    ((s.tables.types.pending? a.type).isSome = (s.tables.types.pending? b.type).isSome ∧
      a' = a ∧ b' = b ∧ s = s') := by
  simp only [settlePending, gives_bind, gives_pendingOf] at h
  obtain ⟨found, _, ⟨⟨-, hfound⟩, rfl⟩, found', _, ⟨⟨-, hfound'⟩, rfl⟩, h⟩ := h
  split at h
  · next func =>
    simp only [gives_bind, gives_pure, Prod.mk.injEq] at h
    obtain ⟨_, _, hnote, ⟨rfl, rfl⟩, rfl⟩ := h
    exact .inl ⟨func, hfound, hfound', hnote, rfl, rfl⟩
  · next func =>
    simp only [gives_bind, gives_pure, Prod.mk.injEq] at h
    obtain ⟨_, _, hnote, ⟨rfl, rfl⟩, rfl⟩ := h
    exact .inr (.inl ⟨func, hfound, hfound', hnote, rfl, rfl⟩)
  · next hleft hright =>
    simp only [gives_pure, Prod.mk.injEq] at h
    obtain ⟨⟨rfl, rfl⟩, rfl⟩ := h
    refine .inr (.inr ⟨?_, rfl, rfl, rfl⟩)
    rw [hfound, hfound']
    cases found with
    | none =>
        cases found' with
        | none => rfl
        | some func => exact (hright func rfl rfl).elim
    | some func =>
        cases found' with
        | none => exact (hleft func rfl rfl).elim
        | some func' => rfl

theorem held_settlePending (hs : s.Sound) {a b a' b' : ExprType} {span : Span}
    (ha : s.tables.Held a.type) (hb : s.tables.Held b.type)
    (h : (settlePending a b span).Gives settings s (a', b') s') :
    s.Calm s' ∧ s'.tables.Held a'.type ∧ s'.tables.Held b'.type := by
  rcases settlePending_gives h with ⟨func, hfunc, hnone, hnote, rfl, rfl⟩ |
    ⟨func, hnone, hfunc, hnote, rfl, rfl⟩ | ⟨-, rfl, rfl, rfl⟩
  · obtain rfl := gives_update.mp hnote
    exact ⟨calm_noteAssumption hs (ha.inProgress hfunc) (hb.settled hnone) hnote, hb, hb⟩
  · obtain rfl := gives_update.mp hnote
    exact ⟨calm_noteAssumption hs (hb.inProgress hfunc) (ha.settled hnone) hnote, ha, ha⟩
  · exact ⟨.refl hs, ha, hb⟩

theorem checkBinary_gives {op : BinOp} {lhs rhs type : TypeId} {span : Span}
    (h : (checkBinary op lhs rhs span).Gives settings s type s') :
    s.tables.operandFits op lhs = true ∧ s.tables.same lhs rhs = true ∧ type = op.resultType lhs ∧
      s = s' := by
  have finish {valid : Bool} (h : (do
      if valid then return op.resultType lhs
      else raise (.invalidOperand op.spelling [← typeText lhs, ← typeText rhs]) span :
        Check TypeId).Gives settings s type s') : valid = true ∧ type = op.resultType lhs ∧ s = s' := by
    rw [gives_ite] at h
    split at h
    · next hvalid => exact ⟨hvalid, (gives_pure.mp h).1.symm, (gives_pure.mp h).2⟩
    · simp at h
  simp only [checkBinary, gives_bind] at h
  obtain ⟨fits, _, hfits, h⟩ := h
  obtain ⟨rfl, rfl⟩ := operandFits_gives hfits
  rw [gives_ite] at h
  split at h
  · next hfits =>
    simp only [gives_bind, gives_same] at h
    obtain ⟨_, _, ⟨⟨-, rfl⟩, rfl⟩, h⟩ := h
    obtain ⟨hsame, htype, rfl⟩ := finish h
    exact ⟨hfits, hsame, htype, rfl⟩
  · simp only [gives_bind, gives_pure] at h
    obtain ⟨_, _, ⟨rfl, rfl⟩, h⟩ := h
    cases (finish h).1

/-- The type of an operation is that of its operands or `bool`. -/
theorem resultType_cases (op : BinOp) : (∀ operand, op.resultType operand = operand) ∨
    ∀ operand, op.resultType operand = Builtin.bool.typeId := by
  unfold BinOp.resultType
  cases op.opClass <;> simp

/-- The operands of an operation fit the operator, unless both are pending. -/
theorem finishBinary_gives {op : BinOp} {left right type : ExprType} {span : Span}
    (h : (finishBinary op left right span).Gives settings s type s') :
    ∃ left' right', (settlePending left right span).Gives settings s (left', right') s' ∧
      type.type = op.resultType left'.type ∧ (s'.tables.types.pending? left'.type = none →
        s'.tables.operandFits op left'.type = true ∧
          s'.tables.same left'.type right'.type = true) := by
  simp only [finishBinary, gives_bind, gives_pendingOf] at h
  obtain ⟨⟨left', right'⟩, s₁, hsettle, _, _, ⟨⟨-, hfound⟩, rfl⟩, h⟩ := h
  split at h
  · next func =>
    have hresult : type.type = op.resultType left'.type ∧ s₁ = s' := by
      unfold BinOp.resultType
      cases hclass : op.opClass <;> rw [hclass] at h <;> obtain ⟨rfl, rfl⟩ := gives_pure.mp h <;>
        exact ⟨rfl, rfl⟩
    obtain ⟨htype, rfl⟩ := hresult
    exact ⟨left', right', hsettle, htype, by simp [hfound]⟩
  · simp only [gives_bind, gives_pure] at h
    obtain ⟨result, _, hbinary, rfl, rfl⟩ := h
    obtain ⟨hfits, hsame, rfl, rfl⟩ := checkBinary_gives hbinary
    exact ⟨left', right', hsettle, rfl, fun _ => ⟨hfits, hsame⟩⟩

theorem held_finishBinary (hs : s.Sound) {op : BinOp} {left right type : ExprType} {span : Span}
    (hleft : s.tables.Held left.type) (hright : s.tables.Held right.type)
    (h : (finishBinary op left right span).Gives settings s type s') :
    s.Calm s' ∧ s'.tables.Held type.type := by
  obtain ⟨left', right', hsettle, htype, -⟩ := finishBinary_gives h
  obtain ⟨hcalm, hleft', -⟩ := held_settlePending hs hleft hright hsettle
  refine ⟨hcalm, ?_⟩
  rw [htype]
  rcases resultType_cases op with hop | hop
  · exact hop _ ▸ hleft'
  · exact hop _ ▸ .inl (hcalm.sound.tables.types.settled_builtin .bool)

/-- The callee of a call is known to be a function type that accepts the arguments. -/
theorem finishCall_gives {node : Node} {callee : Expr} {calleeType type : ExprType}
    {args : List (Expr × ExprType)}
    (h : (finishCall node callee calleeType args).Gives settings s type s') :
    ∃ params ret, s.tables.types.pending? calleeType.type = none ∧
      s.tables.concreteTy? calleeType.type = some (.func params ret) ∧
      s.tables.accepts params (args.map (·.2)) = true ∧
      (transferArgs params args).Gives settings s () s' ∧ type = .value ret := by
  simp only [finishCall, gives_bind, gives_requireKnown, gives_concreteTy] at h
  obtain ⟨_, _, ⟨⟨-, hnone⟩, rfl, rfl⟩, _, _, ⟨⟨-, hconcrete⟩, rfl⟩, h⟩ := h
  split at h
  · next params ret =>
    simp only [gives_bind, gives_accepts] at h
    obtain ⟨accepted, _, ⟨⟨-, haccepts⟩, rfl⟩, h⟩ := h
    rw [gives_ite] at h
    split at h
    · simp at h
    · next hfits =>
      simp only [gives_bind, gives_pure] at h
      obtain ⟨_, _, htransfer, rfl, rfl⟩ := h
      exact ⟨params, ret, hnone, hconcrete, by simpa [haccepts] using hfits, htransfer, rfl⟩
  · simp at h

theorem held_finishCall (hs : s.Sound) {node : Node} {callee : Expr} {calleeType type : ExprType}
    {args : List (Expr × ExprType)} (hcallee : s.tables.Callable calleeType.type)
    (h : (finishCall node callee calleeType args).Gives settings s type s') :
    s.Calm s' ∧ s'.tables.Held type.type := by
  obtain ⟨params, ret, hnone, hconcrete, -, htransfer, rfl⟩ := finishCall_gives h
  have hcalm := calm_transferArgs params args hs (hs.tables.types.settled_param hconcrete) htransfer
  refine ⟨hcalm, Tables.Held.mono ?_ hcalm.tables.types fun func => hcalm.tables.inProgress.mpr⟩
  rcases hcallee with hheld | ⟨params', ret', htype, hpending⟩
  · have hsettled := hs.tables.settled_concrete (hheld.settled hnone)
    exact .inl (hs.tables.types.settled_ret hconcrete (hsettled.2 params ret hconcrete))
  · have hself : s.tables.concrete calleeType.type = calleeType.type :=
      Tables.concrete_eq_self (by simp [Tables.aliasTarget?, htype])
    rw [Tables.concreteTy?, hself] at hconcrete
    obtain ⟨-, rfl⟩ : params' = params ∧ ret' = ret := by simpa [htype] using hconcrete
    exact .inr hpending

theorem emptyArray_gives {expected : Option TypeId} {type : ExprType} {span : Span}
    (h : (emptyArray expected span).Gives settings s type s') :
    ∃ array, expected = some array ∧ type = .value array := by
  simp only [emptyArray, gives_bind, gives_expectedElement] at h
  obtain ⟨_, _, ⟨-, rfl⟩, h⟩ := h
  split at h
  · next array harray =>
    obtain ⟨rfl, rfl⟩ := gives_pure.mp h
    exact ⟨array, (Option.filter_eq_some_iff.mp harray).1, rfl⟩
  · simp at h

/-! ## Candidates of a call -/

theorem isPrintable_state {type : TypeId} {printable : Bool}
    (h : (isPrintable type).Gives settings s printable s') : s = s' := by
  simp only [isPrintable, gives_bind, gives_concreteTy] at h
  obtain ⟨_, _, ⟨-, rfl⟩, h⟩ := h
  split at h
  · exact (gives_pure.mp h).2
  · simp only [gives_bind, gives_builtinOf, gives_pure] at h
    obtain ⟨_, _, ⟨-, rfl⟩, -, rfl⟩ := h
    rfl
  · exact (gives_pure.mp h).2

/-- The parameters and the result of a builtin function are types of its arguments, their elements
or builtin types. -/
theorem settled_signature (hs : s.Sound) {kind : BuiltinFunc} {args : List ExprType}
    {found : Option (List (RefKind × TypeId) × TypeId)}
    (hargs : ∀ a ∈ args, s.tables.types.Settled a.type)
    (h : (signature kind args).Gives settings s found s') :
    s = s' ∧ ∀ params ret, found = some (params, ret) →
      (∀ p ∈ params, s.tables.types.Settled p.2) ∧ s.tables.types.Settled ret := by
  have hbuiltin := hs.tables.types.settled_builtin
  have one {passing : RefKind} {type : TypeId} (htype : s.tables.types.Settled type)
      (p : RefKind × TypeId) (hp : p ∈ [(passing, type)]) : s.tables.types.Settled p.2 :=
    List.mem_singleton.mp hp ▸ htype
  unfold signature at h
  split at h
  · next array =>
    simp only [gives_bind, gives_elementOf, gives_pure] at h
    obtain ⟨_, _, ⟨-, rfl⟩, rfl, rfl⟩ := h
    refine ⟨rfl, fun params ret heq => ?_⟩
    obtain ⟨element, -, heq⟩ := Option.map_eq_some_iff.mp heq
    cases heq
    exact ⟨one (hargs array List.mem_cons_self), hbuiltin .uint⟩
  · next array value =>
    simp only [gives_bind, gives_elementOf, gives_pure] at h
    obtain ⟨_, _, ⟨⟨-, -, rfl⟩, rfl⟩, rfl, rfl⟩ := h
    refine ⟨rfl, fun params ret heq => ?_⟩
    obtain ⟨element, helement, heq⟩ := Option.map_eq_some_iff.mp heq
    cases heq
    refine ⟨fun p hp => ?_, hbuiltin .void⟩
    rcases List.mem_cons.mp hp with rfl | hp
    · exact hargs array List.mem_cons_self
    · exact one (hs.tables.settled_element? helement) p hp
  · next array =>
    simp only [gives_bind, gives_elementOf, gives_pure] at h
    obtain ⟨_, _, ⟨⟨-, -, rfl⟩, rfl⟩, rfl, rfl⟩ := h
    refine ⟨rfl, fun params ret heq => ?_⟩
    obtain ⟨element, helement, heq⟩ := Option.map_eq_some_iff.mp heq
    cases heq
    exact ⟨one (hargs array List.mem_cons_self), hs.tables.settled_element? helement⟩
  · next value =>
    simp only [gives_bind, gives_ite, gives_pure] at h
    obtain ⟨_, _, hprintable, h⟩ := h
    obtain rfl := isPrintable_state hprintable
    split at h
    · obtain ⟨rfl, rfl⟩ := h
      refine ⟨rfl, fun params ret heq => ?_⟩
      cases heq
      exact ⟨one (hargs value List.mem_cons_self), hbuiltin .void⟩
    · obtain ⟨rfl, rfl⟩ := h
      exact ⟨rfl, by simp⟩
  · obtain ⟨rfl, rfl⟩ := gives_pure.mp h
    exact ⟨rfl, by simp⟩

/-- The function type of a builtin function is built from the types of its arguments. -/
theorem settled_instantiate (hs : s.Sound) {kind : BuiltinFunc} {args : List ExprType}
    {found : Option TypeId} (hargs : ∀ a ∈ args, s.tables.types.Settled a.type)
    (h : (instantiate kind args).Gives settings s found s') :
    s.Calm s' ∧ ∀ type, found = some type → s'.tables.types.Settled type := by
  simp only [instantiate, gives_bind] at h
  obtain ⟨fitting, _, hsignature, h⟩ := h
  obtain ⟨rfl, hsettled⟩ := settled_signature hs hargs hsignature
  split at h
  · next params ret =>
    simp only [gives_bind, gives_pure] at h
    obtain ⟨type, _, hintern, rfl, rfl⟩ := h
    obtain ⟨hparams, hret⟩ := hsettled params ret rfl
    obtain ⟨hcalm, hwritten⟩ := written_internFunc hs hparams hret hintern
    exact ⟨hcalm, fun type' heq => Option.some.inj heq ▸ hwritten.1⟩
  · obtain ⟨rfl, rfl⟩ := gives_pure.mp h
    exact ⟨.refl hs, by simp⟩

theorem calm_candidateParams (hs : s.Sound) {candidate : SymbolId} {args : List ExprType}
    {params : Option (List (RefKind × TypeId))}
    (hargs : ∀ a ∈ args, s.tables.types.Settled a.type)
    (h : (candidateParams candidate args).Gives settings s params s') : s.Calm s' := by
  simp only [candidateParams, gives_bind, gives_kindOf] at h
  obtain ⟨_, _, ⟨-, rfl⟩, h⟩ := h
  split at h
  · obtain ⟨-, rfl⟩ := gives_pure.mp h
    exact .refl hs
  · rw [gives_bind] at h
    obtain ⟨_, s₁, hinst, h⟩ := h
    have hcalm := (settled_instantiate hs hargs hinst).1
    split at h
    · simp only [gives_bind, gives_tyOf] at h
      obtain ⟨_, _, ⟨-, rfl⟩, h⟩ := h
      split at h
      all_goals
        obtain ⟨-, rfl⟩ := gives_pure.mp h
        exact hcalm
    · obtain ⟨-, rfl⟩ := gives_pure.mp h
      exact hcalm
  · simp only [gives_bind, gives_concreteTy] at h
    obtain ⟨_, _, ⟨-, rfl⟩, h⟩ := h
    split at h
    all_goals
      obtain ⟨-, rfl⟩ := gives_pure.mp h
      exact .refl hs
  · obtain ⟨-, rfl⟩ := gives_pure.mp h
    exact .refl hs

theorem calm_survivors (candidates : List SymbolId) (hs : s.Sound) {args : List ExprType}
    {found : Nat × List SymbolId} (hargs : ∀ a ∈ args, s.tables.types.Settled a.type)
    (h : (survivors args candidates).Gives settings s found s') : s.Calm s' := by
  induction candidates generalizing s found with
  | nil =>
      simp only [survivors, gives_pure] at h
      exact h.2 ▸ .refl hs
  | cons candidate rest ih =>
      simp only [survivors, gives_bind] at h
      obtain ⟨_, s₁, hparams, h⟩ := h
      have hcalm := calm_candidateParams hs hargs hparams
      have hargs₁ (a : ExprType) (ha : a ∈ args) := (hargs a ha).mono hcalm.tables.types
      split at h
      · simp only [gives_bind, gives_accepts, gives_pure] at h
        obtain ⟨_, _, ⟨-, rfl⟩, _, _, hrest, -, rfl⟩ := h
        exact hcalm.trans (ih hcalm.sound hargs₁ hrest)
      · simp only [gives_bind, gives_kindOf] at h
        obtain ⟨_, _, ⟨-, rfl⟩, h⟩ := h
        split at h
        all_goals
          simp only [gives_pure] at h
          obtain ⟨_, _, hrest, -, rfl⟩ := h
          exact hcalm.trans (ih hcalm.sound hargs₁ hrest)

end Stela.Check
