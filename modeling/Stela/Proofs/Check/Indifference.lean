import Stela.Proofs.Check.Gives
import Stela.Proofs.Check.Ordinary

/-!
# The analysis is ordinary

Every step of the analysis is ordinary but those that declare an alias or resolve
one: the lowering of types, the rules for expressions and statements, the visit of
a tree with the bodies it needs on demand, and the phases of a module. All steps
are plain, and so indifferent to the settings.
-/

namespace Stela.Check

variable {α : Type} {ensure : SymbolId → Check Unit}

/-! ## Names -/

theorem ordinary_clash {name : Ident} {existing : SymbolId} :
    Ordinary ensure (clash name existing : Check α) := by
  refine ordinary_cursor.bind fun _ => ordinary_scopeAt.bind fun scope =>
    ordinary_symbol.bind fun entry => ?_
  dsimp only
  split
  · split
    · exact ordinary_nameOf.bind fun _ => .pure_bind (ordinary_raise (by simp))
    · exact .pure_bind (.pure_bind (ordinary_raise (by simp)))
  · split
    · exact ordinary_nameOf.bind fun _ => .pure_bind (ordinary_raise (by simp))
    · exact .pure_bind (.pure_bind (ordinary_raise (by simp)))
  · exact .pure_bind (ordinary_raise (by simp))

theorem ordinary_requireComparable {row : Row} : Ordinary ensure (requireComparable row) :=
  .reading (fun _ _ => rfl) fun _ => ordinary_require.bind fun _ => ordinary_require.bind fun _ =>
    ordinary_pure _

theorem ordinary_declareRow {span : Span} {row : Row} : Ordinary ensure (declareRow span row) := by
  refine ordinary_requireComparable.bind fun _ => Ordinary.reading (fun _ _ => rfl) fun s => ?_
  split
  · refine Ordinary.bind (ordinary_still (fun _ _ => rfl) (fun _ => rfl) fun _ => rfl) fun _ => ?_
    split
    · exact ordinary_warnShadow
    · exact ordinary_pure _
  · exact ordinary_clash

theorem ordinary_declareObject {name : Ident} {type : ExprType} {origin : Origin} :
    Ordinary ensure (declareObject name type origin) :=
  ordinary_cursor.bind fun _ => (ordinary_newSymbol (by simp)).bind fun _ =>
    ordinary_declareRow.bind fun _ => ordinary_pure _

theorem searching_bind (f : CheckState → Check α) : searching >>= f =
    state >>= fun s => if s.isSearchable then f s else fault (.missingScope s.scopes.cursor) := by
  funext c s
  have hsearching : searching c s = (if s.isSearchable then pure s else fault _ : Check CheckState) c s := rfl
  change Check.bind searching f c s = (if s.isSearchable then f s else fault _ : Check α) c s
  by_cases hsearchable : s.isSearchable
  · rw [if_pos hsearchable] at hsearching ⊢
    rw [Check.bind, hsearching]
    rfl
  · rw [if_neg hsearchable] at hsearching ⊢
    rw [Check.bind, hsearching]
    rfl

theorem Ordinary.searching {f : CheckState → Check α} (hmask : ∀ (m : Mask) s, f (m.state s) = f s)
    (h : ∀ s, Ordinary ensure (f s)) : Ordinary ensure (searching >>= f) := by
  rw [searching_bind]
  exact .reading (fun m s => by rw [hmask]; rfl) fun s => .ite (h s) (ordinary_fault _)

theorem ordinary_lookup {name : Ident} : Ordinary ensure (lookup name) := by
  refine Ordinary.searching (fun _ _ => rfl) fun s => ?_
  split
  · exact ordinary_pure _
  · exact ordinary_pure _
  · exact ordinary_raise (by simp)

theorem ordinary_lookupRequired {name : Ident} : Ordinary ensure (lookupRequired name) := by
  refine ordinary_lookup.bind fun entries => ?_
  split
  · exact ordinary_raise (by simp)
  · exact ordinary_pure _

/-! ## Written types -/

theorem ordinary_resolveTypeName {node : Node} {qualifier : Option Ident} {name : Ident} :
    Ordinary ensure (resolveTypeName node qualifier name) := by
  refine Ordinary.reading (fun _ _ => rfl) fun s => ?_
  split
  · exact ordinary_pure _
  · extract_lets meant
    have finish (entries : List SymbolId) : Ordinary ensure (meant entries) := by
      dsimp only [meant]
      split
      · exact ordinary_raise (by simp)
      · exact ordinary_kindOf.bind fun _ => .guard (ordinary_raise (by simp)) <|
          ordinary_markUsed.bind fun _ => ordinary_fill.bind fun _ => ordinary_pure _
    split
    · exact ordinary_lookup.bind finish
    · refine ordinary_lookup.bind fun found => ?_
      split
      · exact (ordinary_raise (by simp)).bind finish
      · refine ordinary_kindOf.bind fun kind => ?_
        split
        · exact ordinary_markUsed.bind fun _ => ordinary_entriesOf.bind finish
        · exact (ordinary_raise (by simp)).bind finish

theorem ordinary_typeOfSymbolWith {symbol : SymbolId} :
    Ordinary ensure (typeOfSymbolWith ensure symbol) := by
  refine ordinary_kindOf.bind fun kind => ?_
  split
  · exact ordinary_pure _
  · exact ordinary_pure _
  · exact ordinary_pure _
  · exact ordinary_pure _
  · exact (Ordinary.ensure symbol).bind fun _ => ordinary_pure _
  · exact ordinary_fault _

theorem Ordinary.rememberType {node : Node} {p : Check TypeId} (h : Ordinary ensure p) :
    Ordinary ensure (rememberType node p) := by
  refine Ordinary.reading (fun _ _ => rfl) fun s => ?_
  split
  · exact ordinary_pure _
  · exact h.bind fun _ => ordinary_fill.bind fun _ => ordinary_pure _

mutual

theorem ordinary_lowerWith : ∀ type, Ordinary ensure (lowerWith ensure type)
  | .named .. => (ordinary_resolveTypeName.bind fun _ => ordinary_typeOfSymbolWith).rememberType
  | .array _ element => ((ordinary_lowerWith element).bind fun _ =>
      ordinary_intern).rememberType
  | .func _ params (some ret) => ((ordinary_lowerParams params).bind fun _ =>
      (ordinary_lowerWith ret).bind fun _ => ordinary_intern).rememberType
  | .func _ params none => ((ordinary_lowerParams params).bind fun _ =>
      (ordinary_pure _).bind fun _ => ordinary_intern).rememberType

theorem ordinary_lowerParams : ∀ params, Ordinary ensure (lowerParams ensure params)
  | [] => ordinary_pure _
  | ⟨_, type⟩ :: rest =>
    (ordinary_lowerWith type).bind fun _ => (ordinary_lowerParams rest).bind fun _ =>
      ordinary_pure _

end

theorem plain_setAliasTarget {id : SymbolId} {target : AliasTarget} : Plain (setAliasTarget id target) :=
  have hread : Ordinary (fun _ => pure ()) (symbol id) := ordinary_symbol
  (hread.plain fun _ => plain_pure ()).bind fun _ => plain_change
    (f := fun s => ((), { s with tables.symbols := s.tables.symbols.modifyKind id _ }))
    (fun _ _ => rfl) fun _ => rfl

theorem plain_ensureAliasWithin (bound : Nat) : ∀ id, Plain (ensureAliasWithin bound id) := by
  induction bound with
  | zero => exact fun _ => plain_fault _
  | succ bound ih =>
      refine fun id => (ordinary_symbol.plain ih).bind fun entry => ?_
      split
      · split
        · exact plain_pure _
        · exact plain_raise
        · exact plain_setAliasTarget.bind fun _ =>
            ((ordinary_lowerWith _).withCursor.plain ih).bind fun _ => plain_setAliasTarget
      · exact plain_pure _

theorem plain_ensureAlias (id : SymbolId) : Plain (ensureAlias id) :=
  Plain.bind (plain_change (f := fun s => (s.tables, s)) (fun _ _ => rfl) fun _ => rfl) fun _ =>
    plain_ensureAliasWithin _ id

theorem ordinary_typeOfSymbol {id : SymbolId} : Ordinary ensureAlias (typeOfSymbol id) :=
  ordinary_typeOfSymbolWith

theorem ordinary_lowerType {type : TypeExpr} : Ordinary ensureAlias (lowerType type) :=
  ordinary_lowerWith type

theorem ordinary_lowerOptional {type : Option TypeExpr} : Ordinary ensureAlias (lowerOptional type) := by
  cases type with
  | none => exact ordinary_pure _
  | some type => exact ordinary_lowerType.bind fun _ => ordinary_pure _

theorem ordinary_lowerSignature (params : List Param) : Ordinary ensureAlias (lowerSignature params) := by
  induction params with
  | nil => exact ordinary_pure _
  | cons param rest ih =>
      exact ordinary_lowerType.bind fun _ => ih.bind fun _ => ordinary_pure _

theorem ordinary_declaredResult {decl : FuncDecl} : Ordinary ensureAlias (declaredResult decl) := by
  unfold declaredResult
  split
  · exact ordinary_lowerType.bind fun _ => ordinary_pure _
  · exact ordinary_pure _
  · exact ordinary_pure _

/-! ## Calls and overloads -/

theorem ordinary_requireKnown {type : ExprType} {span : Span} :
    Ordinary ensureAlias (requireKnown type span) := by
  refine ordinary_pendingOf.bind fun func => ?_
  split
  · exact ordinary_nameOf.bind fun _ => ordinary_raise (by simp)
  · exact ordinary_pure _

theorem ordinary_isPrintable {type : TypeId} : Ordinary ensureAlias (isPrintable type) := by
  refine ordinary_concreteTy.bind fun ty => ?_
  split
  · exact ordinary_pure _
  · exact ordinary_builtinOf.bind fun _ => ordinary_pure _
  · exact ordinary_pure _

theorem ordinary_signature {kind : BuiltinFunc} {args : List ExprType} :
    Ordinary ensureAlias (signature kind args) := by
  unfold signature
  split
  · exact ordinary_elementOf.bind fun _ => ordinary_pure _
  · exact ordinary_elementOf.bind fun _ => ordinary_pure _
  · exact ordinary_elementOf.bind fun _ => ordinary_pure _
  · exact ordinary_isPrintable.bind fun _ => .ite (ordinary_pure _) (ordinary_pure _)
  · exact ordinary_pure _

theorem ordinary_instantiate {kind : BuiltinFunc} {args : List ExprType} :
    Ordinary ensureAlias (instantiate kind args) := by
  refine ordinary_signature.bind fun found => ?_
  split
  · exact ordinary_intern.bind fun _ => ordinary_pure _
  · exact ordinary_pure _

theorem ordinary_candidateParams {candidate : SymbolId} {args : List ExprType} :
    Ordinary ensureAlias (candidateParams candidate args) := by
  refine ordinary_kindOf.bind fun kind => ?_
  split
  · exact ordinary_pure _
  · refine ordinary_instantiate.bind fun type => ?_
    split
    · refine ordinary_tyOf.bind fun ty => ?_
      split
      · exact ordinary_pure _
      · exact ordinary_pure _
    · exact ordinary_pure _
  · refine ordinary_concreteTy.bind fun ty => ?_
    split
    · exact ordinary_pure _
    · exact ordinary_pure _
  · exact ordinary_pure _

theorem ordinary_accepts {params : List (RefKind × TypeId)} {args : List ExprType} :
    Ordinary ensureAlias (accepts params args) :=
  ordinary_tables.bind fun _ => ordinary_require

theorem ordinary_survivors {args : List ExprType} (candidates : List SymbolId) :
    Ordinary ensureAlias (survivors args candidates) := by
  induction candidates with
  | nil => exact ordinary_pure _
  | cons candidate rest ih =>
      refine ordinary_candidateParams.bind fun params => ?_
      split
      · exact ordinary_accepts.bind fun _ => ih.bind fun _ => ordinary_pure _
      · exact ordinary_kindOf.bind fun kind => ih.bind fun _ => ordinary_pure _

theorem ordinary_captureWithin (bound : Nat) :
    ∀ closure source, Ordinary ensureAlias (captureWithin bound closure source) := by
  induction bound with
  | zero => exact fun _ _ => ordinary_fault _
  | succ bound ih =>
      intro closure source
      have add (type : TypeId) (via : CaptureSource) : Ordinary ensureAlias (do
          modifyClosure closure fun info =>
            { info with captures := info.captures ++ [⟨source, via, type⟩] }
          let info ← require ((← tables).symbols.closure? closure) (.notAClosure closure)
          return info.captures.length - 1) :=
        ordinary_modifyClosure.bind fun _ => ordinary_tables.bind fun _ =>
          ordinary_require.bind fun _ => ordinary_pure _
      refine ordinary_tables.bind fun t => ordinary_require.bind fun info => ?_
      split
      · exact ordinary_pure _
      · refine ordinary_symbol.bind fun object => ordinary_tables.bind fun t =>
          ordinary_require.bind fun objectInfo => ?_
        dsimp only
        split
        · exact (ordinary_pure _).bind fun via => add _ via
        · refine ordinary_closureOf.bind fun outer => ?_
          split
          · refine ordinary_isWithin.bind fun within => ?_
            split
            · exact (ordinary_pure _).bind fun via => add _ via
            · exact (ih _ _).bind fun _ => (ordinary_pure _).bind fun via => add _ via
          · exact (ordinary_pure _).bind fun via => add _ via

theorem ordinary_noteCapture {node : Nat} {source : SymbolId} :
    Ordinary ensureAlias (noteCapture node source) := by
  refine ordinary_frame?.bind fun frame => ?_
  split
  · exact ordinary_pure _
  · refine .ite (ordinary_pure _) (ordinary_symbol.bind fun entry => ?_)
    split
    · refine .ite (ordinary_pure _) (ordinary_isWithin.bind fun _ => .ite (ordinary_pure _) ?_)
      exact (ordinary_tables.bind fun _ => ordinary_captureWithin _ _ _).bind fun _ =>
        ordinary_still (fun _ _ => rfl) (fun _ => rfl) fun _ => rfl
    · exact ordinary_pure _

section

variable {analyze : SymbolId → Check Unit} (hanalyze : ∀ func, Ordinary ensureAlias (analyze func))

include hanalyze

theorem ordinary_funcReturn {func : SymbolId} : Ordinary ensureAlias (funcReturn analyze func) := by
  refine ordinary_funcOf.bind fun info => ?_
  split
  · exact ordinary_pure _
  · split
    · exact ordinary_pure _
    · exact (hanalyze func).bind fun _ => ordinary_funcOf.bind fun _ => ordinary_pure _
    · exact ordinary_intern
    · exact ordinary_pure _

theorem ordinary_funcType {func : SymbolId} : Ordinary ensureAlias (funcType analyze func) :=
  ordinary_funcOf.bind fun _ => (ordinary_funcReturn hanalyze).bind fun _ => ordinary_intern

theorem ordinary_resolveOverload {node : Nat} {name : Ident} {candidates : List SymbolId}
    {args : List ExprType} : Ordinary ensureAlias (resolveOverload analyze node name candidates args) := by
  refine (ordinary_survivors candidates).bind fun found => ?_
  obtain ⟨callable, accepting⟩ := found
  dsimp -zeta only
  extract_lets give choose refuse
  have choose_ordinary (u : PUnit) : Ordinary ensureAlias (choose u) := by
    dsimp only [choose]
    split
    · refine ordinary_useSymbol.bind fun _ => ordinary_kindOf.bind fun kind => ?_
      split
      · exact ordinary_instantiate.bind fun _ => (ordinary_pure _).bind fun _ =>
          ordinary_pure _
      · exact ordinary_noteCapture.bind fun _ => (ordinary_pure _).bind fun _ =>
          ordinary_pure _
      · exact (ordinary_funcType hanalyze).bind fun _ => ordinary_pure _
    · exact (ordinary_typeTexts args).bind fun _ => ordinary_raise (by simp)
  split
  · have refuse_ordinary (text : String) : Ordinary ensureAlias (refuse text) :=
      (ordinary_raise (by simp)).bind choose_ordinary
    split
    · exact (ordinary_pure _).bind refuse_ordinary
    · refine ordinary_kindOf.bind fun kind => ?_
      split
      · exact ordinary_typeText.bind refuse_ordinary
      · exact (ordinary_pure _).bind refuse_ordinary
  · exact choose_ordinary ()

theorem ordinary_valueOf {node : Nat} {name : Ident} {entries : List SymbolId} :
    Ordinary ensureAlias (valueOf analyze node name entries) := by
  unfold valueOf
  split
  · exact ordinary_raise (by simp)
  · next first rest =>
    refine ordinary_kindOf.bind fun kind => ?_
    split
    · exact ordinary_useSymbol.bind fun _ => ordinary_noteCapture.bind fun _ =>
        ordinary_pure _
    · exact .guard (ordinary_raise (by simp)) <| ordinary_useSymbol.bind fun _ =>
        (ordinary_funcType hanalyze).bind fun _ => ordinary_tyOf.bind fun _ =>
          ordinary_requireKnown.bind fun _ => ordinary_pure _
    · exact ordinary_raise (by simp)

end

/-! ## Rules for expressions -/

theorem ordinary_literalType {value : Literal} : Ordinary ensureAlias (literalType value) := by
  unfold literalType
  split <;> first | exact ordinary_pure _ | exact ordinary_intern

theorem ordinary_checkCondition {type : ExprType} {span : Span} :
    Ordinary ensureAlias (checkCondition type span) := by
  refine ordinary_requireKnown.bind fun type => ordinary_concreteTy.bind fun ty => ?_
  split
  · exact ordinary_pure _
  · exact ordinary_pure _
  · exact ordinary_mismatch

theorem ordinary_noteAssumption {func : SymbolId} {type : TypeId} {span : Span} :
    Ordinary ensureAlias (noteAssumption func type span) :=
  ordinary_still (fun _ _ => rfl) (fun _ => rfl) fun _ => rfl

theorem ordinary_settlePending {a b : ExprType} {span : Span} :
    Ordinary ensureAlias (settlePending a b span) := by
  refine ordinary_pendingOf.bind fun _ => ordinary_pendingOf.bind fun _ => ?_
  split
  · exact ordinary_noteAssumption.bind fun _ => ordinary_pure _
  · exact ordinary_noteAssumption.bind fun _ => ordinary_pure _
  · exact ordinary_pure _

theorem ordinary_operandFits {op : BinOp} {type : TypeId} : Ordinary ensureAlias (operandFits op type) := by
  have finish : Ordinary ensureAlias (do return (← tables).operandFits op type) :=
    ordinary_tables.bind fun _ => ordinary_pure _
  exact ordinary_concreteTy.bind fun _ =>
    .ite (ordinary_representationTy.bind fun _ => finish) finish

theorem ordinary_checkBinary {op : BinOp} {lhs rhs : TypeId} {span : Span} :
    Ordinary ensureAlias (checkBinary op lhs rhs span) := by
  have finish (valid : Bool) : Ordinary ensureAlias (do
      if valid then return op.resultType lhs
      else raise (.invalidOperand op.spelling [← typeText lhs, ← typeText rhs]) span) :=
    .ite (ordinary_pure _) (ordinary_typeText.bind fun _ => ordinary_typeText.bind fun _ =>
      ordinary_raise (by simp))
  exact ordinary_operandFits.bind fun _ =>
    .ite (ordinary_same.bind finish) ((ordinary_pure _).bind finish)

theorem ordinary_checkUnary {op : UnaryOp} {operand : ExprType} {span : Span} :
    Ordinary ensureAlias (checkUnary op operand span) :=
  ordinary_builtinOf.bind fun _ =>
    .ite (ordinary_pure _) (ordinary_typeText.bind fun _ => ordinary_raise (by simp))

theorem ordinary_memberAccess {owner : SymbolId} {member : Ident} {reason : String} :
    Ordinary ensureAlias (memberAccess owner member reason : Check α) :=
  ordinary_nameOf.bind fun _ => ordinary_raise (by simp)

theorem ordinary_noMember {owner : String} {member : Ident} :
    Ordinary ensureAlias (noMember owner member : Check α) := ordinary_raise (by simp)

theorem ordinary_currentStruct : Ordinary ensureAlias currentStruct :=
  Ordinary.reading (fun _ _ => rfl) fun s => by
    split
    · exact ordinary_funcOf.bind fun _ => ordinary_pure _
    · exact ordinary_pure _

theorem ordinary_checkAccess {owner : SymbolId} {row : Row} {member : Ident} :
    Ordinary ensureAlias (checkAccess owner row member) :=
  ordinary_currentStruct.bind fun _ => .ite ordinary_memberAccess (ordinary_pure _)

theorem ordinary_memberRows {owner : SymbolId} {member : Ident} :
    Ordinary ensureAlias (memberRows owner member) := by
  refine ordinary_kindOf.bind fun kind => ?_
  split
  · exact ordinary_membersOf.bind fun _ => ordinary_pure _
  · exact ordinary_pure _

theorem ordinary_funcMeant {node : Nat} : Ordinary ensureAlias (funcMeant node) :=
  Ordinary.reading (fun _ _ => rfl) fun s => by
    split
    · exact ordinary_funcOf
    · exact ordinary_pure _

theorem ordinary_objectMeant {node : Nat} : Ordinary ensureAlias (objectMeant node) :=
  Ordinary.reading (fun _ _ => rfl) fun s => by
    split
    · exact ordinary_objectOf
    · exact ordinary_pure _

theorem ordinary_record {node : Node} {context : ExprContext} {type : ExprType} :
    Ordinary ensureAlias (record node context type) := by
  have finish : Ordinary ensureAlias (do
      update fun s => { s with exprTypes := s.exprTypes.insert node.id ⟨node.span, type⟩ }
      return type) :=
    .bind (ordinary_still (fun _ _ => rfl) (fun _ => rfl) fun _ => rfl) fun _ => ordinary_pure _
  cases context with
  | condition => exact ordinary_checkCondition.bind fun _ => finish
  | value => exact (ordinary_pure ()).bind fun _ => finish
  | callee args => exact (ordinary_pure ()).bind fun _ => finish

theorem Ordinary.known {span : Span} {p : Check ExprType} (h : Ordinary ensureAlias p) :
    Ordinary ensureAlias (known span p) := h.bind fun _ => ordinary_requireKnown

theorem ordinary_staticPath_finish {node : Nat} {symbol : SymbolId} :
    Ordinary ensureAlias (staticPath.finish node symbol) :=
  ordinary_kindOf.bind fun _ =>
    .ite (ordinary_useSymbol.bind fun _ => ordinary_pure _) (ordinary_pure _)

theorem ordinary_staticPath (e : Expr) : Ordinary ensureAlias (staticPath e) := by
  induction e using staticPath.induct with
  | case1 node name =>
      rw [staticPath]
      refine ordinary_lookup.bind fun found => ?_
      split
      · exact ordinary_pure _
      · exact ordinary_staticPath_finish
  | case2 node object member ih =>
      rw [staticPath]
      refine ih.bind fun parent => ?_
      split
      · exact ordinary_pure _
      · refine ordinary_kindOf.bind fun kind => ?_
        split
        · refine ordinary_entriesOf.bind fun found => ?_
          split
          · exact ordinary_pure _
          · exact ordinary_staticPath_finish
        · exact ordinary_pure _
  | case3 e hident hmember =>
      rw [staticPath.eq_3 _ hident hmember]
      exact ordinary_pure _

theorem ordinary_describePlace {target : Expr} {place : ExprType} :
    Ordinary ensureAlias (describePlace target place) := by
  refine .ite (ordinary_pure _) ?_
  dsimp only
  split
  · exact ordinary_objectMeant.bind fun _ => ordinary_pure _
  · exact ordinary_pure _

section

variable {analyze : SymbolId → Check Unit} (hanalyze : ∀ func, Ordinary ensureAlias (analyze func))

include hanalyze

theorem ordinary_useEntries {node : Nat} {name : Ident} {entries : List SymbolId}
    {context : ExprContext} : Ordinary ensureAlias (useEntries analyze node name entries context) := by
  unfold useEntries
  split
  · exact ordinary_resolveOverload hanalyze
  · exact ordinary_valueOf hanalyze
  · exact ordinary_valueOf hanalyze

theorem ordinary_visitIdent {node : Node} {name : String} {context : ExprContext} :
    Ordinary ensureAlias (visitIdent analyze node name context) := by
  unfold visitIdent
  dsimp only
  split
  · refine Ordinary.searching (fun _ _ => rfl) fun s => ?_
    split
    · exact ordinary_lookupRequired.bind fun _ => ordinary_resolveOverload hanalyze
    · exact ordinary_resolveOverload hanalyze
  · exact ordinary_lookupRequired.bind fun _ => ordinary_valueOf hanalyze
  · exact ordinary_lookupRequired.bind fun _ => ordinary_valueOf hanalyze

theorem ordinary_staticMember {node : Nat} {target : SymbolId} {member : Ident}
    {context : ExprContext} : Ordinary ensureAlias (staticMember analyze node target member context) := by
  refine ordinary_kindOf.bind fun kind => ?_
  split
  · refine ordinary_entriesOf.bind fun entries => ?_
    split
    · exact ordinary_nameOf.bind fun _ => ordinary_noMember
    · exact ordinary_useEntries hanalyze
  · refine ordinary_typeOfSymbol.bind fun type => ordinary_concreteTy.bind fun ty => ?_
    split
    · refine ordinary_kindOf.bind fun kind => ?_
      split
      · refine ordinary_casesOf.bind fun cases => ?_
        split
        · exact ordinary_typeText.bind fun _ => ordinary_noMember
        · refine ordinary_useSymbol.bind fun _ => ?_
          split
          · exact ordinary_typeText.bind fun _ => ordinary_raise (by simp)
          · exact ordinary_pure _
      · exact ordinary_typeText.bind fun _ => ordinary_noMember
    · next owner =>
      refine ordinary_memberRows.bind fun rows => ?_
      extract_lets statics
      have statics_ordinary (u : PUnit) : Ordinary ensureAlias (statics u) := by
        dsimp only [statics]
        split
        · exact ordinary_memberAccess
        · exact ordinary_checkAccess.bind fun _ => ordinary_useEntries hanalyze
      exact .ite (ordinary_typeText.bind fun _ => ordinary_noMember.bind statics_ordinary)
        (statics_ordinary ())
    · exact ordinary_typeText.bind fun _ => ordinary_noMember

theorem ordinary_instanceMember {node : Nat} {object : ExprType} {member : Ident}
    {context : ExprContext} : Ordinary ensureAlias (instanceMember analyze node object member context) := by
  refine ordinary_concreteTy.bind fun ty => ?_
  split
  · refine ordinary_memberRows.bind fun rows => ?_
    split
    · exact ordinary_typeText.bind fun _ => ordinary_noMember
    · refine ordinary_checkAccess.bind fun _ => ordinary_kindOf.bind fun kind => ?_
      split
      · exact ordinary_useSymbol.bind fun _ => ordinary_pure _
      · split
        · exact ordinary_memberAccess
        · split
          · refine (ordinary_resolveOverload hanalyze).bind fun callee =>
              ordinary_funcMeant.bind fun meant => ?_
            exact .ite ((ordinary_raise (by simp)).bind fun _ => ordinary_pure _) (ordinary_pure _)
          · exact ordinary_memberAccess
  · refine ordinary_kindOf.bind fun kind => ?_
    extract_lets field
    cases field with
    | some field => exact ordinary_pure _
    | none => exact ordinary_typeText.bind fun _ => ordinary_noMember
  · exact ordinary_typeText.bind fun _ => ordinary_noMember

end

/-! ## Typed operations -/

/-- The transfers that are planned differ in their elision only. -/
theorem ordinary_recordTransfer {type : TypeId} {site : TransferSite} (e : Expr)
    (source : ExprType) : Ordinary ensureAlias (recordTransfer type site e source) := by
  induction e, source using recordTransfer.induct with
  | case1 node cond onTrue onFalse source ihTrue ihFalse =>
      rw [recordTransfer]
      exact (Ordinary.reading (fun _ _ => rfl) fun _ => ordinary_pure _).bind fun _ =>
        (ihTrue _).bind fun _ =>
          (Ordinary.reading (fun _ _ => rfl) fun _ => ordinary_pure _).bind fun _ => ihFalse _
  | case2 source e hternary =>
      rw [recordTransfer.eq_2 _ _ _ _ hternary]
      exact ordinary_categoryOf.bind fun _ => .plan

theorem ordinary_transferArgs (params : List (RefKind × TypeId)) :
    ∀ args, Ordinary ensureAlias (transferArgs params args) := by
  induction params with
  | nil => exact fun _ => ordinary_pure _
  | cons param rest ih =>
      obtain ⟨kind, type⟩ := param
      intro args
      cases args with
      | nil => cases kind <;> exact ordinary_pure _
      | cons arg args =>
          cases kind with
          | value => exact (ordinary_recordTransfer _ _).bind fun _ => ih args
          | reference => exact ih args

theorem ordinary_finishCall {node : Node} {callee : Expr} {calleeType : ExprType}
    {args : List (Expr × ExprType)} : Ordinary ensureAlias (finishCall node callee calleeType args) := by
  refine ordinary_requireKnown.bind fun type => ordinary_concreteTy.bind fun ty => ?_
  split
  · refine ordinary_accepts.bind fun accepted => ?_
    split
    · exact ordinary_typeText.bind fun _ => (ordinary_typeTexts _).bind fun _ =>
        (ordinary_raise (by simp)).bind fun _ => (ordinary_transferArgs _ _).bind fun _ =>
          ordinary_pure _
    · exact (ordinary_transferArgs _ _).bind fun _ => ordinary_pure _
  · exact ordinary_typeText.bind fun _ => ordinary_raise (by simp)

theorem ordinary_arrayElement {array : ExprType} {span : Span} :
    Ordinary ensureAlias (arrayElement array span) := by
  refine ordinary_concreteTy.bind fun ty => ?_
  split
  · exact ordinary_pure _
  · exact ordinary_typeText.bind fun _ => ordinary_raise (by simp)

theorem ordinary_checkSubscript {array subscript : ExprType} {span : Span} :
    Ordinary ensureAlias (checkSubscript array subscript span) :=
  ordinary_builtinOf.bind fun _ =>
    .ite (ordinary_typeText.bind fun _ => ordinary_typeText.bind fun _ => ordinary_raise (by simp))
      (ordinary_pure _)

theorem ordinary_finishBinary {op : BinOp} {left right : ExprType} {span : Span} :
    Ordinary ensureAlias (finishBinary op left right span) := by
  refine ordinary_settlePending.bind fun (left, right) => ordinary_pendingOf.bind fun func => ?_
  split
  · split
    · exact ordinary_pure _
    · exact ordinary_pure _
    · exact ordinary_pure _
  · exact ordinary_checkBinary.bind fun _ => ordinary_pure _

theorem ordinary_expectedElement {expected : Option TypeId} :
    Ordinary ensureAlias (expectedElement expected) := by
  cases expected with
  | none => exact ordinary_pure _
  | some type => exact ordinary_elementOf

theorem ordinary_emptyArray {expected : Option TypeId} {span : Span} :
    Ordinary ensureAlias (emptyArray expected span) := by
  refine ordinary_expectedElement.bind fun element => ?_
  split
  · exact ordinary_pure _
  · exact ordinary_raise (by simp)

theorem ordinary_finishAssign {op : Option BinOp} {place : ExprType} {value : Expr}
    {assigned : ExprType} {span : Span} :
    Ordinary ensureAlias (finishAssign op place value assigned span) := by
  unfold finishAssign
  split
  · exact ordinary_checkBinary.bind fun _ => ordinary_same.bind fun _ =>
      .ite (ordinary_typeText.bind fun _ => ordinary_typeText.bind fun _ => ordinary_raise (by simp))
        (ordinary_pure _)
  · exact ordinary_same.bind fun _ =>
      .ite (ordinary_mismatch.bind fun _ => ordinary_recordTransfer _ _)
        (ordinary_recordTransfer _ _)

/-! ## Result types -/

theorem ordinary_deduceReturn {type : TypeId} : Ordinary ensureAlias (deduceReturn type) := by
  refine ordinary_frame?.bind fun frame => ?_
  split
  · exact ordinary_pure _
  · refine ordinary_modifyFrame.bind fun _ => ?_
    split
    · exact ordinary_modifyFunc
    · exact ordinary_modifyClosure

theorem ordinary_checkLoopControl {keyword : String} {span : Span} :
    Ordinary ensureAlias (checkLoopControl keyword span) := by
  refine ordinary_frame?.bind fun frame => ?_
  split
  · exact .ite (ordinary_raise (by simp)) (ordinary_pure _)
  · exact ordinary_raise (by simp)

theorem ordinary_enterLoop : Ordinary ensureAlias enterLoop := ordinary_modifyFrame

theorem ordinary_leaveLoop : Ordinary ensureAlias leaveLoop := by
  refine ordinary_frame?.bind fun frame => ?_
  split
  · exact .ite ((ordinary_fault _).bind fun _ => ordinary_modifyFrame) ordinary_modifyFrame
  · exact ordinary_pure _

theorem ordinary_checkReturned {frame : Frame} {value : Expr} {returned : ExprType}
    {span : Span} : Ordinary ensureAlias (checkReturned frame value returned span) := by
  have transfer (type : TypeId) : Ordinary ensureAlias (do
      if !(← isVoid type) then recordTransfer type .ret value returned) :=
    ordinary_isVoid.bind fun _ => .ite (ordinary_recordTransfer _ _) (ordinary_pure _)
  refine ordinary_pendingOf.bind fun func => ?_
  split
  · split
    · exact ordinary_noteAssumption
    · exact ordinary_modifyFrame
  · split
    · next type _ =>
      have compare : Ordinary ensureAlias (do
          if !(← same type returned.type) then mismatch type returned.type value.span
          if !(← isVoid type) then recordTransfer type .ret value returned) :=
        ordinary_same.bind fun _ =>
          .ite (ordinary_mismatch.bind fun _ => transfer type) (transfer type)
      exact ordinary_isVoid.bind fun _ => ordinary_isVoid.bind fun _ =>
        .ite (ordinary_nameOf.bind fun _ => (ordinary_raise (by simp)).bind fun _ => compare) compare
    · exact ordinary_deduceReturn.bind fun _ => transfer _

theorem ordinary_checkBareReturn {frame : Frame} {span : Span} :
    Ordinary ensureAlias (checkBareReturn frame span) := by
  unfold checkBareReturn
  split
  · exact ordinary_isVoid.bind fun _ =>
      .ite (ordinary_nameOf.bind fun _ => (ordinary_raise (by simp))) (ordinary_pure _)
  · exact ordinary_deduceReturn

theorem state_settleExprs (m : Mask) {pending ret : TypeId} (exprs : List Nat) (s : CheckState) :
    CheckState.settleExprs pending ret (m.state s) exprs =
      m.state (CheckState.settleExprs pending ret s exprs) := by
  induction exprs generalizing s with
  | nil => rfl
  | cons node rest ih =>
      simp only [CheckState.settleExprs, List.foldl_cons] at ih ⊢
      rw [← ih]
      congr 1
      have hexprs : (m.state s).exprTypes = s.exprTypes := rfl
      rw [hexprs]
      cases s.exprTypes.get? node with
      | none => rfl
      | some typing => rfl

theorem ordinary_resolvePending {func : SymbolId} {ret : TypeId} :
    Ordinary ensureAlias (update fun s => s.resolvePending func ret) := by
  refine ordinary_still (fun m s => ?_) (fun s => (resolvePending_still s).1) fun s =>
    (resolvePending_still s).2
  unfold CheckState.resolvePending
  rw [show (m.state s).tables = s.tables from rfl]
  cases s.tables.types.find? (.pending func) with
  | none => rfl
  | some pending => exact state_settleExprs m _ s

theorem ordinary_replacePending {func : SymbolId} {ret : TypeId} :
    Ordinary ensureAlias (replacePending func ret) := by
  refine Ordinary.reading (fun _ _ => rfl) fun s => ?_
  exact .guard (.forM (fun _ => ordinary_tyOf.bind fun _ => ordinary_pure _) _) ordinary_resolvePending

theorem ordinary_verifyAssumptions {func : SymbolId} {ret : TypeId} :
    Ordinary ensureAlias (verifyAssumptions func ret) := by
  refine Ordinary.reading (fun _ _ => rfl) fun s => ?_
  refine Ordinary.bind (ordinary_still (fun _ _ => rfl) (fun _ => rfl) fun _ => rfl)
    fun _ => .forM (fun a => ?_) _
  exact ordinary_same.bind fun _ => .ite ordinary_mismatch (ordinary_pure _)

theorem ordinary_finishBody {frame : Frame} {body : List Stmt} {span : Span} :
    Ordinary ensureAlias (finishBody frame body span) := by
  have finish (ret : TypeId) : Ordinary ensureAlias (do
      verifyAssumptions frame.symbol ret
      replacePending frame.symbol ret
      return ret) :=
    ordinary_verifyAssumptions.bind fun _ => ordinary_replacePending.bind fun _ =>
      ordinary_pure _
  have settle (name : String) (ret : TypeId) : Ordinary ensureAlias (do
      frame.pendingReturns.forM fun call => do
        if call.callee != frame.symbol then noteAssumption call.callee ret call.span
      if !(← isVoid ret) && !stmtsReturn body then
        raise (.badReturn (.notAllPathsReturn name)) span
      verifyAssumptions frame.symbol ret
      replacePending frame.symbol ret
      return ret) :=
    (Ordinary.forM (fun _ => .ite ordinary_noteAssumption (ordinary_pure _)) _).bind
      fun _ => ordinary_isVoid.bind fun _ =>
        .ite ((ordinary_raise (by simp)).bind fun _ => finish ret) (finish ret)
  refine ordinary_nameOf.bind fun name => ?_
  dsimp only
  split
  · exact (ordinary_pure _).bind fun ret => settle name ret
  · split
    · exact (ordinary_raise (by simp)).bind fun ret => settle name ret
    · exact (ordinary_pure _).bind fun ret => settle name ret

/-! ## Declarations of a body -/

theorem ordinary_bindingType {name : Ident} {declared : Option TypeId}
    {init : Option (Expr × ExprType)} : Ordinary ensureAlias (bindingType name declared init) := by
  unfold bindingType
  split
  · exact ordinary_same.bind fun _ =>
      .ite (ordinary_mismatch.bind fun _ => ordinary_pure _) (ordinary_pure _)
  · exact ordinary_pure _
  · exact ordinary_pure _
  · exact ordinary_raise (by simp)

theorem ordinary_declareVariable {place : BindingPlace} {name : Ident} {type : ExprType} :
    Ordinary ensureAlias (declareVariable place name type) := by
  cases place with
  | stmt id =>
      exact ordinary_declareObject.bind fun _ => ordinary_fill.bind fun _ => ordinary_pure _
  | decl id =>
      exact ordinary_declareObject.bind fun _ => ordinary_fill.bind fun _ => ordinary_pure _

theorem ordinary_finishBinding {place : BindingPlace} {binding : Binding}
    {declared : Option TypeId} {init : Option (Expr × ExprType)} :
    Ordinary ensureAlias (finishBinding place binding declared init) := by
  refine ordinary_bindingType.bind fun type => ordinary_isVoid.bind fun _ =>
    .guard (ordinary_raise (by simp)) <| ordinary_declareVariable.bind fun symbol => ?_
  split
  · exact ordinary_recordTransfer _ _
  · exact ordinary_still (fun _ _ => rfl) (fun _ => rfl) fun _ => rfl

theorem ordinary_declareParams (params : List (Param × ExprType)) :
    Ordinary ensureAlias (declareParams params) := by
  induction params with
  | nil => exact ordinary_pure _
  | cons param rest ih =>
      exact ordinary_declareObject.bind fun _ => ordinary_fill.bind fun _ => ih

theorem ordinary_openClosure {node : Node} {sig : Signature} :
    Ordinary ensureAlias (openClosure node sig) := by
  exact (ordinary_lowerSignature _).bind fun params => ordinary_lowerOptional.bind fun declared =>
    ordinary_frame?.bind fun _ => ordinary_cursor.bind fun _ => ordinary_cursor.bind fun _ =>
      (ordinary_newSymbol (by simp)).bind fun _ => ordinary_useSymbol.bind fun _ =>
        .bind (ordinary_still (fun _ _ => rfl) (fun _ => rfl) fun _ => rfl) fun _ =>
          ordinary_enterScope.bind fun _ => ordinary_modifyClosure.bind fun _ =>
            (ordinary_declareParams _).bind fun _ => ordinary_pushFrame

theorem ordinary_closeClosure {node : Node} {body : List Stmt} :
    Ordinary ensureAlias (closeClosure node body) :=
  ordinary_popFrame.bind fun _ => ordinary_finishBody.bind fun _ =>
    ordinary_leaveScope.bind fun _ => ordinary_modifyClosure.bind fun _ =>
      ordinary_tables.bind fun _ => ordinary_require.bind fun _ =>
        ordinary_intern.bind fun _ => ordinary_pure _

theorem ordinary_declareFunc {decl : FuncDecl} {owner : Option SymbolId} :
    Ordinary ensureAlias (declareFunc decl owner) :=
  (ordinary_lowerSignature _).bind fun _ => ordinary_declaredResult.bind fun _ =>
    ordinary_cursor.bind fun _ => (ordinary_newSymbol (by simp)).bind fun _ =>
      ordinary_fill.bind fun _ => ordinary_declareRow.bind fun _ => ordinary_pure _

theorem ordinary_openBody {func : SymbolId} {info : FuncInfo} :
    Ordinary ensureAlias (openBody func info) := by
  refine ordinary_enterScope.bind fun scope => ordinary_modifyFunc.bind fun _ => ?_
  extract_lets ret enter
  have enter_ordinary (u : PUnit) : Ordinary ensureAlias (enter u) :=
    (ordinary_declareParams _).bind fun _ => ordinary_pushFrame
  split
  · exact ordinary_typeOfSymbol.bind fun _ =>
      ordinary_declareObject.bind fun _ => enter_ordinary ()
  · exact enter_ordinary ()

theorem ordinary_closeBody {decl : FuncDecl} {body : List Stmt} :
    Ordinary ensureAlias (closeBody decl body) :=
  ordinary_popFrame.bind fun _ => ordinary_finishBody.bind fun _ =>
    ordinary_leaveScope.bind fun _ => ordinary_pure _

/-! ## The visit of a tree -/

section

variable {analyze : SymbolId → Check Unit} (hanalyze : ∀ func, Ordinary ensureAlias (analyze func))

include hanalyze

set_option linter.unusedSectionVars false in
mutual

theorem ordinary_visit (context : ExprContext) (expected : Option TypeId) :
    ∀ e, Ordinary ensureAlias (visit analyze context expected e)
  | .literal .. => ordinary_literalType.bind fun _ => ordinary_record
  | .ident .. => (ordinary_visitIdent hanalyze).bind fun _ => ordinary_record
  | .member node object name => by
      rw [visit]
      refine (ordinary_staticPath object).bind fun target => ?_
      split
      · exact (ordinary_staticMember hanalyze).bind fun _ => ordinary_record
      · exact (ordinary_visit .value none object).known.bind fun _ =>
          (ordinary_instanceMember hanalyze).bind fun _ => ordinary_record
  | .call node callee args => by
      rw [visit]
      exact (ordinary_visitArgs args).bind fun _ => (ordinary_visit _ none callee).bind fun _ =>
        ordinary_finishCall.bind fun _ => ordinary_record
  | .index node base index => by
      rw [visit]
      exact (ordinary_visit .value none base).known.bind fun _ =>
        ordinary_arrayElement.bind fun _ => (ordinary_visit .value none index).known.bind fun _ =>
          ordinary_checkSubscript.bind fun _ => ordinary_record
  | .unary node op operand => by
      rw [visit]
      exact (ordinary_visit .value none operand).known.bind fun _ =>
        ordinary_checkUnary.bind fun _ => ordinary_record
  | .binary node op lhs rhs => by
      rw [visit]
      exact (ordinary_visit .value none lhs).bind fun _ =>
        (ordinary_visit .value none rhs).bind fun _ => ordinary_finishBinary.bind fun _ =>
          ordinary_record
  | .ternary node cond onTrue onFalse => by
      rw [visit]
      exact (ordinary_visit .condition none cond).bind fun _ =>
        (ordinary_visit .value none onTrue).bind fun _ =>
          (ordinary_visit .value none onFalse).bind fun _ =>
            ordinary_settlePending.bind fun _ => ordinary_same.bind fun _ =>
              .ite (ordinary_mismatch.bind fun _ => ordinary_record) ordinary_record
  | .array node [] => by
      rw [visit]
      exact ordinary_emptyArray.bind fun _ => ordinary_record
  | .array node (first :: rest) => by
      rw [visit]
      exact ordinary_expectedElement.bind fun _ => (ordinary_visit .value _ first).known.bind fun _ =>
        (ordinary_recordTransfer _ _).bind fun _ => (ordinary_visitElements _ rest).bind fun _ =>
          ordinary_intern.bind fun _ => ordinary_record
  | .closure node sig body => by
      rw [visit]
      exact ordinary_openClosure.bind fun _ => (ordinary_checkStmts body).bind fun _ =>
        ordinary_closeClosure.bind fun _ => ordinary_record

theorem ordinary_visitArgs : ∀ es, Ordinary ensureAlias (visitArgs analyze es)
  | [] => ordinary_pure _
  | e :: rest => (ordinary_visit .value none e).known.bind fun _ =>
      (ordinary_visitArgs rest).bind fun _ => ordinary_pure _

theorem ordinary_visitElements (element : TypeId) :
    ∀ es, Ordinary ensureAlias (visitElements analyze element es)
  | [] => ordinary_pure _
  | e :: rest =>
    have transfer {type : ExprType} : Ordinary ensureAlias (do
        recordTransfer element .init e type
        visitElements analyze element rest) :=
      (ordinary_recordTransfer _ _).bind fun _ => ordinary_visitElements element rest
    (ordinary_visit .value _ e).known.bind fun _ => ordinary_same.bind fun _ =>
      .ite (ordinary_mismatch.bind fun _ => transfer) transfer

theorem ordinary_checkStmt : ∀ stmt, Ordinary ensureAlias (checkStmt analyze stmt)
  | .bind _ binding => ordinary_checkBinding _ binding
  | .assign node target op value => by
      have assign (place : ExprType) : Ordinary ensureAlias (do
          let assigned ← known value.span (visit analyze .value (some place.type) value)
          finishAssign op place value assigned node.span) :=
        (ordinary_visit .value _ value).known.bind fun _ => ordinary_finishAssign
      rw [checkStmt]
      exact (ordinary_visit .value none target).known.bind fun place =>
        .ite (ordinary_describePlace.bind fun _ => (ordinary_raise (by simp)).bind fun _ => assign place)
          (assign place)
  | .expr _ value => (ordinary_visit .value none value).bind fun _ => ordinary_pure _
  | .ifElse _ cond onTrue none => by
      rw [checkStmt]
      exact (ordinary_visit .condition none cond).bind fun _ => ordinary_enterScope.bind fun _ =>
        (ordinary_checkStmts onTrue).bind fun _ => ordinary_leaveScope.bind fun _ =>
          ordinary_pure _
  | .ifElse _ cond onTrue (some onFalse) => by
      rw [checkStmt]
      exact (ordinary_visit .condition none cond).bind fun _ => ordinary_enterScope.bind fun _ =>
        (ordinary_checkStmts onTrue).bind fun _ => ordinary_leaveScope.bind fun _ =>
          ordinary_enterScope.bind fun _ => (ordinary_checkStmts onFalse).bind fun _ =>
            ordinary_leaveScope
  | .whileLoop _ cond body => by
      rw [checkStmt]
      exact (ordinary_visit .condition none cond).bind fun _ => ordinary_enterLoop.bind fun _ =>
        ordinary_enterScope.bind fun _ => (ordinary_checkStmts body).bind fun _ =>
          ordinary_leaveScope.bind fun _ => ordinary_leaveLoop
  | .ret _ (some value) => by
      rw [checkStmt]
      refine ordinary_frame?.bind fun frame => ?_
      split
      · exact ordinary_raise (by simp)
      · exact (ordinary_visit .value _ value).bind fun _ => ordinary_checkReturned
  | .ret _ none => by
      rw [checkStmt]
      refine ordinary_frame?.bind fun frame => ?_
      split
      · exact ordinary_raise (by simp)
      · exact ordinary_checkBareReturn
  | .breakLoop _ => ordinary_checkLoopControl
  | .continueLoop _ => ordinary_checkLoopControl
  | .block _ body => ordinary_enterScope.bind fun _ => (ordinary_checkStmts body).bind fun _ =>
      ordinary_leaveScope
  | .func _ _ => ordinary_declareFunc.bind fun func => hanalyze func

theorem ordinary_checkStmts : ∀ stmts, Ordinary ensureAlias (checkStmts analyze stmts)
  | [] => ordinary_pure _
  | stmt :: rest => (ordinary_checkStmt stmt).bind fun _ => ordinary_checkStmts rest

theorem ordinary_checkBinding (place : BindingPlace) :
    ∀ binding, Ordinary ensureAlias (checkBinding analyze place binding)
  | ⟨_, _, _, some init⟩ => by
      rw [checkBinding]
      exact ordinary_lowerOptional.bind fun _ => (ordinary_visit .value _ init).known.bind fun _ =>
        (ordinary_pure _).bind fun _ => ordinary_finishBinding
  | ⟨_, _, _, none⟩ => by
      rw [checkBinding]
      exact ordinary_lowerOptional.bind fun _ => (ordinary_pure _).bind fun _ =>
        ordinary_finishBinding

end

end

/-- Whatever bodies are analyzed on demand. -/
theorem ordinary_checkBody (bound : Nat) : ∀ func, Ordinary ensureAlias (checkBody bound func) := by
  induction bound with
  | zero => exact fun _ => ordinary_fault _
  | succ bound ih =>
      refine fun func => ordinary_funcOf.bind fun info => ?_
      split
      · exact ordinary_pure _
      · refine .ite (ordinary_pure _) ?_
        split
        · exact ordinary_modifyFunc
        · refine ordinary_modifyFunc.bind fun _ => ordinary_symbol.bind fun entry =>
            Ordinary.bind (.withCursor ?_) fun _ => ordinary_modifyFunc
          exact ordinary_openBody.bind fun _ => (ordinary_checkStmts ih _).bind fun _ =>
            ordinary_closeBody

/-! ## Modules -/

theorem newTypeSymbol_eq {name : Ident} {ty : SymbolId → Ty} {kind : TypeId → SymbolKind} :
    newTypeSymbol name ty kind = change fun s =>
      let interned := s.tables.types.intern (ty s.tables.symbols.size)
      let entry : Symbol :=
        { name := name.name, span := name.span, kind := kind Builtin.void.typeId, scope := s.scopes.cursor }
      let symbols := (s.tables.symbols.add entry).2
      (s.tables.symbols.size,
        { s with
          tables := ⟨interned.2, symbols.modifyKind s.tables.symbols.size fun _ => kind interned.1⟩ }) := by
  funext c s
  have hadded (entry : Symbol) :
      (s.tables.symbols.add entry).2.get? s.tables.symbols.size = some entry := by
    simp [SymbolTable.add, SymbolTable.get?, SymbolTable.size]
  simp only [newTypeSymbol, bind, Check.bind, cursor, newSymbol, intern, modifyKind, modifyAt, symbol,
    tables, change, SymbolTable.add] at hadded ⊢
  rw [hadded]
  rfl

theorem plain_newTypeSymbol {name : Ident} {ty : SymbolId → Ty} {kind : TypeId → SymbolKind} :
    Plain (newTypeSymbol name ty kind) :=
  newTypeSymbol_eq ▸ plain_change (fun _ _ => rfl) fun _ => rfl

/-- A new type that is no alias. -/
theorem ordinary_newTypeSymbol {name : Ident} {ty : SymbolId → Ty} {kind : TypeId → SymbolKind}
    (hkind : ∀ type info, kind type ≠ .aliasType info) :
    Ordinary ensure (newTypeSymbol name ty kind) := by
  rw [newTypeSymbol_eq]
  refine .change (fun _ _ => rfl) (fun _ => rfl) fun s => ?_
  refine (SymbolTable.sameAliases_add (hkind _)).trans (SymbolTable.sameAliases_modifyKind_of ?_ ?_)
  · exact fun info h => hkind _ info (by simpa [SymbolTable.kind?_add] using h)
  · exact fun _ info => hkind _ info

theorem ordinary_newMemberScope {kind : ScopeKind} : Ordinary ensure (newMemberScope kind) :=
  ordinary_enterScope.bind fun _ => ordinary_leaveScope.bind fun _ => ordinary_pure _

theorem ordinary_declareCases {owner : SymbolId} {scope : ScopeId} (cases : List EnumCase) :
    ∀ next, Ordinary ensure (declareCases owner scope next cases) := by
  induction cases with
  | nil => exact fun _ => ordinary_pure _
  | cons enumCase rest ih =>
      exact fun next => (ordinary_newSymbol (by simp)).bind fun _ =>
        ordinary_declareRow.withCursor.bind fun _ => ih _

theorem ordinary_bindDecl {node : Node} {name : Ident} {symbol : SymbolId} :
    Ordinary ensure (bindDecl node name symbol) := ordinary_fill.bind fun _ => ordinary_declareRow

/-- Declaring anything but an alias is ordinary. -/
theorem ordinary_declareType (decl : Decl)
    (halias : ∀ node name target strong, decl ≠ .aliasType node name target strong) :
    Ordinary ensure (declareType decl) := by
  cases decl with
  | func decl => exact ordinary_pure _
  | structType node name members =>
      exact ordinary_newMemberScope.bind fun _ => (ordinary_newTypeSymbol (by simp)).bind fun _ =>
        ordinary_setOwner.bind fun _ => ordinary_bindDecl
  | enumType node name cases =>
      exact ordinary_newMemberScope.bind fun _ => (ordinary_newTypeSymbol (by simp)).bind fun _ =>
        ordinary_setOwner.bind fun _ => (ordinary_declareCases _ _).bind fun _ =>
          ordinary_bindDecl
  | aliasType node name target strong => exact absurd rfl (halias node name target strong)
  | global node binding => exact ordinary_pure _
  | hostType node name size align fields =>
      exact (ordinary_newTypeSymbol (by simp)).bind fun _ => ordinary_bindDecl

theorem plain_declareType (decl : Decl) : Plain (declareType decl) := by
  by_cases halias : ∃ node name target strong, decl = .aliasType node name target strong
  · obtain ⟨node, name, target, strong, rfl⟩ := halias
    exact plain_newTypeSymbol.bind fun _ => ordinary_bindDecl.plain plain_ensureAlias
  · exact (ordinary_declareType decl fun node name target strong heq =>
      halias ⟨node, name, target, strong, heq⟩).plain plain_ensureAlias

theorem ordinary_declSymbol {node : Node} : Ordinary ensureAlias (declSymbol node) :=
  Ordinary.reading (fun _ _ => rfl) fun _ => ordinary_require

theorem ordinary_memberScope {owner : SymbolId} : Ordinary ensureAlias (memberScope owner) := by
  refine ordinary_kindOf.bind fun kind => ?_
  split
  · exact ordinary_pure _
  · exact ordinary_cursor

theorem ordinary_declareFields {owner : SymbolId} {scope : ScopeId} (members : List Member) :
    ∀ index, Ordinary ensureAlias (declareFields owner scope index members) := by
  induction members with
  | nil => exact fun _ => ordinary_pure _
  | cons member rest ih =>
      intro index
      cases member with
      | func decl => exact ih index
      | field field =>
          exact ordinary_lowerType.bind fun _ => (ordinary_newSymbol (by simp)).bind fun _ =>
            ordinary_declareRow.withCursor.bind fun _ => (ih _).bind fun _ => ordinary_pure _

theorem ordinary_lowerHostFields {owner : String} (fields : List HostField) :
    ∀ seen, Ordinary ensureAlias (lowerHostFields owner seen fields) := by
  induction fields with
  | nil => exact fun _ => ordinary_pure _
  | cons field rest ih =>
      intro seen
      have lower : Ordinary ensureAlias (do
          let type ← lowerType field.type
          let rest ← lowerHostFields owner (field.name.name :: seen) rest
          return (⟨field.name.name, type, field.offset⟩ :: rest : List HostSlot)) :=
        ordinary_lowerType.bind fun _ => (ih _).bind fun _ => ordinary_pure _
      exact .ite ((ordinary_raise (by simp)).bind fun _ => lower) lower

theorem ordinary_completeType (decl : Decl) : Ordinary ensureAlias (completeType decl) := by
  cases decl with
  | func decl => exact ordinary_pure _
  | structType node name members =>
      exact ordinary_declSymbol.bind fun _ => ordinary_memberScope.bind fun _ =>
        (ordinary_declareFields _ _).bind fun _ =>
          ordinary_modifyAt fun _ => SymbolTable.sameAliases_modifyKind fun kind _ => by
            cases kind <;> simp
  | enumType node name cases => exact ordinary_pure _
  | aliasType node name target strong =>
      exact ordinary_declSymbol.bind fun _ => .ensure _
  | global node binding => exact ordinary_pure _
  | hostType node name size align fields =>
      exact ordinary_declSymbol.bind fun _ => (ordinary_lowerHostFields _ _).bind fun _ =>
        ordinary_modifyAt fun _ => SymbolTable.sameAliases_modifyKind fun kind _ => by
          cases kind <;> simp

theorem ordinary_declareImports {importer : String} {scope : ScopeId} (names : List Ident) :
    ∀ seen, Ordinary ensure (declareImports importer scope seen names) := by
  induction names with
  | nil => exact fun _ => ordinary_pure _
  | cons name rest ih =>
      refine fun seen => Ordinary.reading (fun _ _ => rfl) fun s => ?_
      split
      · exact ordinary_raise (by simp)
      · exact .ite (ih _) (ordinary_declareRow.withCursor.bind fun _ => ih _)

theorem ordinary_declareModule {m : Module} : Ordinary ensure (declareModule m) := by
  have make : Ordinary ensure (do
      let name := m.name
      let scope ← withCursor ScopeGraph.root (enterScope .namespaceScope none)
      let symbol ← newSymbol name.name name.span (.moduleSpace scope) ScopeGraph.root
      setOwner scope symbol
      let imports ← declareImports name.name scope [] m.imports
      update fun s => { s with modules := s.modules ++ [⟨name.name, symbol, scope, imports⟩] }
      return scope) :=
    ordinary_enterScope.withCursor.bind fun _ => (ordinary_newSymbol (by simp)).bind fun _ =>
      ordinary_setOwner.bind fun _ => (ordinary_declareImports _ _).bind fun _ =>
        .bind (ordinary_still (fun _ _ => rfl) (fun _ => rfl) fun _ => rfl) fun _ => ordinary_pure _
  exact Ordinary.reading (fun _ _ => rfl) fun _ =>
    .ite ((ordinary_raise (by simp)).bind fun _ => make) make

theorem ordinary_declareMethods {owner : SymbolId} {scope : ScopeId} (members : List Member) :
    Ordinary ensureAlias (declareMethods owner scope members) := by
  induction members with
  | nil => exact ordinary_pure _
  | cons member rest ih =>
      cases member with
      | field field => exact ih
      | func decl =>
          exact ordinary_declareFunc.withCursor.bind fun _ => ih.bind fun _ => ordinary_pure _

theorem ordinary_declareFuncs (decls : List Decl) : Ordinary ensureAlias (declareFuncs decls) := by
  induction decls with
  | nil => exact ordinary_pure _
  | cons decl rest ih =>
      have others (funcs : List SymbolId) : Ordinary ensureAlias (do
          let rest ← declareFuncs rest
          return funcs ++ rest) := ih.bind fun _ => ordinary_pure _
      unfold declareFuncs
      split
      · exact ordinary_declareFunc.bind fun _ => (ordinary_pure _).bind others
      · exact ordinary_declSymbol.bind fun _ => ordinary_memberScope.bind fun _ =>
          (ordinary_declareMethods _).bind others
      · exact (ordinary_pure _).bind others

theorem ordinary_checkGlobal {bound : Nat} (decl : Decl) : Ordinary ensureAlias (checkGlobal bound decl) := by
  unfold checkGlobal
  split
  · exact ordinary_checkBinding (ordinary_checkBody bound) _ _
  · exact ordinary_pure _

theorem ordinary_markExternal {first : SymbolId} : Ordinary ensureAlias (markExternal first) := by
  have mark (ids : List SymbolId) (t : SymbolTable) : t.SameAliases (ids.foldl
      (fun t id => t.modify id fun symbol => { symbol with external := true }) t) := by
    induction ids generalizing t with
    | nil => exact .refl t
    | cons id rest ih =>
        refine (SymbolTable.alike_modify t id (fun _ => ?_) fun _ => ?_).sameAliases.trans (ih _) <;> rfl
  exact ordinary_modifySymbols fun t => mark _ t

theorem plain_checkModule {bound : Nat} {external : Bool} (m : Module) :
    Plain (checkModule bound external m) := by
  have decls : Plain (checkDecls bound m.decls) :=
    (Plain.forM plain_declareType _).bind fun _ => Ordinary.plain (.bind (.forM ordinary_completeType _)
      fun _ => (ordinary_declareFuncs _).bind fun _ => (Ordinary.forM ordinary_checkGlobal _).bind fun _ =>
        .forM (ordinary_checkBody bound) _) plain_ensureAlias
  exact Plain.bind (ordinary_tables.plain plain_ensureAlias) fun _ =>
    Plain.bind (ordinary_declareModule.plain plain_ensureAlias) fun _ => Plain.bind decls.withCursor fun _ =>
      Ordinary.plain (.ite ordinary_markExternal (ordinary_pure _)) plain_ensureAlias

/-! ## The end of an analysis -/

/-- The warnings about the symbols that no one used. -/
def unusedWarnings (s : CheckState) : List Diagnostic :=
  s.tables.symbols.entries.toList.filterMap Symbol.unusedWarning?

theorem warnUnused_eq {c : Settings} {s : CheckState} :
    warnUnused c s = warn Settings.warnUnused (unusedWarnings s) c s := by
  simp only [warnUnused, warn, bind, Check.bind, settings]
  split <;> rfl

theorem isWarning_of_mem_unusedWarnings {s : CheckState} {d : Diagnostic} (hd : d ∈ unusedWarnings s) :
    d.isWarning = true := by
  obtain ⟨entry, -, hentry⟩ := List.mem_filterMap.mp hd
  unfold Symbol.unusedWarning? at hentry
  split at hentry
  · cases hentry
  · obtain ⟨noun, -, rfl⟩ := Option.map_eq_some_iff.mp hentry
    rfl

theorem indifferent_warnUnused : Indifferent warnUnused := by
  intro m c s
  rw [warnUnused_eq, warnUnused_eq]
  exact indifferent_warn (fun m c => m.settings_warnUnused c)
    (fun _ => isWarning_of_mem_unusedWarnings) m c s

end Stela.Check
