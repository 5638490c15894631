import Stela.Check.Module
import Stela.Proofs.Check.Scoping

/-!
# Quiet steps

The rules for single expressions and statements, the lowering of written types
and the declaration of names move no cursor for good and touch no capture.
-/

namespace Stela

namespace Check

open CheckState

variable {α : Type} {settings : Settings} {s s' : CheckState}

/-! ## Names -/

theorem quiet_warnShadow {name : Ident} {symbol hidden : SymbolId} :
    Quiet (warnShadow name symbol hidden) := by
  refine quiet_symbol.bind fun old => quiet_kindOf.bind fun kind => quiet_settings.bind fun c => ?_
  split
  · exact quiet_pure _
  · exact quiet_report

theorem quiet_clash {name : Ident} {existing : SymbolId} : Quiet (clash name existing : Check α) := by
  refine quiet_cursor.bind fun _ => quiet_scopeAt.bind fun scope => quiet_symbol.bind fun entry => ?_
  dsimp only
  split
  · split
    · exact quiet_nameOf.bind fun _ => (quiet_pure _).bind fun _ => quiet_raise
    · exact (quiet_pure _).bind fun _ => (quiet_pure _).bind fun _ => quiet_raise
  · split
    · exact quiet_nameOf.bind fun _ => (quiet_pure _).bind fun _ => quiet_raise
    · exact (quiet_pure _).bind fun _ => (quiet_pure _).bind fun _ => quiet_raise
  · exact (quiet_pure _).bind fun _ => quiet_raise

/-- A symbol is bound at the cursor. -/
theorem still_declareRow (hs : s.Scoped) {span : Span} {row : Row}
    (hrow : s.RowFits s.scopes.cursor row.symbol)
    (h : (declareRow span row).Gives settings s () s') : s.Still s' := by
  simp only [declareRow, gives_bind, gives_requireComparable, gives_state] at h
  obtain ⟨_, _, ⟨-, rfl⟩, _, _, ⟨rfl, rfl⟩, h⟩ := h
  split at h
  · next hidden g hinsert =>
    simp only [gives_bind, gives_update] at h
    obtain ⟨_, s₁, rfl, h⟩ := h
    have hbound := hs.insert hinsert hrow
    split at h
    · exact hbound.trans (quiet_warnShadow.still h hbound.fits)
    · exact (gives_pure.mp h).2 ▸ hbound
  · exact quiet_clash.still h hs

theorem keeping_declareRow {source : SourceDecl → Prop} {span : Span} {row : Row} :
    Keeping source (declareRow span row) := by
  refine quiet_requireComparable.keeping.bind fun _ => quiet_state.keeping.bind fun s => ?_
  split
  · next hidden g hinsert =>
    refine (keeping_modifyScopes (f := fun _ => g)).bind fun _ => ?_
    split
    · exact quiet_warnShadow.keeping
    · exact (quiet_pure _).keeping
  · exact quiet_clash.keeping

theorem restoring_declareRow {span : Span} {row : Row} : Restoring (declareRow span row) := by
  intro settings s u s' h
  simp only [declareRow, gives_bind, gives_requireComparable, gives_state] at h
  obtain ⟨_, _, ⟨-, rfl⟩, _, _, ⟨rfl, rfl⟩, h⟩ := h
  split at h
  · next hidden g hinsert =>
    simp only [gives_bind, gives_update] at h
    obtain ⟨_, s₁, rfl, h⟩ := h
    have hbound := restores_insert hinsert
    split at h
    · exact hbound.trans (quiet_warnShadow.restores h)
    · exact (gives_pure.mp h).2 ▸ hbound
  · exact quiet_clash.restores h

/-- A symbol without a body is added in a scope that exists. -/
theorem still_newSymbol (hs : s.Scoped) {name : String} {span : Span} {kind : SymbolKind}
    {scope : ScopeId} {id : SymbolId} (h : (newSymbol name span kind scope).Gives settings s id s')
    (hscope : scope < s.scopes.size)
    (hinner : ∀ inner, kind.outline.scope? = some inner → inner < s.scopes.size)
    (hplain : kind.outline.Plain) :
    s.Still s' ∧ s'.tables.symbols.outline? id = some (scope, kind.outline) := by
  obtain ⟨rfl, rfl⟩ := gives_newSymbol.mp h
  exact ⟨hs.add _ hscope hinner hplain, SymbolTable.sets_add.self⟩

/-- An object is declared in a scope that is no namespace, or is a global. -/
theorem still_declareObject (hs : s.Scoped) {name : Ident} {type : ExprType} {origin : Origin}
    {symbol : SymbolId} (horigin : origin = .global ∨
      s.scopes.kind? s.scopes.cursor ≠ some .namespaceScope)
    (h : (declareObject name type origin).Gives settings s symbol s') : s.Still s' := by
  simp only [declareObject, gives_bind, gives_cursor, gives_pure] at h
  obtain ⟨_, _, ⟨rfl, rfl⟩, _, s₁, hnew, _, _, hdeclare, rfl, rfl⟩ := h
  obtain ⟨hnew, ho⟩ := still_newSymbol hs hnew hs.graph.cursor
    (by simp [SymbolKind.outline, Outline.scope?]) trivial
  refine hnew.trans (still_declareRow hnew.fits ⟨_, _, ho, fun info hinfo => ?_⟩ hdeclare)
  obtain rfl := Outline.object.inj hinfo
  rw [hnew.cursor, hnew.grows.kinds _ hs.graph.cursor]
  exact horigin.imp_right fun hkind => ⟨rfl, hkind⟩

theorem keeping_declareObject {source : SourceDecl → Prop} {name : Ident} {type : ExprType}
    {origin : Origin} (h : source (.object name.name name.span ⟨type, origin⟩)) :
    Keeping source (declareObject name type origin) :=
  quiet_cursor.keeping.bind fun _ =>
    (keeping_newSymbol fun _ hd => Option.some.inj hd ▸ h).bind fun _ =>
      keeping_declareRow.bind fun _ => (quiet_pure _).keeping

theorem restoring_declareObject {name : Ident} {type : ExprType} {origin : Origin} :
    Restoring (declareObject name type origin) :=
  quiet_cursor.restoring.bind fun _ => (restoring_newSymbol (by nofun)).bind fun _ =>
    restoring_declareRow.bind fun _ => (quiet_pure _).restoring

theorem quiet_lookup {name : Ident} : Quiet (lookup name) := by
  refine quiet_searching.bind fun s => ?_
  split
  · exact quiet_pure _
  · exact quiet_pure _
  · exact quiet_raise

/-! ## Written types -/

theorem quiet_resolveTypeName {node : Node} {qualifier : Option Ident} {name : Ident} :
    Quiet (resolveTypeName node qualifier name) := by
  have finish (symbol : SymbolId) : Quiet (do
      if !(← kindOf symbol).isType then raise (.notAType name.name) name.span
      markUsed symbol
      setTypeName node.id symbol
      return symbol) := by
    have note : Quiet (do
        markUsed symbol
        setTypeName node.id symbol
        return symbol) :=
      quiet_markUsed.bind fun _ => quiet_setTypeName.bind fun _ => quiet_pure _
    exact quiet_kindOf.bind fun _ => .ite (quiet_raise.bind fun _ => note) note
  refine quiet_state.bind fun s => ?_
  split
  · exact quiet_pure _
  · dsimp only
    split
    · refine quiet_lookup.bind fun entries => ?_
      split
      · exact quiet_raise
      · exact finish _
    · refine quiet_lookup.bind fun found => ?_
      split
      · refine quiet_raise.bind fun entries => ?_
        split
        · exact quiet_raise
        · exact finish _
      · refine quiet_kindOf.bind fun kind => ?_
        split
        · refine quiet_markUsed.bind fun _ => quiet_entriesOf.bind fun entries => ?_
          split
          · exact quiet_raise
          · exact finish _
        · refine quiet_raise.bind fun entries => ?_
          split
          · exact quiet_raise
          · exact finish _

section

variable {ensure : SymbolId → Check Unit} (hensure : ∀ id, Quiet (ensure id))

include hensure

theorem quiet_typeOfSymbolWith {symbol : SymbolId} : Quiet (typeOfSymbolWith ensure symbol) := by
  refine quiet_kindOf.bind fun kind => ?_
  split
  · exact quiet_pure _
  · exact quiet_pure _
  · exact quiet_pure _
  · exact quiet_pure _
  · exact (hensure symbol).bind fun _ => quiet_pure _
  · exact quiet_fault _

omit hensure in
theorem Quiet.rememberType {node : Node} {p : Check TypeId} (h : Quiet p) :
    Quiet (rememberType node p) := by
  refine quiet_state.bind fun s => ?_
  split
  · exact quiet_pure _
  · exact h.bind fun _ => quiet_setType.bind fun _ => quiet_pure _

set_option linter.unusedSectionVars false in
mutual

theorem quiet_lowerWith : ∀ type, Quiet (lowerWith ensure type)
  | .named .. => (quiet_resolveTypeName.bind fun _ => quiet_typeOfSymbolWith hensure).rememberType
  | .array _ element => ((quiet_lowerWith element).bind fun _ => quiet_intern).rememberType
  | .func _ params (some ret) => ((quiet_lowerParams params).bind fun _ =>
      (quiet_lowerWith ret).bind fun _ => quiet_intern).rememberType
  | .func _ params none => ((quiet_lowerParams params).bind fun _ =>
      (quiet_pure _).bind fun _ => quiet_intern).rememberType

theorem quiet_lowerParams : ∀ params, Quiet (lowerParams ensure params)
  | [] => quiet_pure _
  | ⟨_, type⟩ :: rest =>
    (quiet_lowerWith type).bind fun _ => (quiet_lowerParams rest).bind fun _ => quiet_pure _

end

end

theorem quiet_setAliasTarget {symbol : SymbolId} {target : AliasTarget} :
    Quiet (setAliasTarget symbol target) := by
  refine quiet_modifyAt fun _ => rests_retouch
    (fun _ => SymbolTable.outline?_modifyKind_eq fun kind _ => ?_)
    (fun _ => SymbolTable.declared?_modifyKind fun kind _ _ => ?_)
    fun _ => SymbolTable.identity?_modifyKind fun kind _ => ?_
  all_goals cases kind <;> rfl

/-- The target of an alias is resolved where the alias was declared. -/
theorem quiet_ensureAliasWithin (bound : Nat) : ∀ id, Quiet (ensureAliasWithin bound id) := by
  induction bound with
  | zero => exact fun _ => quiet_fault _
  | succ bound ih =>
      intro id
      refine quiet_of_keeping (fun source => ?_) ?_ fun settings s u s' h hs => ?_
      · refine quiet_symbol.keeping.bind fun entry => ?_
        split
        · split
          · exact (quiet_pure _).keeping
          · exact quiet_raise.keeping
          · exact quiet_setAliasTarget.keeping.bind fun _ =>
              (quiet_lowerWith ih _).keeping.withCursor.bind fun _ => quiet_setAliasTarget.keeping
        · exact (quiet_pure _).keeping
      · refine quiet_symbol.restoring.bind fun entry => ?_
        split
        · split
          · exact (quiet_pure _).restoring
          · exact quiet_raise.restoring
          · exact quiet_setAliasTarget.restoring.bind fun _ =>
              (quiet_lowerWith ih _).restoring.withCursor.bind fun _ => quiet_setAliasTarget.restoring
        · exact (quiet_pure _).restoring
      · rw [ensureAliasWithin, gives_bind] at h
        obtain ⟨entry, _, hread, h⟩ := h
        obtain ⟨hentry, rfl⟩ := gives_symbol.mp hread
        split at h
        · split at h
          · exact (gives_pure.mp h).2 ▸ .refl hs
          · simp at h
          · simp only [gives_bind] at h
            obtain ⟨_, s₁, hset, target, s₂, hlower, htarget⟩ := h
            have hset := quiet_setAliasTarget.still hset hs
            obtain ⟨-, s₃, hrun, rfl⟩ := gives_withCursor.mp hlower
            have hscope := Nat.lt_of_lt_of_le (hs.lt_size_of_get? hentry) hset.grows.size
            have hlower := Still.elsewhere hset.fits
              ((quiet_lowerWith ih _).still hrun (hset.fits.moveCursor hscope))
            exact (hset.trans hlower).trans (quiet_setAliasTarget.still htarget hlower.fits)
        · exact (gives_pure.mp h).2 ▸ .refl hs

theorem quiet_ensureAlias (id : SymbolId) : Quiet (ensureAlias id) :=
  quiet_tables.bind fun _ => quiet_ensureAliasWithin _ id

theorem quiet_typeOfSymbol {id : SymbolId} : Quiet (typeOfSymbol id) :=
  quiet_typeOfSymbolWith quiet_ensureAlias

theorem quiet_lowerType {type : TypeExpr} : Quiet (lowerType type) :=
  quiet_lowerWith quiet_ensureAlias type

theorem quiet_lowerOptional {type : Option TypeExpr} : Quiet (lowerOptional type) := by
  cases type with
  | none => exact quiet_pure _
  | some type => exact quiet_lowerType.bind fun _ => quiet_pure _

theorem quiet_lowerSignature (params : List Param) : Quiet (lowerSignature params) := by
  induction params with
  | nil => exact quiet_pure _
  | cons param rest ih => exact quiet_lowerType.bind fun _ => ih.bind fun _ => quiet_pure _

theorem quiet_declaredResult {decl : FuncDecl} : Quiet (declaredResult decl) := by
  unfold declaredResult
  split
  · exact quiet_lowerType.bind fun _ => quiet_pure _
  · exact quiet_pure _
  · exact quiet_pure _

/-! ## Calls and overloads -/

theorem quiet_requireKnown {type : ExprType} {span : Span} : Quiet (requireKnown type span) := by
  refine quiet_pendingOf.bind fun func => ?_
  split
  · exact quiet_nameOf.bind fun _ => quiet_raise
  · exact quiet_pure _

theorem quiet_isPrintable {type : TypeId} : Quiet (isPrintable type) := by
  refine quiet_concreteTy.bind fun ty => ?_
  split
  · exact quiet_pure _
  · exact quiet_builtinOf.bind fun _ => quiet_pure _
  · exact quiet_pure _

theorem quiet_signature {kind : BuiltinFunc} {args : List ExprType} : Quiet (signature kind args) := by
  unfold signature
  split
  · exact quiet_elementOf.bind fun _ => quiet_pure _
  · exact quiet_elementOf.bind fun _ => quiet_pure _
  · exact quiet_elementOf.bind fun _ => quiet_pure _
  · exact quiet_isPrintable.bind fun _ => .ite (quiet_pure _) (quiet_pure _)
  · exact quiet_pure _

theorem quiet_instantiate {kind : BuiltinFunc} {args : List ExprType} :
    Quiet (instantiate kind args) := by
  refine quiet_signature.bind fun found => ?_
  split
  · exact quiet_intern.bind fun _ => quiet_pure _
  · exact quiet_pure _

theorem quiet_candidateParams {candidate : SymbolId} {args : List ExprType} :
    Quiet (candidateParams candidate args) := by
  refine quiet_kindOf.bind fun kind => ?_
  split
  · exact quiet_pure _
  · refine quiet_instantiate.bind fun type => ?_
    split
    · refine quiet_tyOf.bind fun ty => ?_
      split
      · exact quiet_pure _
      · exact quiet_pure _
    · exact quiet_pure _
  · refine quiet_concreteTy.bind fun ty => ?_
    split
    · exact quiet_pure _
    · exact quiet_pure _
  · exact quiet_pure _

theorem quiet_accepts {params : List (RefKind × TypeId)} {args : List ExprType} :
    Quiet (accepts params args) := quiet_of_eq fun _ _ _ _ h => (gives_accepts.mp h).2

theorem quiet_survivors {args : List ExprType} (candidates : List SymbolId) :
    Quiet (survivors args candidates) := by
  induction candidates with
  | nil => exact quiet_pure _
  | cons candidate rest ih =>
      refine quiet_candidateParams.bind fun params => ?_
      split
      · exact quiet_accepts.bind fun _ => ih.bind fun _ => quiet_pure _
      · exact quiet_kindOf.bind fun kind => ih.bind fun _ => quiet_pure _

/-! ## Rules for expressions -/

theorem quiet_literalType {value : Literal} : Quiet (literalType value) := by
  unfold literalType
  split <;> first | exact quiet_pure _ | exact quiet_intern

theorem quiet_checkCondition {type : ExprType} {span : Span} : Quiet (checkCondition type span) := by
  refine quiet_requireKnown.bind fun type => quiet_concreteTy.bind fun ty => ?_
  split
  · exact quiet_pure _
  · exact quiet_pure _
  · exact quiet_mismatch

theorem quiet_noteAssumption {func : SymbolId} {type : TypeId} {span : Span} :
    Quiet (noteAssumption func type span) :=
  quiet_update fun _ => rests_aside rfl rfl rfl rfl rfl rfl (.refl _)

theorem quiet_settlePending {a b : ExprType} {span : Span} : Quiet (settlePending a b span) := by
  refine quiet_pendingOf.bind fun _ => quiet_pendingOf.bind fun _ => ?_
  split
  · exact quiet_noteAssumption.bind fun _ => quiet_pure _
  · exact quiet_noteAssumption.bind fun _ => quiet_pure _
  · exact quiet_pure _

theorem quiet_operandFits {op : BinOp} {type : TypeId} : Quiet (operandFits op type) :=
  quiet_of_eq fun _ _ _ _ h => (operandFits_gives h).2

theorem quiet_checkBinary {op : BinOp} {lhs rhs : TypeId} {span : Span} :
    Quiet (checkBinary op lhs rhs span) := by
  have finish (valid : Bool) : Quiet (do
      if valid then return op.resultType lhs
      else raise (.invalidOperand op.spelling [← typeText lhs, ← typeText rhs]) span) :=
    .ite (quiet_pure _) (quiet_typeText.bind fun _ => quiet_typeText.bind fun _ => quiet_raise)
  exact quiet_operandFits.bind fun _ => .ite (quiet_same.bind finish) ((quiet_pure _).bind finish)

theorem quiet_record {node : Node} {context : ExprContext} {type : ExprType} :
    Quiet (record node context type) := by
  have finish : Quiet (do
      update fun s => { s with exprTypes := s.exprTypes.insert node.id ⟨node.span, type⟩ }
      return type) :=
    (quiet_update (f := fun s => { s with
      exprTypes := s.exprTypes.insert node.id ⟨node.span, type⟩ }) fun _ =>
        rests_aside rfl rfl rfl rfl rfl rfl (.refl _)).bind fun _ => quiet_pure _
  cases context with
  | condition => exact quiet_checkCondition.bind fun _ => finish
  | value => exact (quiet_pure ()).bind fun _ => finish
  | callee args => exact (quiet_pure ()).bind fun _ => finish

theorem quiet_staticPath_finish {node : Nat} {symbol : SymbolId} : Quiet (staticPath.finish node symbol) :=
  quiet_kindOf.bind fun _ => .ite (quiet_useSymbol.bind fun _ => quiet_pure _) (quiet_pure _)

theorem quiet_staticPath (e : Expr) : Quiet (staticPath e) := by
  induction e using staticPath.induct with
  | case1 node name =>
      rw [staticPath]
      refine quiet_lookup.bind fun found => ?_
      split
      · exact quiet_pure _
      · exact quiet_staticPath_finish
  | case2 node object member ih =>
      rw [staticPath]
      refine ih.bind fun parent => ?_
      split
      · exact quiet_pure _
      · refine quiet_kindOf.bind fun kind => ?_
        split
        · refine quiet_entriesOf.bind fun entries => ?_
          split
          · exact quiet_pure _
          · exact quiet_staticPath_finish
        · exact quiet_pure _
  | case3 e hident hmember =>
      rw [staticPath.eq_3 _ hident hmember]
      exact quiet_pure _

theorem quiet_recordTransfer {type : TypeId} {site : TransferSite} (e : Expr) (source : ExprType) :
    Quiet (recordTransfer type site e source) := by
  induction e, source using recordTransfer.induct with
  | case1 node cond onTrue onFalse source ihTrue ihFalse =>
      rw [recordTransfer]
      exact (quiet_state.bind fun _ => quiet_pure _).bind fun _ => (ihTrue _).bind fun _ =>
        (quiet_state.bind fun _ => quiet_pure _).bind fun _ => ihFalse _
  | case2 source e hternary =>
      rw [recordTransfer.eq_2 _ _ _ _ hternary]
      exact quiet_categoryOf.bind fun _ => quiet_settings.bind fun _ =>
        quiet_update fun _ => rests_aside rfl rfl rfl rfl rfl rfl (.refl _)

theorem quiet_transferArgs (params : List (RefKind × TypeId)) :
    ∀ args, Quiet (transferArgs params args) := by
  induction params with
  | nil => exact fun _ => quiet_pure _
  | cons param rest ih =>
      obtain ⟨kind, type⟩ := param
      intro args
      cases args with
      | nil => cases kind <;> exact quiet_pure _
      | cons arg args =>
          cases kind with
          | value => exact (quiet_recordTransfer _ _).bind fun _ => ih args
          | reference => exact ih args

theorem quiet_typeTexts (types : List ExprType) : Quiet (typeTexts types) := by
  induction types with
  | nil => exact quiet_pure _
  | cons e rest ih => exact quiet_typeText.bind fun _ => ih.bind fun _ => quiet_pure _

theorem quiet_finishCall {node : Node} {callee : Expr} {calleeType : ExprType}
    {args : List (Expr × ExprType)} : Quiet (finishCall node callee calleeType args) := by
  refine quiet_requireKnown.bind fun type => quiet_concreteTy.bind fun ty => ?_
  split
  · next params ret =>
    have finish : Quiet (do
        transferArgs params args
        return ExprType.value ret) := (quiet_transferArgs _ _).bind fun _ => quiet_pure _
    exact quiet_accepts.bind fun _ => .ite (quiet_typeText.bind fun _ =>
      (quiet_typeTexts _).bind fun _ => quiet_raise.bind fun _ => finish) finish
  · exact quiet_typeText.bind fun _ => quiet_raise

theorem quiet_finishBinary {op : BinOp} {left right : ExprType} {span : Span} :
    Quiet (finishBinary op left right span) := by
  refine quiet_settlePending.bind fun (left, right) => quiet_pendingOf.bind fun func => ?_
  split
  · split
    · exact quiet_pure _
    · exact quiet_pure _
    · exact quiet_pure _
  · exact quiet_checkBinary.bind fun _ => quiet_pure _

theorem quiet_finishAssign {op : Option BinOp} {place : ExprType} {value : Expr}
    {assigned : ExprType} {span : Span} : Quiet (finishAssign op place value assigned span) := by
  unfold finishAssign
  split
  · refine quiet_checkBinary.bind fun result => quiet_same.bind fun same => ?_
    split
    · exact quiet_typeText.bind fun _ => quiet_typeText.bind fun _ => quiet_raise
    · exact quiet_pure _
  · refine quiet_same.bind fun same => ?_
    dsimp only
    split
    · exact quiet_mismatch.bind fun _ => quiet_recordTransfer _ _
    · exact quiet_recordTransfer _ _

/-! ## Bodies -/

/-- The innermost body may change in what does not tell where it stands. -/
theorem quiet_modifyFrame {f : Frame → Frame}
    (hbody : ∀ frame, (f frame).place = frame.place ∧ (f frame).loopDepth = frame.loopDepth) :
    Quiet (modifyFrame f) := by
  refine quiet_update fun s => ?_
  split
  · next frame rest hframes =>
    obtain ⟨hplace, hdepth⟩ := hbody frame
    refine rests_aside rfl rfl rfl ?_ rfl rfl (.refl _)
    rw [bodies, bodies, hframes, List.map_cons, List.map_cons, hplace, hdepth]
  · exact .refl s

theorem quiet_modifyResult {func : SymbolId} {f : FuncInfo → FuncInfo}
    (hdecl : ∀ info, (f info).decl = info.decl)
    (hbody : ∀ info, (f info).bodyScope = info.bodyScope)
    (hstate : ∀ info, (f info).state = info.state) :
    Quiet (modifyFunc func f) :=
  quiet_modifyAt fun _ => rests_retouch
    (fun _ => SymbolTable.outline?_modifyFunc_eq hdecl hbody hstate)
    (fun _ => SymbolTable.declared?_modifyFunc hdecl) fun _ => SymbolTable.identity?_modifyFunc

theorem quiet_modifyClosure {closure : SymbolId} {f : ClosureInfo → ClosureInfo}
    (hlinks : ∀ info, (f info).links = info.links) :
    Quiet (modifyClosure closure f) :=
  quiet_modifyAt fun _ => rests_retouch (fun _ => SymbolTable.outline?_modifyClosure_eq hlinks)
    (fun _ => SymbolTable.declared?_modifyClosure) fun _ => SymbolTable.identity?_modifyClosure

theorem quiet_deduceReturn {type : TypeId} : Quiet (deduceReturn type) := by
  refine quiet_frame?.bind fun frame => ?_
  split
  · exact quiet_pure _
  · refine (quiet_modifyFrame (f := fun frame => { frame with ret := .deduced (some type) })
      fun _ => ⟨rfl, rfl⟩).bind fun _ => ?_
    split
    · exact quiet_modifyResult (fun _ => rfl) (fun _ => rfl) fun _ => rfl
    · exact quiet_modifyClosure fun _ => rfl

theorem quiet_checkLoopControl {keyword : String} {span : Span} :
    Quiet (checkLoopControl keyword span) := by
  refine quiet_frame?.bind fun frame => ?_
  split
  · exact .ite quiet_raise (quiet_pure _)
  · exact quiet_raise

/-- The innermost body is as it was, but for the number of loops that were entered in it. -/
inductive Relooped (f : Nat → Nat) (s : CheckState) : CheckState → Prop
  | none (hframes : s.frames = []) : Relooped f s s
  | some {frame rest} (hframes : s.frames = frame :: rest) :
    Relooped f s { s with frames := { frame with loopDepth := f frame.loopDepth } :: rest }

theorem relooped_enterLoop (h : enterLoop.Gives settings s () s') : Relooped (· + 1) s s' := by
  simp only [enterLoop, modifyFrame, gives_update] at h
  split at h
  · next frame rest hframes => exact h ▸ .some hframes
  · next hframes => exact h ▸ .none hframes

theorem relooped_leaveLoop (h : leaveLoop.Gives settings s () s') : Relooped (· - 1) s s' := by
  simp only [leaveLoop, gives_bind, gives_frame?] at h
  obtain ⟨_, _, ⟨rfl, rfl⟩, h⟩ := h
  split at h
  · next frame hframe =>
    obtain ⟨rest, hrest⟩ := List.head?_eq_some_iff.mp hframe
    rw [gives_ite] at h
    split at h
    · simp at h
    · simp only [modifyFrame, gives_update, hrest] at h
      exact h ▸ .some hrest
  · next hframe =>
    exact (gives_pure.mp h).2 ▸ .none (List.head?_eq_none_iff.mp hframe)

namespace Relooped

variable {f : Nat → Nat} (h : Relooped f s s')

include h

theorem confines : s.Confines s' := by
  cases h with
  | none => exact .refl s
  | some => exact confines_of_symbols rfl

theorem still (hs : s.Scoped) : s.Still s' := by
  cases h with
  | none => exact .refl hs
  | some hframes => exact hs.aside rfl rfl rfl (by simp [hframes, Frame.place]) rfl rfl

/-- Only the innermost body counts the loop. -/
theorem bodies : s'.bodies = s.bodies.modifyHead fun body => (body.1, f body.2) := by
  cases h with
  | none hframes => simp [CheckState.bodies, hframes]
  | some hframes => simp [CheckState.bodies, hframes, Frame.place]

theorem unchanged : s'.tables = s.tables ∧ s'.scopes = s.scopes ∧ s'.modules = s.modules := by
  cases h <;> exact ⟨rfl, rfl, rfl⟩

theorem enlarges : s.Enlarges s' := by
  obtain ⟨htables, hscopes, hmodules⟩ := h.unchanged
  exact ⟨htables ▸ .refl _, htables ▸ .refl _, hscopes ▸ .refl _, fun _ => hscopes ▸ List.prefix_refl _,
    fun hs => hs.aside hscopes hmodules⟩

omit h in
/-- A loop that is entered and left again. -/
theorem restores_around {s₁ s₂ : CheckState} (henter : Relooped (· + 1) s s₁) (h : s₁.Restores s₂)
    (hleave : Relooped (· - 1) s₂ s') : s.Restores s' := by
  obtain ⟨htables, hscopes, hmodules⟩ := henter.unchanged
  obtain ⟨htables', hscopes', hmodules'⟩ := hleave.unchanged
  obtain ⟨⟨htypes, hsymbols, hgrows, hrows, harises⟩, hcursor, hbodies, hprogress⟩ := h
  have hcounted : s'.bodies = s.bodies := by
    rw [hleave.bodies, hbodies, henter.bodies, List.modifyHead_modifyHead]
    exact congrFun List.modifyHead_id _
  rw [← htables', htables] at htypes hsymbols hprogress
  rw [← hscopes', hscopes] at hgrows hcursor hrows
  exact ⟨⟨htypes, hsymbols, hgrows, hrows,
    fun hs => (harises (hs.aside hscopes hmodules)).aside hscopes' hmodules'⟩, hcursor, hcounted, hprogress⟩

end Relooped

theorem quiet_checkReturned {frame : Frame} {value : Expr} {returned : ExprType} {span : Span} :
    Quiet (checkReturned frame value returned span) := by
  have transfer (type : TypeId) : Quiet (do
      if !(← isVoid type) then recordTransfer type .ret value returned) :=
    quiet_isVoid.bind fun _ => .ite (quiet_recordTransfer _ _) (quiet_pure _)
  refine quiet_pendingOf.bind fun func => ?_
  split
  · split
    · exact quiet_noteAssumption
    · exact quiet_modifyFrame fun _ => ⟨rfl, rfl⟩
  · split
    · next type _ =>
      have compare : Quiet (do
          if !(← same type returned.type) then mismatch type returned.type value.span
          if !(← isVoid type) then recordTransfer type .ret value returned) :=
        quiet_same.bind fun _ => .ite (quiet_mismatch.bind fun _ => transfer type) (transfer type)
      exact quiet_isVoid.bind fun _ => quiet_isVoid.bind fun _ =>
        .ite (quiet_nameOf.bind fun _ => quiet_raise.bind fun _ => compare) compare
    · exact quiet_deduceReturn.bind fun _ => transfer _

theorem quiet_checkBareReturn {frame : Frame} {span : Span} : Quiet (checkBareReturn frame span) := by
  unfold checkBareReturn
  split
  · exact quiet_isVoid.bind fun _ => .ite (quiet_nameOf.bind fun _ => quiet_raise) (quiet_pure _)
  · exact quiet_deduceReturn

theorem within_settled (t : TypeTable) (pending ret : TypeId) (type : ExprType) :
    t.Within (settled t pending ret type).2 := by
  unfold settled
  split
  · exact .refl t
  · split
    · split
      · exact TypeTable.within_intern t _
      · exact .refl t
    · exact .refl t

theorem rests_settleExprs {pending ret : TypeId} (exprs : List Nat) (s : CheckState) :
    s.Rests (settleExprs pending ret s exprs) := by
  induction exprs generalizing s with
  | nil => exact .refl s
  | cons node rest ih =>
      have hfirst : s.Rests (settleExprs pending ret s [node]) := by
        simp only [settleExprs, List.foldl_cons, List.foldl_nil]
        split
        · exact .refl s
        · exact rests_aside rfl rfl rfl rfl rfl rfl (within_settled _ _ _ _)
      exact hfirst.trans (ih _)

theorem quiet_replacePending {func : SymbolId} {ret : TypeId} : Quiet (replacePending func ret) := by
  intro settings s u s' h
  obtain rfl := replacePending_gives h
  unfold resolvePending
  split
  · exact .refl s
  · exact rests_settleExprs _ s

theorem quiet_verifyAssumptions {func : SymbolId} {ret : TypeId} :
    Quiet (verifyAssumptions func ret) := by
  refine quiet_state.bind fun s => ?_
  refine (quiet_update (f := fun s' => { s' with
    assumptions := (s.assumptions.partition fun a => a.func == func).2 }) fun _ =>
      rests_aside rfl rfl rfl rfl rfl rfl (.refl _)).bind fun _ => .forM fun a _ => ?_
  exact quiet_same.bind fun _ => .ite quiet_mismatch (quiet_pure _)

theorem quiet_finishBody {frame : Frame} {body : List Stmt} {span : Span} :
    Quiet (finishBody frame body span) := by
  have finish (ret : TypeId) : Quiet (do
      verifyAssumptions frame.symbol ret
      replacePending frame.symbol ret
      return ret) :=
    quiet_verifyAssumptions.bind fun _ => quiet_replacePending.bind fun _ => quiet_pure _
  have settle (name : String) (ret : TypeId) : Quiet (do
      frame.pendingReturns.forM fun call => do
        if call.callee != frame.symbol then noteAssumption call.callee ret call.span
      if !(← isVoid ret) && !stmtsReturn body then
        raise (.badReturn (.notAllPathsReturn name)) span
      verifyAssumptions frame.symbol ret
      replacePending frame.symbol ret
      return ret) :=
    (Quiet.forM fun _ _ => .ite quiet_noteAssumption (quiet_pure _)).bind fun _ =>
      quiet_isVoid.bind fun _ => .ite (quiet_raise.bind fun _ => finish ret) (finish ret)
  refine quiet_nameOf.bind fun name => ?_
  dsimp only
  split
  · exact (quiet_pure _).bind fun ret => settle name ret
  · split
    · exact quiet_raise.bind fun ret => settle name ret
    · exact (quiet_pure _).bind fun ret => settle name ret

theorem quiet_bindingType {name : Ident} {declared : Option TypeId}
    {init : Option (Expr × ExprType)} : Quiet (bindingType name declared init) := by
  unfold bindingType
  split
  · exact quiet_same.bind fun _ => .ite (quiet_mismatch.bind fun _ => quiet_pure _) (quiet_pure _)
  · exact quiet_pure _
  · exact quiet_pure _
  · exact quiet_raise

/-- Only a global is declared in a namespace. -/
theorem still_declareVariable (hs : s.Scoped) {place : BindingPlace} {name : Ident} {type : ExprType}
    {symbol : SymbolId}
    (hplace : ∀ id, place = .stmt id → s.scopes.kind? s.scopes.cursor ≠ some .namespaceScope)
    (h : (declareVariable place name type).Gives settings s symbol s') : s.Still s' := by
  cases place with
  | stmt id =>
      simp only [declareVariable, gives_bind, gives_pure] at h
      obtain ⟨_, s₁, hobject, _, _, hset, -, rfl⟩ := h
      have hobject := still_declareObject hs (.inr (hplace id rfl)) hobject
      exact hobject.trans (quiet_setLocalSymbol.still hset hobject.fits)
  | decl id =>
      simp only [declareVariable, gives_bind, gives_pure] at h
      obtain ⟨_, s₁, hobject, _, _, hset, -, rfl⟩ := h
      have hobject := still_declareObject hs (.inl rfl) hobject
      exact hobject.trans (quiet_setDeclSymbol.still hset hobject.fits)

theorem still_finishBinding (hs : s.Scoped) {place : BindingPlace} {binding : Binding}
    {declared : Option TypeId} {init : Option (Expr × ExprType)}
    (hplace : ∀ id, place = .stmt id → s.scopes.kind? s.scopes.cursor ≠ some .namespaceScope)
    (h : (finishBinding place binding declared init).Gives settings s () s') : s.Still s' := by
  simp only [finishBinding, gives_bind, gives_isVoid] at h
  obtain ⟨type, s₁, htype, _, _, ⟨-, rfl⟩, h⟩ := h
  have htype := quiet_bindingType.still htype hs
  rw [gives_ite] at h
  split at h
  · simp at h
  · rw [gives_bind] at h
    obtain ⟨symbol, s₂, hdeclare, h⟩ := h
    have hdeclare := still_declareVariable htype.fits (fun id hid => by
      rw [htype.cursor, htype.grows.kinds _ hs.graph.cursor]
      exact hplace id hid) hdeclare
    have hdeclared := htype.trans hdeclare
    split at h
    · exact hdeclared.trans ((quiet_recordTransfer _ _).still h hdeclared.fits)
    · exact gives_update.mp h ▸ hdeclared.trans (hdeclared.fits.aside rfl rfl rfl rfl rfl rfl)

theorem still_declareParams (params : List (Param × ExprType)) (hs : s.Scoped)
    (hkind : s.scopes.kind? s.scopes.cursor ≠ some .namespaceScope)
    (h : (declareParams params).Gives settings s () s') : s.Still s' := by
  induction params generalizing s with
  | nil => exact (gives_pure.mp h).2 ▸ .refl hs
  | cons param rest ih =>
      obtain ⟨param, type⟩ := param
      simp only [declareParams, gives_bind] at h
      obtain ⟨symbol, s₁, hobject, _, s₂, hset, hrest⟩ := h
      have hobject := still_declareObject hs (.inr hkind) hobject
      have hfirst := hobject.trans (quiet_setParamSymbol.still hset hobject.fits)
      refine hfirst.trans (ih hfirst.fits ?_ hrest)
      rw [hfirst.cursor, hfirst.grows.kinds _ hs.graph.cursor]
      exact hkind

end Check

end Stela
