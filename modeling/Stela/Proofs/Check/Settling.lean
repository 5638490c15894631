import Stela.Check.Result
import Stela.Proofs.Check.Operating
import Stela.Proofs.Syntax.NodeMap

/-!
# Settling the result of a body

When a body ends, the placeholder of its function is replaced by the result type
in the types of all expressions, and in no other way do types of expressions
change. What was assumed about the result has been compared with it before.
-/

namespace Stela

/-- `after` is the type `before` once the placeholder of a function is known to be `ret`. -/
inductive TypeTable.Settling (t t' : TypeTable) (func : SymbolId) (ret : TypeId) :
    TypeId → TypeId → Prop
  | placeholder {type} (h : t.get? type = some (.pending func)) : Settling t t' func ret type ret
  | result {type params result type'} (h : t.get? type = some (.func params result))
      (hresult : t.get? result = some (.pending func))
      (h' : t'.get? type' = some (.func params ret)) : Settling t t' func ret type type'
  | other {type} (h : t.get? type ≠ some (.pending func))
      (hresult : ∀ params result, t.get? type = some (.func params result) →
        t.get? result ≠ some (.pending func)) : Settling t t' func ret type type

namespace TypeTable.Settling

variable {t t' t'' : TypeTable} {func : SymbolId} {ret type type' type'' : TypeId}

theorem mono (h : t.Settling t' func ret type type') (hw : t'.Within t'') :
    t.Settling t'' func ret type type' := by
  cases h with
  | placeholder h => exact .placeholder h
  | result h hresult h' => exact .result h hresult (hw _ _ h')
  | other h hresult => exact .other h hresult

/-- Which placeholders a type is built on does not depend on what was entered later. -/
theorem of_within (h : t'.Settling t'' func ret type type') (hw : t.Within t')
    (hsound : t.Sound) {ty : Ty} (htype : t.get? type = some ty) :
    t.Settling t'' func ret type type' := by
  have hself : t'.get? type = t.get? type := (hw _ _ htype).trans htype.symm
  have hret {params : List (RefKind × TypeId)} {result : TypeId}
      (hfunc : t.get? type = some (.func params result)) : t'.get? result = t.get? result := by
    rcases (hsound.fits _ _ hfunc).2 with hsettled | ⟨func', hpending⟩
    · exact hsettled.1.get?_eq hw
    · exact (hw _ _ hpending).trans hpending.symm
  cases h with
  | placeholder h => exact .placeholder (hself ▸ h)
  | result h hresult h' =>
      rw [hself] at h
      exact .result h (hret h ▸ hresult) h'
  | other h hresult =>
      rw [hself] at h hresult
      exact .other h fun params result hfunc => hret hfunc ▸ hresult params result hfunc

theorem exists_get? (h : t.Settling t' func ret type type') (hw : t.Within t')
    (hret : t.Known ret) (htype : ∃ ty, t.get? type = some ty) : ∃ ty, t'.get? type' = some ty := by
  cases h with
  | placeholder _ =>
      obtain ⟨ty, hty, -⟩ := hret
      exact ⟨ty, hw _ _ hty⟩
  | result _ _ h' => exact ⟨_, h'⟩
  | other _ _ =>
      obtain ⟨ty, hty⟩ := htype
      exact ⟨ty, hw _ _ hty⟩

theorem of_settled (hsettled : t.Settled type) : t.Settling t' func ret type type :=
  .other (hsettled.1.get?_ne func) fun params result hfunc => (hsettled.2 params result hfunc).get?_ne func

/-- A settled type is not replaced. -/
theorem eq_of_settled (h : t.Settling t' func ret type type') (hsettled : t.Settled type) :
    type' = type := by
  cases h with
  | placeholder h => exact absurd h (hsettled.1.get?_ne func)
  | result h hresult _ => exact absurd hresult ((hsettled.2 _ _ h).get?_ne func)
  | other _ _ => rfl

/-- The placeholder of another function is not replaced. -/
theorem eq_of_pending (h : t.Settling t' func ret type type') {other : SymbolId}
    (htype : t.get? type = some (.pending other)) (hne : other ≠ func) : type' = type := by
  cases h with
  | placeholder h => exact absurd (Ty.pending.inj (Option.some.inj (htype.symm.trans h))) hne
  | result h _ _ => simp [htype] at h
  | other _ _ => rfl

/-- The placeholder of the function is replaced by the result. -/
theorem eq_of_placeholder (h : t.Settling t' func ret type type')
    (htype : t.get? type = some (.pending func)) : type' = ret := by
  cases h with
  | placeholder _ => rfl
  | result h _ _ => simp [htype] at h
  | other h _ => exact absurd htype h

theorem unique (h : t.Settling t' func ret type type') (h' : t.Settling t' func ret type type'')
    (ht' : t'.Injective) : type' = type'' := by
  cases h with
  | placeholder h => exact (h'.eq_of_placeholder h).symm
  | result h hresult htype' =>
      cases h' with
      | placeholder h' => simp [h] at h'
      | result h' _ htype'' =>
          obtain ⟨rfl, -⟩ := Ty.func.inj (Option.some.inj (h.symm.trans h'))
          exact ht' _ _ _ htype' htype''
      | other _ hother => exact absurd hresult (hother _ _ h)
  | other h hother =>
      cases h' with
      | placeholder h' => exact absurd h' h
      | result h' hresult _ => exact absurd hresult (hother _ _ h')
      | other _ _ => rfl

/-- The result of a function type is replaced as the type it is. -/
theorem get?_func (h : t.Settling t' func ret type type') (ht : t.Sound) (hw : t.Within t')
    {params : List (RefKind × TypeId)} {result result' : TypeId}
    (htype : t.get? type = some (.func params result))
    (hresult : t.Settling t' func ret result result') :
    t'.get? type' = some (.func params result') := by
  cases h with
  | placeholder h => simp [htype] at h
  | result h hpending h' =>
      obtain ⟨rfl, rfl⟩ := Ty.func.inj (Option.some.inj (htype.symm.trans h))
      rw [hresult.eq_of_placeholder hpending]
      exact h'
  | other _ hother =>
      have hne := hother _ _ htype
      have heq : result' = result := by
        rcases (ht.fits _ _ htype).2 with hsettled | ⟨other, hpending⟩
        · exact hresult.eq_of_settled hsettled
        · exact hresult.eq_of_pending hpending fun heq => hne (heq ▸ hpending)
      rw [heq]
      exact hw _ _ htype

end TypeTable.Settling

namespace CheckState

/-- The types of expressions are in the table. -/
def InRange (s : CheckState) : Prop :=
  ∀ node typing, s.exprTypes.get? node = some typing →
    ∃ ty, s.tables.types.get? typing.type.type = some ty

/-- The later state differs in what the placeholder of a function has been replaced by. -/
structure SettlesTo (s : CheckState) (func : SymbolId) (ret : TypeId) (nodes : Nat → Prop)
    (s' : CheckState) : Prop where
  rest : s' = { s with tables.types := s'.tables.types, exprTypes := s'.exprTypes }
  within : s.tables.types.Within s'.tables.types
  named : ∀ type ty symbol, s'.tables.types.get? type = some ty → ty.symbol? = some symbol →
    s.tables.types.get? type = some ty
  sound : s'.tables.types.Sound
  typed : ∀ node typing, s.exprTypes.get? node = some typing → nodes node →
    ∃ type', s'.exprTypes.get? node = some { typing with type := { typing.type with type := type' } } ∧
      s.tables.types.Settling s'.tables.types func ret typing.type.type type'
  same : ∀ node, ¬ nodes node → s'.exprTypes.get? node = s.exprTypes.get? node
  untyped : ∀ node, s.exprTypes.get? node = none → s'.exprTypes.get? node = none

variable {s : CheckState} {func : SymbolId} {pending ret : TypeId}

theorem settled_spec {t : TypeTable} (ht : t.Sound) (hpending : t.get? pending = some (.pending func))
    (hret : t.Settled ret) (type : ExprType) :
    (settled t pending ret type).1 = { type with type := (settled t pending ret type).1.type } ∧
      t.Within (settled t pending ret type).2 ∧
      (∀ id ty symbol, (settled t pending ret type).2.get? id = some ty → ty.symbol? = some symbol →
        t.get? id = some ty) ∧ (settled t pending ret type).2.Sound ∧
      t.Settling (settled t pending ret type).2 func ret type.type
        (settled t pending ret type).1.type := by
  unfold settled
  split
  · next heq =>
    exact ⟨rfl, .refl t, fun _ _ _ h _ => h, ht, .placeholder ((eq_of_beq heq).symm ▸ hpending)⟩
  · next hne =>
    have hother (id : TypeId) (hid : t.get? id = some (.pending func)) : id = pending :=
      ht.injective id pending _ hid hpending
    have hself : t.get? type.type ≠ some (.pending func) := fun h => hne (by simp [hother _ h])
    split
    · next params result hfunc =>
      split
      · next heq =>
        refine ⟨rfl, TypeTable.within_intern t _, fun id ty symbol hid hsymbol => ?_,
          ht.intern ⟨ht.settled_param hfunc, .inl hret⟩, ?_⟩
        · rcases TypeTable.get?_intern_inv hid with hold | ⟨-, rfl⟩
          · exact hold
          · cases hsymbol
        · exact .result hfunc ((eq_of_beq heq).symm ▸ hpending) (TypeTable.get?_intern t _)
      · next hresult =>
        refine ⟨rfl, .refl t, fun _ _ _ h _ => h, ht,
          .other hself fun params' result' hfunc' h => hresult ?_⟩
        rw [hfunc] at hfunc'
        cases hfunc'
        simp [hother _ h]
    · next hnone =>
      exact ⟨rfl, .refl t, fun _ _ _ h _ => h, ht,
        .other hself fun params result h => absurd h (hnone params result)⟩

namespace SettlesTo

variable {s' s'' : CheckState} {nodes nodes' : Nat → Prop}

theorem inRange (h : s.SettlesTo func ret nodes s') (hret : s.tables.types.Known ret)
    (hrange : s.InRange) : s'.InRange := by
  intro node typing' htyping'
  by_cases hmem : nodes node
  · cases hnode : s.exprTypes.get? node with
    | none => simp [h.untyped node hnode] at htyping'
    | some typing =>
        obtain ⟨type', htype', hsettling⟩ := h.typed node typing hnode hmem
        obtain rfl := Option.some.inj (htype'.symm.trans htyping')
        exact hsettling.exists_get? h.within hret (hrange node typing hnode)
  · obtain ⟨ty, hty⟩ := hrange node typing' ((h.same node hmem).symm.trans htyping')
    exact ⟨ty, h.within _ _ hty⟩

/-- Settling some expressions and then others. -/
theorem append (h : s.SettlesTo func ret nodes s') (h' : s'.SettlesTo func ret nodes' s'')
    (hdisjoint : ∀ node, nodes node → ¬ nodes' node) (ht : s.tables.types.Sound)
    (hrange : s.InRange) : s.SettlesTo func ret (fun node => nodes node ∨ nodes' node) s'' := by
  refine ⟨?_, h.within.trans h'.within,
    fun type ty symbol htype hsymbol => h.named type ty symbol (h'.named type ty symbol htype hsymbol) hsymbol,
    h'.sound, fun node typing htyping hmem => ?_, fun node hmem => ?_,
    fun node hnode => h'.untyped node (h.untyped node hnode)⟩
  · rw [h'.rest, h.rest]
  · rcases hmem with hmem | hmem
    · obtain ⟨type', htype', hsettling⟩ := h.typed node typing htyping hmem
      exact ⟨type', (h'.same node (hdisjoint node hmem)).trans htype', hsettling.mono h'.within⟩
    · have hsame := h.same node fun hin => hdisjoint node hin hmem
      obtain ⟨type', htype', hsettling⟩ := h'.typed node typing (hsame.trans htyping) hmem
      obtain ⟨ty, hty⟩ := hrange node typing htyping
      exact ⟨type', htype', hsettling.of_within h.within ht hty⟩
  · exact (h'.same node fun hin => hmem (.inr hin)).trans (h.same node fun hin => hmem (.inl hin))

end SettlesTo

section

variable (ht : s.tables.types.Sound) (hpending : s.tables.types.get? pending = some (.pending func))
  (hret : s.tables.types.Settled ret)

include ht hpending hret

theorem settlesTo_single (node : Nat) :
    s.SettlesTo func ret (· = node) (settleExprs pending ret s [node]) := by
  rw [settleExprs, List.foldl_cons, List.foldl_nil]
  split
  · next hnone =>
    refine ⟨rfl, .refl _, fun _ _ _ h _ => h, ht, fun other typing htyping heq => ?_, fun _ _ => rfl,
      fun _ h => h⟩
    rw [heq, hnone] at htyping
    simp at htyping
  · next typing htyping =>
    obtain ⟨htype, hw, hnamed, hsound, hsettling⟩ := settled_spec ht hpending hret typing.type
    refine ⟨rfl, hw, hnamed, hsound, fun other typing' htyping' heq => ?_, fun other hne => ?_,
      fun other hother => ?_⟩
    · subst heq
      obtain rfl := Option.some.inj (htyping.symm.trans htyping')
      exact ⟨_, by rw [NodeMap.get?_insert_self, ← htype], hsettling⟩
    · exact NodeMap.get?_insert_ne hne
    · have hne : other ≠ node := by
        rintro rfl
        simp [htyping] at hother
      exact (NodeMap.get?_insert_ne hne).trans hother

/-- Replacing the placeholder in the types of some expressions. -/
theorem settlesTo_settleExprs (nodes : List Nat) (hnodup : nodes.Nodup) (hrange : s.InRange) :
    s.SettlesTo func ret (· ∈ nodes) (settleExprs pending ret s nodes) := by
  induction nodes generalizing s with
  | nil =>
      exact ⟨rfl, .refl _, fun _ _ _ h _ => h, ht, fun _ _ _ h => absurd h List.not_mem_nil, fun _ _ => rfl,
        fun _ h => h⟩
  | cons node rest ih =>
      obtain ⟨hnot, hrest⟩ := List.nodup_cons.mp hnodup
      have hfirst := settlesTo_single ht hpending hret node
      have hothers := ih hfirst.sound (hfirst.within _ _ hpending) (hret.mono hfirst.within) hrest
        (hfirst.inRange hret.1 hrange)
      have hsplit : settleExprs pending ret s (node :: rest) =
          settleExprs pending ret (settleExprs pending ret s [node]) rest := rfl
      rw [hsplit]
      simpa only [List.mem_cons] using
        hfirst.append hothers (fun _ heq hin => hnot (heq ▸ hin)) ht hrange

end

/-- When a body ends, the placeholder of its function is replaced everywhere. -/
theorem settlesTo_resolvePending (ht : s.tables.types.Sound) (hret : s.tables.types.Settled ret)
    (hrange : s.InRange) : s.SettlesTo func ret (fun _ => True) (s.resolvePending func ret) := by
  unfold resolvePending
  split
  · next hnone =>
    have hfind := TypeTable.get?_ne_of_find?_eq_none hnone
    refine ⟨rfl, .refl _, fun _ _ _ h _ => h, ht, fun node typing htyping _ => ?_, fun _ _ => rfl,
      fun _ h => h⟩
    exact ⟨_, htyping, .other (hfind _) fun _ _ _ => hfind _⟩
  · next pending hsome =>
    have hpending := TypeTable.get?_of_find? hsome
    have h := settlesTo_settleExprs ht hpending hret (s.exprTypes.toList.map (·.1))
      NodeMap.nodup_toList hrange
    refine ⟨h.rest, h.within, h.named, h.sound, fun node typing htyping _ => ?_,
      fun _ hfalse => absurd trivial hfalse, h.untyped⟩
    exact h.typed node typing htyping
      (List.mem_map.mpr ⟨(node, typing), NodeMap.mem_toList.mpr htyping, rfl⟩)

end CheckState

/-- What a body assumes about the calls it returned, once its own result is known. -/
def Frame.notes (frame : Frame) (ret : TypeId) : List Assumption :=
  (frame.pendingReturns.filter fun call => call.callee != frame.symbol).map
    fun call => ⟨call.callee, ret, call.span⟩

namespace Check

variable {settings : Settings} {s s' : CheckState} {func : SymbolId} {ret : TypeId}

/-- Every assumption about the function has been compared with its result and is dropped. -/
theorem verifyAssumptions_gives (h : (verifyAssumptions func ret).Gives settings s () s') :
    (∀ a ∈ s.assumptions, a.func = func → s.tables.same a.type ret = true) ∧
      { s with assumptions := s.assumptions.filter fun a => a.func != func } = s' := by
  simp only [verifyAssumptions, gives_bind, gives_state, List.partition_eq_filter_filter] at h
  obtain ⟨_, _, ⟨rfl, rfl⟩, h⟩ := h
  simp only [gives_update] at h
  obtain ⟨_, s₁, hs₁, h⟩ := h
  have hcompare (mine : List Assumption)
      (h : (mine.forM fun a => do
        if !(← same a.type ret) then mismatch ret a.type a.span).Gives settings s₁ () s') :
      (∀ a ∈ mine, s₁.tables.same a.type ret = true) ∧ s₁ = s' := by
    induction mine with
    | nil => exact ⟨by simp, gives_forM_nil.mp h⟩
    | cons a rest ih =>
        simp only [gives_forM_cons, gives_bind, gives_same] at h
        obtain ⟨_, ⟨_, _, ⟨⟨-, rfl⟩, rfl⟩, hfirst⟩, hrest⟩ := h
        rw [gives_ite] at hfirst
        split at hfirst
        · simp at hfirst
        · next hsame =>
          obtain ⟨-, rfl⟩ := gives_pure.mp hfirst
          obtain ⟨hall, rfl⟩ := ih hrest
          refine ⟨fun a' ha' => ?_, rfl⟩
          rcases List.mem_cons.mp ha' with rfl | ha'
          · simpa using hsame
          · exact hall a' ha'
  obtain ⟨hall, rfl⟩ := hcompare _ h
  subst hs₁
  refine ⟨fun a ha hfunc => hall a (List.mem_filter.mpr ⟨ha, by simp [hfunc]⟩), ?_⟩
  congr 1

theorem notes_gives {frame : Frame} (calls : List CallSite)
    (h : (calls.forM fun call => do
      if call.callee != frame.symbol then noteAssumption call.callee ret call.span).Gives
        settings s () s') :
    { s with assumptions := s.assumptions ++
      ((calls.filter fun call => call.callee != frame.symbol).map
        fun call => ⟨call.callee, ret, call.span⟩) } = s' := by
  induction calls generalizing s with
  | nil =>
      obtain rfl := gives_forM_nil.mp h
      simp
  | cons call rest ih =>
      obtain ⟨s₁, hfirst, hrest⟩ := gives_forM_cons.mp h
      rw [gives_ite] at hfirst
      split at hfirst
      · next hne =>
        obtain rfl := gives_update.mp hfirst
        rw [← ih hrest]
        simp [hne]
      · next heq =>
        obtain ⟨-, rfl⟩ := gives_pure.mp hfirst
        rw [← ih hrest]
        simp [heq]

/-- What the end of a body does before the placeholder of its function is replaced. -/
def judgeBody (frame : Frame) (body : List Stmt) (span : Span) : Check TypeId := do
  let name ← nameOf frame.symbol
  let ret ← match frame.ret.expected with
    | some type => pure type
    | none =>
      if !frame.pendingReturns.isEmpty then
        raise (.badReturn (.undeducibleRecursion name)) span
          (some "annotate the return type or add a non-recursive `return`")
      else pure Builtin.void.typeId
  frame.pendingReturns.forM fun call => do
    if call.callee != frame.symbol then noteAssumption call.callee ret call.span
  if !(← isVoid ret) && !stmtsReturn body then
    raise (.badReturn (.notAllPathsReturn name)) span
  verifyAssumptions frame.symbol ret
  return ret

/-- At its end the result of a body is judged, and then its placeholder is replaced. -/
theorem finishBody_eq (frame : Frame) (body : List Stmt) (span : Span) :
    finishBody frame body span = (do
      let ret ← judgeBody frame body span
      replacePending frame.symbol ret
      return ret) := by
  unfold finishBody judgeBody
  cases frame.ret.expected <;> simp only [bind_bind, ite_bind, pure_bind]

/-- How the result of a body is judged. -/
theorem judgeBody_gives {frame : Frame} {body : List Stmt} {span : Span}
    (h : (judgeBody frame body span).Gives settings s ret s') :
    (frame.ret.expected = some ret ∨ frame.ret.expected = none ∧ frame.pendingReturns = [] ∧
      ret = Builtin.void.typeId) ∧
    (∀ a ∈ s.assumptions ++ frame.notes ret, a.func = frame.symbol →
      s.tables.same a.type ret = true) ∧
    ((s.tables.concrete? ret).isSome ∧ s.tables.isVoid ret = true ∨ stmtsReturn body = true) ∧
    { s with
      assumptions := (s.assumptions ++ frame.notes ret).filter fun a => a.func != frame.symbol } = s' := by
  have judge {name : String} {ret r : TypeId} (h : Gives (do
      frame.pendingReturns.forM fun call => do
        if call.callee != frame.symbol then noteAssumption call.callee ret call.span
      if !(← isVoid ret) && !stmtsReturn body then
        raise (.badReturn (.notAllPathsReturn name)) span
      verifyAssumptions frame.symbol ret
      return ret) settings s r s') : ret = r ∧
      (∀ a ∈ s.assumptions ++ frame.notes ret, a.func = frame.symbol →
        s.tables.same a.type ret = true) ∧
      ((s.tables.concrete? ret).isSome ∧ s.tables.isVoid ret = true ∨ stmtsReturn body = true) ∧
      { s with
        assumptions := (s.assumptions ++ frame.notes ret).filter fun a => a.func != frame.symbol } = s' := by
    simp only [gives_bind, gives_isVoid] at h
    obtain ⟨_, s₁, hnotes, _, _, ⟨⟨hread, rfl⟩, rfl⟩, h⟩ := h
    obtain rfl := notes_gives _ hnotes
    change (s.tables.concrete? ret).isSome = true at hread
    rw [gives_ite] at h
    split at h
    · simp at h
    · next hreturns =>
      simp only [gives_bind, gives_pure] at h
      obtain ⟨_, s₂, hverify, rfl, rfl⟩ := h
      obtain ⟨hall, rfl⟩ := verifyAssumptions_gives hverify
      refine ⟨rfl, hall, ?_, rfl⟩
      by_contra hnot
      exact hreturns (by simpa [hread] using hnot)
  simp only [judgeBody, gives_bind] at h
  obtain ⟨name, _, hname, h⟩ := h
  obtain rfl := (gives_nameOf.mp hname).2
  split at h
  · next type hexpected =>
    rw [gives_bind] at h
    obtain ⟨_, _, hpure, h⟩ := h
    obtain ⟨rfl, rfl⟩ := gives_pure.mp hpure
    obtain ⟨rfl, hrest⟩ := judge h
    exact ⟨.inl hexpected, hrest⟩
  · next hexpected =>
    rw [gives_ite] at h
    split at h
    · simp at h
    · next hempty =>
      rw [gives_bind] at h
      obtain ⟨_, _, hpure, h⟩ := h
      obtain ⟨rfl, rfl⟩ := gives_pure.mp hpure
      obtain ⟨rfl, hrest⟩ := judge h
      exact ⟨.inr ⟨hexpected, by simpa using hempty, rfl⟩, hrest⟩

/-- How a body ends. -/
theorem finishBody_gives {frame : Frame} {body : List Stmt} {span : Span}
    (h : (finishBody frame body span).Gives settings s ret s') :
    (frame.ret.expected = some ret ∨ frame.ret.expected = none ∧ frame.pendingReturns = [] ∧
      ret = Builtin.void.typeId) ∧
    (∀ a ∈ s.assumptions ++ frame.notes ret, a.func = frame.symbol →
      s.tables.same a.type ret = true) ∧
    ((s.tables.concrete? ret).isSome ∧ s.tables.isVoid ret = true ∨ stmtsReturn body = true) ∧
    CheckState.resolvePending { s with
      assumptions := (s.assumptions ++ frame.notes ret).filter fun a => a.func != frame.symbol }
      frame.symbol ret = s' := by
  rw [finishBody_eq] at h
  simp only [gives_bind, gives_pure] at h
  obtain ⟨_, _, hjudge, _, _, hreplace, rfl, rfl⟩ := h
  obtain rfl := replacePending_gives hreplace
  obtain ⟨hexpected, hverified, hends, rfl⟩ := judgeBody_gives hjudge
  exact ⟨hexpected, hverified, hends, rfl⟩

end Check

end Stela
