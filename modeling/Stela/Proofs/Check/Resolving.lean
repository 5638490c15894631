import Stela.Proofs.Check.Settling

/-!
# The order in which expressions are visited

When a body ends, the types of expressions are visited one after another, and a
function type that returns the placeholder is entered anew. If all of these are
one type, at most one type is entered, and neither the table nor the types of the
expressions depend on the order of the visits.
-/

namespace Stela.CheckState

variable {s s' : CheckState} {func : SymbolId} {pending ret : TypeId} {params : List (RefKind × TypeId)}
  {nodes nodes' : List Nat}

/-- Replaces the pending type of a function in the types of expressions that are visited in an order. -/
def resolveInOrder (s : CheckState) (func : SymbolId) (ret : TypeId) (nodes : List Nat) : CheckState :=
  match s.tables.types.find? (.pending func) with
  | none => s
  | some pending => settleExprs pending ret s nodes

/-- The expressions are visited in the order in which they are listed. -/
theorem resolvePending_eq (s : CheckState) (func : SymbolId) (ret : TypeId) :
    s.resolvePending func ret = s.resolveInOrder func ret (s.exprTypes.toList.map (·.1)) := rfl

/-- The type of an expression is a function type with these parameters that returns a type. -/
def Awaits (s : CheckState) (pending : TypeId) (params : List (RefKind × TypeId)) : Prop :=
  ∃ node typing, s.exprTypes.get? node = some typing ∧
    s.tables.types.get? typing.type.type = some (.func params pending)

/-- All expressions whose types return a type have the same parameters. -/
def AwaitsOne (s : CheckState) (pending : TypeId) : Prop :=
  ∀ params params', s.Awaits pending params → s.Awaits pending params' → params = params'

/-! ## One visit -/

/-- The table stays as it is unless the type is a function type that returns the placeholder. -/
theorem types_settled {t : TypeTable} (ret : TypeId) (type : ExprType) : (settled t pending ret type).2 = t ∨
    ∃ params, t.get? type.type = some (.func params pending) ∧
      (settled t pending ret type).2 = (t.intern (.func params ret)).2 := by
  unfold settled
  split
  · exact .inl rfl
  · split
    · next params result hfunc =>
      split
      · next heq => exact .inr ⟨params, (eq_of_beq heq) ▸ hfunc, rfl⟩
      · exact .inl rfl
    · exact .inl rfl

theorem types_single (ret : TypeId) (node : Nat) :
    (settleExprs pending ret s [node]).tables.types = s.tables.types ∨
      ∃ params, s.Awaits pending params ∧
        (settleExprs pending ret s [node]).tables.types = (s.tables.types.intern (.func params ret)).2 := by
  rw [settleExprs, List.foldl_cons, List.foldl_nil]
  split
  · exact .inl rfl
  · next typing htyping =>
    rcases types_settled ret typing.type with heq | ⟨params, hfunc, heq⟩
    · exact .inl heq
    · exact .inr ⟨params, ⟨node, typing, htyping, hfunc⟩, heq⟩

theorem size_exprTypes_settleExprs (nodes : List Nat) :
    (settleExprs pending ret s nodes).exprTypes.entries.size = s.exprTypes.entries.size := by
  induction nodes generalizing s with
  | nil => rfl
  | cons node rest ih =>
      have hsplit : settleExprs pending ret s (node :: rest) =
          settleExprs pending ret (settleExprs pending ret s [node]) rest := rfl
      rw [hsplit, ih, settleExprs, List.foldl_cons, List.foldl_nil]
      split
      · rfl
      · next typing htyping => exact NodeMap.size_insert htyping

/-- What returns the placeholder afterwards did so before, with the same parameters. -/
theorem SettlesTo.awaits {visited : Nat → Prop} (h : s.SettlesTo func ret visited s')
    (hpending : s.tables.types.get? pending = some (.pending func)) (hret : s.tables.types.Settled ret)
    (hrange : s.InRange) (hawaits : s'.Awaits pending params) : s.Awaits pending params := by
  obtain ⟨node, typing', htyping', hfunc⟩ := hawaits
  have hne : ret ≠ pending := fun heq => hret.1.get?_ne func (heq ▸ hpending)
  cases hnode : s.exprTypes.get? node with
  | none => cases (h.untyped node hnode).symm.trans htyping'
  | some typing =>
      obtain ⟨ty, hty⟩ := hrange node typing hnode
      have hold (hfunc : s'.tables.types.get? typing.type.type = some (.func params pending)) :
          s.Awaits pending params :=
        ⟨node, typing, hnode, hty.trans ((h.within _ _ hty).symm.trans hfunc)⟩
      by_cases hvisited : visited node
      · obtain ⟨type', htype', hsettling⟩ := h.typed node typing hnode hvisited
        obtain rfl := Option.some.inj (htype'.symm.trans htyping')
        cases hsettling with
        | placeholder _ =>
            exact absurd (h.within _ _ hpending) ((hret.mono h.within).2 params pending hfunc |>.get?_ne func)
        | result _ _ htype'' =>
            obtain ⟨-, heq⟩ := Ty.func.inj (Option.some.inj (htype''.symm.trans hfunc))
            exact absurd heq hne
        | other _ _ => exact hold hfunc
      · obtain rfl := Option.some.inj (hnode.symm.trans ((h.same node hvisited).symm.trans htyping'))
        exact hold hfunc

/-! ## All visits -/

section

variable (ht : s.tables.types.Sound) (hpending : s.tables.types.get? pending = some (.pending func))
  (hret : s.tables.types.Settled ret) (hrange : s.InRange) (hone : s.AwaitsOne pending)

include ht hpending hret hrange hone

/-- At most one type is entered, by induction on the visits: what is entered later was entered first. -/
theorem types_settleExprs (nodes : List Nat) :
    (settleExprs pending ret s nodes).tables.types = s.tables.types ∨
      ∃ params, s.Awaits pending params ∧
        (settleExprs pending ret s nodes).tables.types = (s.tables.types.intern (.func params ret)).2 := by
  induction nodes generalizing s with
  | nil => exact .inl rfl
  | cons node rest ih =>
      have hsplit : settleExprs pending ret s (node :: rest) =
          settleExprs pending ret (settleExprs pending ret s [node]) rest := rfl
      have hfirst := settlesTo_single ht hpending hret node
      have hawaits {params : List (RefKind × TypeId)}
          (h : (settleExprs pending ret s [node]).Awaits pending params) : s.Awaits pending params :=
        hfirst.awaits hpending hret hrange h
      have hrest := ih hfirst.sound (hfirst.within _ _ hpending) (hret.mono hfirst.within)
        (hfirst.inRange hret.1 hrange) fun params params' h h' => hone _ _ (hawaits h) (hawaits h')
      rw [hsplit]
      rcases types_single ret node with heq | ⟨params, hparams, heq⟩
      · rw [heq] at hrest
        exact hrest.imp_right fun ⟨params, hparams, h⟩ => ⟨params, hawaits hparams, h⟩
      · refine .inr ⟨params, hparams, ?_⟩
        rcases hrest with hsame | ⟨params', hparams', h⟩
        · exact hsame.trans heq
        · obtain rfl := hone _ _ hparams (hawaits hparams')
          have hentered := TypeTable.get?_intern s.tables.types (.func params ret)
          rw [h, heq, (ht.injective.intern _).intern_eq hentered]

/-- If a function type returns the placeholder, its new form is in the table in the end. -/
theorem types_settleExprs_of_awaits (hnodup : nodes.Nodup)
    (hall : ∀ node typing, s.exprTypes.get? node = some typing → node ∈ nodes)
    (hawaits : s.Awaits pending params) :
    (settleExprs pending ret s nodes).tables.types = (s.tables.types.intern (.func params ret)).2 := by
  rcases types_settleExprs ht hpending hret hrange hone nodes with heq | ⟨params', hparams', heq⟩
  · obtain ⟨node, typing, htyping, hfunc⟩ := hawaits
    obtain ⟨type', -, hsettling⟩ := (settlesTo_settleExprs ht hpending hret nodes hnodup hrange).typed node
      typing htyping (hall node typing htyping)
    cases hsettling with
    | placeholder h => simp [hfunc] at h
    | result h _ h' =>
        obtain ⟨rfl, -⟩ := Ty.func.inj (Option.some.inj (hfunc.symm.trans h))
        rw [heq] at h'
        rw [heq, ht.injective.intern_eq h']
    | other _ h => exact absurd hpending (h _ _ hfunc)
  · rw [heq, hone _ _ hawaits hparams']

/-- The order of the visits does not matter. -/
theorem settleExprs_perm (hnodup : nodes.Nodup) (hperm : nodes'.Perm nodes)
    (hall : ∀ node typing, s.exprTypes.get? node = some typing → node ∈ nodes) :
    settleExprs pending ret s nodes' = settleExprs pending ret s nodes := by
  have hnodup' := hperm.nodup_iff.mpr hnodup
  have hall' (node : Nat) (typing : Typing) (h : s.exprTypes.get? node = some typing) : node ∈ nodes' :=
    hperm.mem_iff.mpr (hall node typing h)
  have hsettles := settlesTo_settleExprs ht hpending hret nodes hnodup hrange
  have hsettles' := settlesTo_settleExprs ht hpending hret nodes' hnodup' hrange
  have htypes : (settleExprs pending ret s nodes').tables.types =
      (settleExprs pending ret s nodes).tables.types := by
    by_cases hawaits : ∃ params, s.Awaits pending params
    · obtain ⟨params, hawaits⟩ := hawaits
      rw [types_settleExprs_of_awaits ht hpending hret hrange hone hnodup hall hawaits,
        types_settleExprs_of_awaits ht hpending hret hrange hone hnodup' hall' hawaits]
    · have hnone (nodes : List Nat) :
          (settleExprs pending ret s nodes).tables.types = s.tables.types :=
        (types_settleExprs ht hpending hret hrange hone nodes).resolve_right
          fun ⟨params, h, _⟩ => hawaits ⟨params, h⟩
      rw [hnone, hnone]
  have hexprs : (settleExprs pending ret s nodes').exprTypes = (settleExprs pending ret s nodes).exprTypes := by
    refine NodeMap.eq_of_get? ?_ fun node => ?_
    · rw [size_exprTypes_settleExprs, size_exprTypes_settleExprs]
    · cases hnode : s.exprTypes.get? node with
      | none => rw [hsettles.untyped node hnode, hsettles'.untyped node hnode]
      | some typing =>
          obtain ⟨type, htype, hsettling⟩ := hsettles.typed node typing hnode (hall node typing hnode)
          obtain ⟨type', htype', hsettling'⟩ := hsettles'.typed node typing hnode (hall' node typing hnode)
          rw [htypes] at hsettling'
          rw [htype, htype', hsettling'.unique hsettling hsettles.sound.injective]
  rw [hsettles.rest, hsettles'.rest, htypes, hexprs]

end

end Stela.CheckState
