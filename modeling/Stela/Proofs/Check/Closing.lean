import Stela.Proofs.Check.Agreement

/-!
# The end of a body

When a body ends, its placeholder is replaced and what was assumed about its
result is checked. What was found before still holds, and what was returned is
found to have the result type.
-/

namespace Stela

namespace Check

open CheckState

variable {settings : Settings} {s s' : CheckState} {frame : Frame} {rest : List Frame}
  {ret : TypeId}

namespace ClosesFunc

variable (h : ClosesFunc s frame rest ret s')

include h

theorem settled : s.tables.types.Settled ret := by
  obtain ⟨s₁, hcloses, -⟩ := h.closes
  exact hcloses.settled

/-- The same expressions have types before and after. -/
theorem isSome_exprTypes (node : Nat) :
    (s'.exprTypes.get? node).isSome = (s.exprTypes.get? node).isSome := by
  obtain ⟨s₁, hcloses, -, heq⟩ := h.closes
  rw [heq]
  cases hnode : s.exprTypes.get? node with
  | none => simp [hcloses.settles.untyped node hnode]
  | some typing =>
      obtain ⟨type', htype', -⟩ := hcloses.settles.typed node typing hnode trivial
      simp [htype']

/-- The type of an expression is kept up to the placeholder of the function. -/
theorem typeOf? {e : Expr} {type : ExprType} (he : s.typeOf? e = some type) :
    ∃ type', s'.typeOf? e = some { type with type := type' } ∧
      s.tables.types.Settling s'.tables.types frame.symbol ret type.type type' := by
  obtain ⟨s₁, hcloses, htouches, heq⟩ := h.closes
  obtain ⟨typing, htyping, rfl⟩ := Option.map_eq_some_iff.mp he
  obtain ⟨type', htype', hsettling⟩ := hcloses.settles.typed _ typing htyping trivial
  refine ⟨type', ?_, htouches.types ▸ hsettling⟩
  rw [heq]
  exact Option.map_eq_some_iff.mpr ⟨_, htype', rfl⟩

/-- The type of an expression that was settled is kept. -/
theorem typeOf?_settled {e : Expr} {type : ExprType} (he : s.typeOf? e = some type)
    (hsettled : s.tables.types.Settled type.type) : s'.typeOf? e = some type := by
  obtain ⟨type', htype', hsettling⟩ := h.typeOf? he
  rw [htype', hsettling.eq_of_settled hsettled]

theorem typesOf? {args : List Expr} {types : List ExprType}
    (hargs : args.map s.typeOf? = types.map some)
    (hsettled : ∀ type ∈ types, s.tables.types.Settled type.type) :
    args.map s'.typeOf? = types.map some := by
  induction args generalizing types with
  | nil => exact hargs
  | cons arg rest ih =>
      cases types with
      | nil => simp at hargs
      | cons type types =>
          obtain ⟨hfirst, hrest⟩ := List.cons.inj hargs
          exact congrArg₂ List.cons (h.typeOf?_settled hfirst (hsettled _ List.mem_cons_self))
            (ih hrest fun type htype => hsettled type (List.mem_cons_of_mem _ htype))

/-- What was assumed about the function has been compared with its result. -/
theorem verified {a : Assumption} (ha : a ∈ s.assumptions) (hfunc : a.func = frame.symbol) :
    s.tables.same a.type ret = true := by
  obtain ⟨s₁, hcloses, -⟩ := h.closes
  exact hcloses.verified a (List.mem_append_left _ ha) hfunc

/-- What the body assumes about the calls that it returned. -/
theorem mem_notes {call : CallSite} (hcall : call ∈ frame.pendingReturns)
    (hne : call.callee ≠ frame.symbol) : ⟨call.callee, ret, call.span⟩ ∈ s'.assumptions := by
  obtain ⟨s₁, hcloses, -, heq⟩ := h.closes
  have hnote : ⟨call.callee, ret, call.span⟩ ∈ frame.notes ret :=
    List.mem_map.mpr ⟨call, List.mem_filter.mpr ⟨hcall, by simpa using hne⟩, rfl⟩
  rw [heq, hcloses.settles.rest]
  exact List.mem_filter.mpr ⟨List.mem_append_right _ hnote, by simpa using hne⟩

variable (hs : s.Sound) (ht' : s'.tables.Sound)

include hs ht'

/-- Types that agreed still do so once the placeholder is replaced in both. -/
theorem agrees {a b a' b' : TypeId} (hab : s.Agrees a b)
    (ha : s.tables.types.Settling s'.tables.types frame.symbol ret a a')
    (hb : s.tables.types.Settling s'.tables.types frame.symbol ret b b') : s'.Agrees a' b' := by
  have hw := h.grows.types
  cases hab with
  | refl =>
      rw [ha.unique hb ht'.types.injective]
      exact .refl b'
  | same hsettled hsettled' hsame =>
      rw [ha.eq_of_settled hsettled, hb.eq_of_settled hsettled']
      exact .same (hsettled.mono hw) (hsettled'.mono hw)
        (Tables.same_of_contained hs.tables ht' h.grows.toContained hsame)
  | @assumed assumption hmem hpending =>
      have htype := (hs.assumptions assumption hmem).2
      rw [hb.eq_of_settled htype]
      by_cases heq : assumption.func = frame.symbol
      · rw [ha.eq_of_placeholder (heq ▸ hpending)]
        refine .same (h.settled.mono hw) (htype.mono hw) (ht'.same_symm ?_)
        exact Tables.same_of_contained hs.tables ht' h.grows.toContained (h.verified hmem heq)
      · rw [ha.eq_of_pending hpending heq]
        exact .assumed (h.assumptions hmem heq) (hw _ _ hpending)

theorem returns {result : TypeId} (hresult : s.tables.types.Settled result) {value : Option Expr}
    (hreturns : s.Returns result value) : s'.Returns result value := by
  cases value with
  | none => exact Tables.isVoid_of_contained hs.tables ht' h.grows.toContained hreturns
  | some value =>
      obtain ⟨type, htype, hagrees⟩ := hreturns
      obtain ⟨type', htype', hsettling⟩ := h.typeOf? htype
      exact ⟨_, htype', h.agrees hs ht' hagrees hsettling (.of_settled hresult)⟩

theorem yields {result : TypeId} (hresult : s.tables.types.Settled result) {body : List Stmt}
    (hy : s.Yields result body) : s'.Yields result body :=
  ⟨fun value hvalue => h.returns hs ht' hresult (hy.values value hvalue),
    hy.ends.imp_left (Tables.isVoid_of_contained hs.tables ht' h.grows.toContained), hy.loops⟩

theorem callFits {call callee : Expr} {args : List Expr} (hfits : s.CallFits call callee args) :
    s'.CallFits call callee args := by
  obtain ⟨type, calleeType, argTypes, params, htype, hcallee, hargs, hfunc, haccepts, hsettled⟩ :=
    hfits
  have hcontained := h.grows.toContained
  obtain ⟨type', htype', hsettling⟩ := h.typeOf? htype
  obtain ⟨callee', hcallee', hsettling'⟩ := h.typeOf? hcallee
  refine ⟨_, _, argTypes, params, htype', hcallee', h.typesOf? hargs hsettled, ?_,
    Tables.accepts_of_contained hs.tables ht' hcontained haccepts,
    fun arg harg => (hsettled arg harg).mono hcontained.types⟩
  obtain ⟨typing, htyping, heq⟩ := Option.map_eq_some_iff.mp hcallee
  have hcallable := hs.exprs _ _ htyping
  rw [heq] at hcallable
  rcases hcallable with (hcalleeSettled | ⟨func, -, hpending⟩) | ⟨params', result, hcalleeFunc, -⟩
  · have hconcrete := hs.tables.settled_concrete hcalleeSettled
    have hresult := hs.tables.types.settled_ret hfunc (hconcrete.2 _ _ hfunc)
    rw [hsettling'.eq_of_settled hcalleeSettled, hsettling.eq_of_settled hresult]
    exact Tables.concreteTy?_of_contained hs.tables ht' hcontained hfunc (by simp)
  · rw [Tables.concreteTy?_of_plain hpending (by simp)] at hfunc
    simp at hfunc
  · rw [Tables.concreteTy?_of_plain hcalleeFunc (by simp)] at hfunc
    obtain ⟨rfl, rfl⟩ := Ty.func.inj (Option.some.inj hfunc)
    exact Tables.concreteTy?_of_plain
      (hsettling'.get?_func hs.tables.types hcontained.types hcalleeFunc hsettling) (by simp)

theorem operates {op : BinOp} {lhs rhs : Expr} {left right result left' right' result' : TypeId}
    (hop : s.Operates op lhs rhs left right result)
    (hleft : s.tables.types.Settling s'.tables.types frame.symbol ret left left')
    (hright : s.tables.types.Settling s'.tables.types frame.symbol ret right right')
    (hresult : s.tables.types.Settling s'.tables.types frame.symbol ret result result') :
    s'.Operates op lhs rhs left' right' result' := by
  have hc := h.grows.toContained
  have hbool := hs.tables.types.settled_builtin .bool
  cases hop with
  | @compared operand hsettled hl hr hfits heq =>
      refine .compared (hsettled.mono hc.types) (h.agrees hs ht' hl hleft (.of_settled hsettled))
        (h.agrees hs ht' hr hright (.of_settled hsettled))
        (Tables.operandFits_of_contained hs.tables ht' hc hfits) ?_
      rw [heq] at hresult
      rcases resultType_cases op with hop | hop <;> rw [hop] at hresult ⊢
      · exact hresult.eq_of_settled hsettled
      · exact hresult.eq_of_settled hbool
  | awaited hlhs hrhs heq =>
      refine .awaited (hlhs.mono hc (h.meanings ▸ .refl _)) (hrhs.mono hc (h.meanings ▸ .refl _)) ?_
      rw [heq] at hresult
      rcases resultType_cases op with hop | hop <;> rw [hop] at hresult ⊢
      · exact hresult.unique hleft ht'.types.injective
      · exact hresult.eq_of_settled hbool

/-- What was deduced goes on to hold when the body of a function ends. -/
theorem deduced (hactive : s.tables.InProgress frame.symbol) {item : Occurrence}
    (hitem : s.Deduced item) : s'.Deduced item := by
  cases item with
  | func decl =>
      obtain ⟨func, info, hfunc, hinfo, hdecl, hdone⟩ := hitem
      have hne : func ≠ frame.symbol := by
        rintro rfl
        simp [Tables.InProgress, hinfo, hdone] at hactive
      exact ⟨func, info, h.meanings ▸ hfunc, (h.func? hne).trans hinfo, hdecl, hdone⟩
  | expr e =>
      cases e with
      | literal node value =>
          obtain ⟨type, htype, hty⟩ := hitem
          exact ⟨type, h.typeOf?_settled htype (settled_literal hty), h.grows.types _ _ hty⟩
      | call node callee args => exact h.callFits hs ht' hitem
      | binary node op lhs rhs =>
          obtain ⟨type, left, right, htype, hleft, hright, hop⟩ := hitem
          obtain ⟨type', htype', hsettling⟩ := h.typeOf? htype
          obtain ⟨left', hleft', hsettlingLeft⟩ := h.typeOf? hleft
          obtain ⟨right', hright', hsettlingRight⟩ := h.typeOf? hright
          exact ⟨_, _, _, htype', hleft', hright',
            h.operates hs ht' hop hsettlingLeft hsettlingRight hsettling⟩
      | ternary node cond onTrue onFalse =>
          obtain ⟨type, left, right, htype, hleft, hright, hl, hr⟩ := hitem
          obtain ⟨type', htype', hsettling⟩ := h.typeOf? htype
          obtain ⟨left', hleft', hsettlingLeft⟩ := h.typeOf? hleft
          obtain ⟨right', hright', hsettlingRight⟩ := h.typeOf? hright
          exact ⟨_, _, _, htype', hleft', hright', h.agrees hs ht' hl hsettlingLeft hsettling,
            h.agrees hs ht' hr hsettlingRight hsettling⟩
      | closure node sig body =>
          obtain ⟨closure, info, result, hclosure, hinfo, hresult, hyields⟩ := hitem
          obtain ⟨info', hinfo', hbecomes⟩ := h.grows.closure hinfo
          have hsettled := (hs.tables.kinds _ _ (SymbolTable.closure?_eq_some.mp hinfo)).2.1 _ hresult
          exact ⟨closure, info', result, h.meanings ▸ hclosure, hinfo', hbecomes.ret _ hresult,
            h.yields hs ht' hsettled hyields⟩
      | _ => trivial

theorem recalls : s.Recalls s' := ⟨hs.tables, ht', h.grows.toContained, h.meanings ▸ .refl _⟩

/-- What stands for storage had a known type. -/
theorem valued {e : Expr} (he : s.Valued e) : s'.Valued e := by
  obtain ⟨type, htype, hstores⟩ := he
  obtain ⟨type', htype', hsettling⟩ := h.typeOf? htype
  refine ⟨_, htype', (h.recalls hs ht').storage hstores.storage, fun hassignable => ?_⟩
  have hsettled := hstores.settled hassignable
  exact hsettling.eq_of_settled hsettled ▸ hsettled.mono h.grows.types

/-- A variable never has the placeholder for its type. -/
theorem binds {place : Check.BindingPlace} {binding : Binding} (hbinds : s.Binds place binding) :
    s'.Binds place binding := by
  obtain ⟨symbol, type, hsymbol, hkind, hvalues, hinit⟩ := hbinds
  have hcontained := h.grows.toContained
  refine ⟨symbol, type, h.meanings ▸ hsymbol, hcontained.object hkind,
    hvalues.of_contained hcontained, fun e he => ?_⟩
  obtain ⟨value, hvalue, hagrees⟩ := hinit e he
  obtain ⟨value', hvalue', hsettling⟩ := h.typeOf? hvalue
  exact ⟨_, hvalue', h.agrees hs ht' hagrees hsettling (.of_settled hvalues.settled)⟩

theorem performs {stmt : Stmt} (hstmt : s.Performs stmt) : s'.Performs stmt := by
  refine ⟨fun e he => h.valued hs ht' (hstmt.operands e he), fun e he => ?_, ?_⟩
  · obtain ⟨type, htype, hassignable⟩ := hstmt.targets e he
    obtain ⟨type', htype', -⟩ := h.typeOf? htype
    exact ⟨_, htype', hassignable⟩
  · have hdeclared := hstmt.declared
    cases stmt with
    | bind node binding => exact h.binds hs ht' hdeclared
    | _ => trivial

theorem reached {node : Node} {object : Expr} (hobject : s.Reached node object) :
    s'.Reached node object := by
  have hrecalls := h.recalls hs ht'
  rcases hobject with ⟨space, hnames⟩ | ⟨type, htype, hstorage, hsettled, hmember⟩
  · obtain ⟨space', hnames', -⟩ := hrecalls.names hnames
    exact .inl ⟨space', hnames'⟩
  · exact .inr ⟨type, h.typeOf?_settled htype hsettled, hrecalls.storage hstorage,
      hsettled.mono h.grows.types, hrecalls.member hmember⟩

theorem uses {item : Occurrence} (hitem : s.Uses item) : s'.Uses item :=
  ⟨fun e he => h.valued hs ht' (hitem.operands e he),
    fun stmt hstmt => h.performs hs ht' (hitem.stmts stmt hstmt),
    fun node object name heq => h.reached hs ht' (hitem.object node object name heq)⟩

variable (hactive : s.tables.InProgress frame.symbol)

include hactive

/-- What was found goes on to hold when the body of a function ends. -/
theorem holds {item : Occurrence} (hitem : s.Holds item) : s'.Holds item :=
  ⟨h.deduced hs ht' hactive hitem.deduced, h.uses hs ht' hitem.uses⟩

theorem performed {body : List Stmt} (hbody : s.Performed body) : s'.Performed body :=
  ⟨fun item hitem => h.holds hs ht' hactive (hbody.items item hitem),
    fun stmt hstmt => h.performs hs ht' (hbody.stmts stmt hstmt)⟩

omit hactive

/-- What the body returned has the result type. -/
theorem returns_of_noted {value : Option Expr} (hnoted : s.Noted frame value) :
    s'.Returns ret value := by
  obtain ⟨s₁, hcloses, -⟩ := h.closes
  have hret {result : TypeId} (hexpected : frame.ret.expected = some result) : result = ret := by
    rcases hcloses.expected with heq | ⟨heq, -⟩
    · exact Option.some.inj (hexpected.symm.trans heq)
    · simp [hexpected] at heq
  cases value with
  | none =>
      obtain ⟨result, hexpected, hvoid⟩ := hnoted
      obtain rfl := hret hexpected
      exact Tables.isVoid_of_contained hs.tables ht' h.grows.toContained hvoid
  | some value =>
      obtain ⟨type, htype, ⟨result, hexpected, hagrees⟩ | ⟨call, hcall, hpending⟩⟩ := hnoted
      · obtain rfl := hret hexpected
        exact h.returns hs ht' h.settled ⟨type, htype, hagrees⟩
      · obtain ⟨type', htype', hsettling⟩ := h.typeOf? htype
        refine ⟨_, htype', ?_⟩
        by_cases heq : call.callee = frame.symbol
        · rw [hsettling.eq_of_placeholder (heq ▸ hpending)]
          exact .refl ret
        · rw [hsettling.eq_of_pending hpending heq]
          exact .assumed (h.mem_notes hcall heq) (h.grows.types _ _ hpending)

/-- The body of the function is checked with the others. -/
theorem checked (hactive : s.tables.InProgress frame.symbol) (hchecked : s.Checked)
    {info : FuncInfo} {body : List Stmt} (hinfo : s.tables.symbols.func? frame.symbol = some info)
    (hbody : info.decl.body = some body) (hperformed : s.Performed body)
    (hnoted : ∀ value ∈ Stmt.listReturned body, s.Noted frame value)
    (hends : s.tables.isVoid ret = true ∨ stmtsReturn body = true)
    (hloops : stmtsControlled 0 body = true) : s'.Checked := by
  intro func info' body' hinfo' hdone' hbody'
  by_cases heq : func = frame.symbol
  · subst heq
    obtain ⟨info₁, hinfo₁, -, hret⟩ := h.done
    obtain rfl := Option.some.inj (hinfo₁.symm.trans hinfo')
    obtain ⟨info₂, hinfo₂, hbecomes⟩ := h.grows.func hinfo
    obtain rfl := Option.some.inj (hinfo₂.symm.trans hinfo')
    rw [hbecomes.decl, hbody] at hbody'
    obtain rfl := Option.some.inj hbody'
    exact ⟨h.performed hs ht' hactive hperformed, ret, hret,
      fun value hvalue => h.returns_of_noted hs ht' (hnoted value hvalue),
      hends.imp_left (Tables.isVoid_of_contained hs.tables ht' h.grows.toContained), hloops⟩
  · rw [h.func? heq] at hinfo'
    obtain ⟨hperformed', result, hresult, hyields⟩ := hchecked func info' body' hinfo' hdone' hbody'
    have hsettled := (hs.tables.kinds _ _ (SymbolTable.func?_eq_some.mp hinfo')).2.1 _ hresult
    exact ⟨h.performed hs ht' hactive hperformed', result, hresult, h.yields hs ht' hsettled hyields⟩

end ClosesFunc

/-- What a closure returned has its result type. -/
theorem ClosesClosure.returns_of_noted {type : ExprType}
    (h : ClosesClosure s frame rest ret type s') (hs : s.Sound) (hframe : s.tables.FrameSound frame)
    (hkind : frame.kind = .closure) {value : Option Expr} (hnoted : s.Noted frame value) :
    s'.Returns ret value := by
  have hcarries := h.leads.carries hs h.sound fun node typing hnode => (h.exprs node).trans hnode
  have hret {result : TypeId} (hexpected : frame.ret.expected = some result) : result = ret := by
    rcases h.expected with heq | ⟨heq, -⟩
    · exact Option.some.inj (hexpected.symm.trans heq)
    · simp [hexpected] at heq
  cases value with
  | none =>
      obtain ⟨result, hexpected, hvoid⟩ := hnoted
      obtain rfl := hret hexpected
      exact Tables.isVoid_of_contained hs.tables h.sound.tables hcarries.contained hvoid
  | some value =>
      obtain ⟨type, htype, ⟨result, hexpected, hagrees⟩ | ⟨call, hcall, hpending⟩⟩ := hnoted
      · obtain rfl := hret hexpected
        exact ⟨type, hcarries.typeOf? htype, hcarries.agrees hagrees⟩
      · -- A closure is no function that a call could wait for.
        have hne : call.callee ≠ frame.symbol := by
          intro heq
          obtain ⟨info, hinfo, -⟩ := Option.map_eq_some_iff.mp (hframe.pending call hcall)
          have hresult := hframe.result
          rw [hkind] at hresult
          obtain ⟨closure, hclosure, -⟩ := Option.map_eq_some_iff.mp hresult
          rw [heq, SymbolTable.func?_eq_some] at hinfo
          rw [SymbolTable.closure?_eq_some, hinfo] at hclosure
          simp at hclosure
        have hnote : ⟨call.callee, ret, call.span⟩ ∈ frame.notes ret :=
          List.mem_map.mpr ⟨call, List.mem_filter.mpr ⟨hcall, by simpa using hne⟩, rfl⟩
        exact ⟨type, hcarries.typeOf? htype,
          .assumed (h.notes _ hnote) (hcarries.contained.types _ _ hpending)⟩

end Check

end Stela
