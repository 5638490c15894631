import Stela.Proofs.Check.Loops
import Stela.Proofs.Check.Untyped

/-!
# Deduction of types

What is found about every call, conditional expression, closure and function
that the analysis visits, by induction on its run. A part of the analysis ends
in a state in which it holds, and all later parts carry it on.
-/

namespace Stela

namespace CheckState

variable {s s' s'' : CheckState} {whole items items' rest done done' : List Occurrence}
  {visited visited' visited'' : List Nat} {func : SymbolId}

/-! ## Functions -/

/-- A function that is declared in a body is analyzed after that. -/
theorem Firm.declares {decl : FuncDecl} (h : s.Firm visited whole (decl.items ++ items))
    (hdeclares : Check.Declares s decl func s') : s.Advances whole items s' visited := by
  obtain ⟨info, hinfo, hdecl, hstate⟩ := hdeclares.declared
  have hothers (other : SymbolId) (hne : other ≠ func) := hdeclares.others other hne
  have hcarries : s.Carries s' := by
    refine ⟨h.sound.tables, hdeclares.sound.tables, hdeclares.grows.toContained,
      fun node typing hnode => hdeclares.exprs ▸ hnode, fun other info' hinfo' hdone => ?_,
      hdeclares.assumptions, hdeclares.meanings⟩
    have hne : other ≠ func := by
      rintro rfl
      simp [hdeclares.fresh] at hinfo'
    exact done_of_states (hothers other hne).symm hinfo' hdone
  have huntyped (node : Nat) (hnode : s.exprTypes.get? node = none) :
      s'.exprTypes.get? node = none := hdeclares.exprs ▸ hnode
  refine ⟨hcarries, hdeclares.sound, h.complete.grows hdeclares.grows,
    hcarries.checked h.checked fun other info' hinfo' hdone hbody => ?_,
    h.annotated.mono hcarries.contained fun other info' hinfo' => ?_, ?_,
    h.values.mono hcarries.recalls huntyped, h.counts.of_exprs fun node => by rw [hdeclares.exprs]⟩
  · by_cases heq : other = func
    · subst heq
      obtain rfl := Option.some.inj (hinfo.symm.trans hinfo')
      rw [hdecl] at hbody
      simp [hstate, hbody] at hdone
    · exact done_of_states (hothers other heq) hinfo' hdone
  · by_cases heq : other = func
    · subst heq
      obtain rfl := Option.some.inj (hinfo.symm.trans hinfo')
      exact .inl fun hret => hdeclares.annotated info hinfo (hdecl ▸ hret)
    · exact .inr (func_of_states (hothers other heq) hinfo')
  · have howes : s.Owes whole (Stmt.optionItems decl.body ++ items) := by
      refine h.owes.sublist ?_
      rw [FuncDecl.items_eq, List.append_assoc]
      exact (List.Sublist.refl _).append (List.sublist_append_right _ _)
    refine howes.declares ?_ huntyped fun other hne =>
      unchecked_of_states hdeclares.grows.toContained (hothers other hne)
    simp only [bodyItems, hinfo, hdecl]

/-- The expressions of a body are typed while it is open. -/
theorem Firm.opens (h : s.Firm visited whole items) {info : FuncInfo} {body : List Stmt} {frame : Frame}
    (hfunc : s.tables.symbols.func? func = some info) (hstate : info.state = .unchecked)
    (hbody : info.decl.body = some body) (hopens : Check.OpensFunc s func frame s') :
    s.Advances whole (Stmt.listItems body ++ items) s' visited := by
  have hunchecked : s.Unchecked func := by simp [Unchecked, hfunc, hstate]
  have hactive : ¬ s'.Unchecked func := fun hnot => by
    have hboth := hopens.active.symm.trans hnot
    simp at hboth
  have hcarries : s.Carries s' := by
    refine ⟨h.sound.tables, hopens.sound.tables, hopens.grows.toContained,
      fun node typing hnode => hopens.exprs ▸ hnode, fun other info' hinfo' hdone => ?_,
      hopens.assumptions, hopens.meanings⟩
    have hne : other ≠ func := by
      rintro rfl
      obtain rfl := Option.some.inj (hfunc.symm.trans hinfo')
      simp [hstate] at hdone
    exact done_of_states (hopens.others other hne).symm hinfo' hdone
  have huntyped (node : Nat) (hnode : s.exprTypes.get? node = none) :
      s'.exprTypes.get? node = none := hopens.exprs ▸ hnode
  refine ⟨hcarries, hopens.sound, h.complete.grows hopens.grows,
    hcarries.checked h.checked fun other info' hinfo' hdone _ => ?_,
    h.annotated.mono hcarries.contained fun other info' hinfo' => .inr ?_, ?_,
    h.values.mono hcarries.recalls huntyped, h.counts.of_exprs fun node => by rw [hopens.exprs]⟩
  · have hne : other ≠ func := by
      rintro rfl
      have hactive := hopens.active
      simp [Tables.InProgress, hinfo', hdone] at hactive
    exact done_of_states (hopens.others other hne) hinfo' hdone
  · by_cases heq : other = func
    · exact ⟨info, heq ▸ hfunc⟩
    · exact func_of_states (hopens.others other heq) hinfo'
  · have hitems : s.bodyItems func = Stmt.listItems body := by
      simp only [bodyItems, hfunc, hbody, Stmt.optionItems]
    rw [← hitems]
    refine h.owes.opens hunchecked hactive huntyped fun other hother => ?_
    have hne : other ≠ func := fun heq => hactive (heq ▸ hother)
    exact unchecked_of_states hopens.grows.toContained (hopens.others other hne) hother

/-- Opening a closure types nothing. -/
theorem Firm.opened (h : s.Firm visited whole items) {s₁ : CheckState} {frame : Frame}
    (hopens : Check.Opens s frame s₁ s') : s.Advances whole items s' visited := by
  refine h.leads hopens.sound hopens.leads (fun func => ?_) fun node => ?_
  · rw [← hopens.push]
    exact hopens.calm.tables.states func
  · rw [← hopens.push]
    exact hopens.calm.exprs ▸ rfl

/-- What the body of a function returned is checked when it ends. -/
theorem Firm.closes (h : s.Firm visited whole items) {frame : Frame} {frames : List Frame} {ret : TypeId}
    (hcloses : Check.ClosesFunc s frame frames ret s') (hs' : s'.Sound)
    (hactive : s.tables.InProgress frame.symbol) {info : FuncInfo} {body : List Stmt}
    (hinfo : s.tables.symbols.func? frame.symbol = some info) (hbody : info.decl.body = some body)
    (hperformed : s.Performed body)
    (hnoted : ∀ value ∈ Stmt.listReturned body, s.Noted frame value)
    (hends : s.tables.isVoid ret = true ∨ stmtsReturn body = true)
    (hloops : stmtsControlled 0 body = true) : s'.Firm visited whole items := by
  have hrecalls : s.Recalls s' :=
    ⟨h.sound.tables, hs'.tables, hcloses.grows.toContained, hcloses.meanings ▸ .refl _⟩
  have huntyped (node : Nat) (hnode : s.exprTypes.get? node = none) :
      s'.exprTypes.get? node = none := by
    simpa [hnode] using hcloses.isSome_exprTypes node
  refine ⟨hs', h.complete.grows hcloses.grows, hcloses.checked h.sound hs'.tables hactive h.checked
    hinfo hbody hperformed hnoted hends hloops, h.annotated.mono hrecalls.contained fun other info' hinfo' => .inr ?_,
    h.owes.of_untyped huntyped fun other hother => ?_, h.values.mono hrecalls huntyped,
    h.counts.of_exprs hcloses.isSome_exprTypes⟩
  · by_cases heq : other = frame.symbol
    · exact ⟨info, heq ▸ hinfo⟩
    · exact ⟨info', hcloses.func? heq ▸ hinfo'⟩
  have hne : other ≠ frame.symbol := by
    rintro rfl
    obtain ⟨info', hinfo', hdone, -⟩ := hcloses.done
    simp [Unchecked, hinfo', hdone] at hother
  exact unchecked_of_states hcloses.grows.toContained (congrArg _ (hcloses.func? hne)) hother

/-! ## Parts in sequence -/

/-- What holds around a part of the analysis that visits the items in `done`. -/
structure Gathers (s : CheckState) (whole rest done : List Occurrence) (s' : CheckState)
    (visited' : List Nat) : Prop extends s.Advances whole rest s' visited' where
  holds : ∀ item ∈ done, s'.Holds item

theorem Advances.gathers (h : s.Advances whole items s' visited') :
    s.Gathers whole items [] s' visited' := ⟨h, by simp⟩

theorem Gathers.advances (h : s.Gathers whole items done s' visited')
    (h' : s'.Advances whole items' s'' visited'') : s.Gathers whole items' done s'' visited'' :=
  ⟨h.toAdvances.trans h', fun item hitem => h'.carries.holds (h.holds item hitem)⟩

theorem Gathers.calm (h : s.Gathers whole items done s' visited') (hcalm : s'.Calm s'') :
    s.Gathers whole items done s'' visited' := h.advances (h.firm.calm hcalm)

theorem Gathers.trans (h : s.Gathers whole items done s' visited')
    (h' : s'.Gathers whole items' done' s'' visited'') :
    s.Gathers whole items' (done ++ done') s'' visited'' := by
  refine ⟨h.toAdvances.trans h'.toAdvances, fun item hitem => ?_⟩
  rcases List.mem_append.mp hitem with hitem | hitem
  · exact h'.carries.holds (h.holds item hitem)
  · exact h'.holds item hitem

/-- What is found about an expression, as its context may use it. -/
structure Shows (s : CheckState) (context : ExprContext) (e : Expr) (type : ExprType) : Prop where
  typed : s.typeOf? e = some type
  stores : (∀ args, context ≠ .callee args) → s.Stores e type

theorem Shows.valued {context : ExprContext} {e : Expr} {type : ExprType}
    (h : s.Shows context e type) (hcontext : ∀ args, context ≠ .callee args) : s.Valued e :=
  ⟨type, h.typed, h.stores hcontext⟩

/-- An expression is typed after its parts. -/
theorem Gathers.record {settings : Settings} {e : Expr} {context : ExprContext} {type r : ExprType}
    (h : s.Gathers whole (.expr e :: items) done s' visited') (hs'' : s''.Sound)
    (hrecord : (Check.record e.node context type).Gives settings s' r s'') (hvalue : s'.IsValue e)
    (hstores : (∀ args, context ≠ .callee args) → s'.Stores e type) (huses : s'.Uses (.expr e))
    (hdeduced : s'.Carries s'' → s''.typeOf? e = some type → s''.Deduced (.expr e)) :
    s.Gathers whole items (done ++ [.expr e]) s'' (e.node.id :: visited') ∧
      s''.Shows context e r := by
  obtain ⟨hadvances, htype, rfl⟩ := h.firm.record hs'' hvalue hrecord
  refine ⟨h.trans ⟨hadvances, fun item hitem => ?_⟩, htype,
    fun hcontext => hadvances.carries.recalls.stores (hstores hcontext)⟩
  obtain rfl := List.mem_singleton.mp hitem
  exact ⟨hdeduced hadvances.carries htype, hadvances.carries.uses huses⟩

/-- An expression whose type tells whether it stands for storage is typed. -/
theorem Gathers.store {settings : Settings} {e : Expr} {context : ExprContext} {type r : ExprType}
    (h : s.Gathers whole (.expr e :: items) done s' visited') (hs'' : s''.Sound)
    (hrecord : (Check.record e.node context type).Gives settings s' r s'')
    (hstores : s'.Stores e type) (huses : s'.Uses (.expr e))
    (hdeduced : s'.Carries s'' → s''.typeOf? e = some type → s''.Deduced (.expr e)) :
    s.Gathers whole items (done ++ [.expr e]) s'' (e.node.id :: visited') ∧
      s''.Shows context e r :=
  h.record hs'' hrecord (.stored hstores.storage) (fun _ => hstores) huses hdeduced

theorem Carries.all_valued (h : s.Carries s') {exprs : List Expr} (hexprs : ∀ e ∈ exprs, s.Valued e) :
    ∀ e ∈ exprs, s'.Valued e := fun e he => h.valued (hexprs e he)

theorem Carries.all_perform (h : s.Carries s') {stmts : List Stmt}
    (hstmts : ∀ stmt ∈ stmts, s.Performs stmt) : ∀ stmt ∈ stmts, s'.Performs stmt :=
  fun stmt hstmt => h.performs (hstmts stmt hstmt)

theorem valued_cons {e : Expr} {exprs : List Expr} (h : s.Valued e)
    (hexprs : ∀ e ∈ exprs, s.Valued e) : ∀ e' ∈ e :: exprs, s.Valued e' :=
  List.forall_mem_cons.mpr ⟨h, hexprs⟩

theorem perform_append {stmts stmts' : List Stmt} (h : ∀ stmt ∈ stmts, s.Performs stmt)
    (h' : ∀ stmt ∈ stmts', s.Performs stmt) : ∀ stmt ∈ stmts ++ stmts', s.Performs stmt :=
  List.forall_mem_append.mpr ⟨h, h'⟩

/-- A statement that assigns nothing. -/
theorem performs_of_operands {stmt : Stmt} (hplain : stmt.targets = []) (hdeclared : s.Introduces stmt)
    (h : ∀ e ∈ stmt.operands, s.Valued e) : s.Performs stmt := ⟨h, by simp [hplain], hdeclared⟩

/-- A statement without blocks is its only part. -/
theorem performs_single {stmt : Stmt} (hplain : stmt.parts = [stmt]) (h : s.Performs stmt) :
    ∀ part ∈ stmt.parts, s.Performs part := by
  rw [hplain]
  exact List.forall_mem_singleton.mpr h

/-- A statement that only tests a condition, apart from its blocks. -/
theorem performs_condition {stmt : Stmt} {cond : Expr} (hplain : stmt.targets = [])
    (hdeclared : s.Introduces stmt) (hoperands : stmt.operands = [cond]) (h : s.Valued cond) :
    s.Performs stmt :=
  performs_of_operands hplain hdeclared (hoperands ▸ List.forall_mem_singleton.mpr h)

/-- An expression that is neither a member nor a closure. -/
theorem uses_of_operands {e : Expr} (hplain : (Occurrence.expr e).stmts = [])
    (hmember : ∀ node object name, e ≠ .member node object name)
    (h : ∀ part ∈ e.operands, s.Valued part) : s.Uses (.expr e) :=
  ⟨h, by simp [hplain], fun node object name heq => absurd (Occurrence.expr.inj heq) (hmember _ _ _)⟩

theorem uses_member {node : Node} {object : Expr} {name : Ident} (h : s.Reached node object) :
    s.Uses (.expr (.member node object name)) := by
  refine ⟨by simp [Occurrence.operands, Expr.operands], by simp [Occurrence.stmts],
    fun node' object' name' heq => ?_⟩
  obtain ⟨rfl, rfl, -⟩ := Expr.member.inj (Occurrence.expr.inj heq)
  exact h

/-- A member that is reached through a value. -/
theorem uses_value {node : Node} {object : Expr} {name : Ident} {type : ExprType}
    (htype : s.typeOf? object = some type) (hstorage : s.Storage object type.isAssignable)
    (hsettled : s.tables.types.Settled type.type) (hmember : s.Member node.id type) :
    s.Uses (.expr (.member node object name)) :=
  uses_member (.inr ⟨type, htype, hstorage, hsettled, hmember⟩)

theorem uses_closure {node : Node} {sig : Signature} {body : List Stmt}
    (h : ∀ stmt ∈ Stmt.listParts body, s.Performs stmt) : s.Uses (.expr (.closure node sig body)) :=
  ⟨by simp [Occurrence.operands, Expr.operands], h, fun node object name heq =>
    absurd (Occurrence.expr.inj heq) (by simp)⟩

theorem Notes.append {values values' : List (Option Expr)} (h : s.Notes values)
    (h' : s.Notes values') : s.Notes (values ++ values') := by
  intro frame rest hframe value hvalue
  rcases List.mem_append.mp hvalue with hvalue | hvalue
  · exact h frame rest hframe value hvalue
  · exact h' frame rest hframe value hvalue

theorem notes_nil (s : CheckState) : s.Notes [] := fun _ _ _ _ h => absurd h List.not_mem_nil

end CheckState

namespace Check

open CheckState

variable {settings : Settings} {s s' : CheckState} {visited visited' : List Nat}

/-! ## Single rules -/

/-- Only names and their members are paths to a type or a module. -/
theorem holds_of_staticPath (object : Expr) (hs : s.Sound) {target : SymbolId}
    (h : (staticPath object).Gives settings s (some target) s') :
    ∀ item ∈ object.items, s'.Holds item := by
  induction object using staticPath.induct generalizing s s' target with
  | case1 node name =>
      intro item hitem
      rw [Expr.items] at hitem
      obtain rfl := List.mem_singleton.mp hitem
      exact ⟨trivial, uses_of_operands rfl (by simp) (by simp [Expr.operands])⟩
  | case2 node object member ih =>
      intro item hitem
      rw [Expr.items] at hitem
      rcases List.mem_append.mp hitem with hitem | hitem
      · obtain ⟨parent, scope, symbol, s₁, hobject, -, hfinish⟩ := staticPath_member_gives h
        have hsound := (calm_staticPath _ hs hobject).sound
        have hcalm := calm_staticPath_finish hsound hfinish
        have hcarries := hcalm.leads.carries hsound hcalm.sound fun _ _ hnode => hcalm.exprs ▸ hnode
        exact hcarries.holds (ih hs hobject item hitem)
      · obtain rfl := List.mem_singleton.mp hitem
        obtain ⟨kind, -, hnames⟩ := names_staticPath _ hs h
        cases hnames with
        | member hmodule => exact ⟨trivial, uses_member (.inl ⟨_, hmodule⟩)⟩
  | case3 e hident hmember =>
      rw [staticPath.eq_3 _ hident hmember] at h
      simp at h

/-- A type that is not known agrees with what it is assumed to be. -/
theorem agrees_noteAssumption {func : SymbolId} {pending type : TypeId} {span : Span}
    (hpending : s.tables.types.pending? pending = some func)
    (h : (noteAssumption func type span).Gives settings s () s') : s'.Agrees pending type := by
  obtain rfl := gives_update.mp h
  exact @Agrees.assumed _ _ ⟨func, type, span⟩ (by simp) (TypeTable.pending?_eq_some.mp hpending)

/-- The branches of a conditional expression are compared once both have types. -/
theorem agrees_settlePending (hs : s.Sound) {left right left' right' : ExprType} {span : Span}
    (hleft : s.tables.Held left.type) (hright : s.tables.Held right.type)
    (h : (settlePending left right span).Gives settings s (left', right') s')
    (hsame : s'.tables.same left'.type right'.type = true) :
    s'.Agrees left.type left'.type ∧ s'.Agrees right.type left'.type := by
  rcases settlePending_gives h with ⟨func, hfunc, hnone, hnote, rfl, rfl⟩ |
    ⟨func, hnone, hfunc, hnote, rfl, rfl⟩ | ⟨hboth, rfl, rfl, rfl⟩
  · exact ⟨agrees_noteAssumption hfunc hnote, .refl _⟩
  · exact ⟨.refl _, agrees_noteAssumption hfunc hnote⟩
  · refine ⟨.refl _, ?_⟩
    cases hfunc : s.tables.types.pending? left'.type with
    | none =>
        rw [hfunc, Option.isSome_none, eq_comm, Option.isSome_eq_false_iff, Option.isNone_iff_eq_none]
          at hboth
        exact .same (hright.settled hboth) (hleft.settled hfunc) (hs.tables.same_symm hsame)
    | some func =>
        rw [hfunc, Option.isSome_some, eq_comm, Option.isSome_iff_exists] at hboth
        obtain ⟨func', hfunc'⟩ := hboth
        rw [hs.tables.eq_of_same_pending (TypeTable.pending?_eq_some.mp hfunc)
          (TypeTable.pending?_eq_some.mp hfunc') hsame]
        exact .refl _

/-- The operands of a binary operation are compared once they have types, unless both wait. -/
theorem operates_finishBinary (hs : s.Sound) {op : BinOp} {left right type : ExprType}
    {lhs rhs : Expr} {span : Span} {callee callee' : Prop} (hleft : s.tables.Held left.type)
    (hright : s.tables.Held right.type) (hlhs : s.Stems left.type (s.Waits lhs) callee)
    (hrhs : s.Stems right.type (s.Waits rhs) callee')
    (h : (finishBinary op left right span).Gives settings s type s') :
    s'.Operates op lhs rhs left.type right.type type.type := by
  obtain ⟨left', right', hsettle, htype, hfits⟩ := finishBinary_gives h
  obtain ⟨-, hheld, -⟩ := held_settlePending hs hleft hright hsettle
  rcases hheld with hsettled | ⟨func, -, hpending⟩
  · obtain ⟨hfits, hsame⟩ := hfits hsettled.pending?_eq_none
    obtain ⟨hl, hr⟩ := agrees_settlePending hs hleft hright hsettle hsame
    exact .compared hsettled hl hr hfits htype
  · obtain ⟨rfl, rfl, func', hright'⟩ := settlePending_pending hsettle hpending
    exact .awaited (hlhs.of_pending hpending) (hrhs.of_pending hright') htype

/-- A variable is declared once its first value is typed. -/
theorem binds_finishBinding (hs : s.Sound) (hcomplete : s.tables.Complete) {place : BindingPlace}
    {binding : Binding} {declared : Option TypeId} {init : Option (Expr × ExprType)}
    (hdeclared : ∀ type, declared = some type → s.tables.types.Settled type)
    (hinit : ∀ p, init = some p → s.tables.types.Settled p.2.type)
    (htyped : ∀ e ∈ binding.init, ∃ value, init = some (e, value) ∧ s.typeOf? e = some value)
    (h : (finishBinding place binding declared init).Gives settings s () s') :
    s.Calm s' ∧ s'.Binds place binding := by
  obtain ⟨type, symbol, s₁, hsettled, hvoid, hsame, hdeclare, hrest⟩ :=
    finishBinding_gives hs hdeclared hinit h
  obtain ⟨hdeclare, hsymbol, hkind⟩ := calm_declareVariable hs hsettled hdeclare
  have hrest := hrest hdeclare.sound (hsettled.mono hdeclare.tables.types)
  have hcarries (s₂ s₃ : CheckState) (hs : s₂.Sound) (hcalm : s₂.Calm s₃) : s₂.Carries s₃ :=
    hcalm.leads.carries hs hcalm.sound fun _ _ hnode => hcalm.exprs ▸ hnode
  have hstart : s₁.Binds place binding := by
    refine ⟨symbol, type, hsymbol, hkind, ⟨s.tables, hs.tables, hcomplete,
      hdeclare.tables.toContained, hsettled, hvoid⟩, fun e he => ?_⟩
    obtain ⟨value, heq, hvalue⟩ := htyped e he
    have hdeclare := hcarries s s₁ hs hdeclare
    refine ⟨value, hdeclare.typeOf? hvalue, hdeclare.agrees ?_⟩
    exact .same (hinit _ heq) hsettled (hs.tables.same_symm (hsame e value heq))
  exact ⟨hdeclare.trans hrest, (hcarries s₁ s' hdeclare.sound hrest).binds hstart⟩

/-- A returned value is noted with the body, or in what is assumed about a call. -/
theorem notes_checkReturned {frame : Frame} {rest : List Frame} (hframes : s.frames = frame :: rest)
    (hs : s.Sound) {value : Expr} {returned : ExprType} {span : Span}
    (htype : s.typeOf? value = some returned) (hheld : s.tables.Held returned.type)
    (h : (checkReturned frame value returned span).Gives settings s () s') :
    s'.Notes [some value] := by
  have hsteps := steps_checkReturned hframes hs hheld h
  have hcarries := hsteps.leads.carries hs hsteps.sound fun node typing hnode =>
    hsteps.exprs ▸ hnode
  have hframe := hs.frames frame (hframes ▸ List.mem_cons_self)
  have htransfer {s s' : CheckState} (hs : s.Sound) {type : TypeId}
      (htype : s.tables.types.Settled type) (h : if s.tables.isVoid type then s = s' else
        (recordTransfer type .ret value returned).Gives settings s () s') :
      s'.frames = s.frames := by
    split at h
    · rw [h]
    · exact (calm_recordTransfer hs htype h).frames
  intro frame' rest' hframe' value' hvalue'
  obtain rfl := List.mem_singleton.mp hvalue'
  refine ⟨returned, hcarries.typeOf? htype, ?_⟩
  cases checkReturned_gives hframes h with
  | @noted func type hexpected hpending hnote =>
      have hagrees := agrees_noteAssumption hpending hnote
      obtain rfl := gives_update.mp hnote
      obtain ⟨rfl, -⟩ := List.cons.inj (hframes.symm.trans hframe')
      exact .inl ⟨type, hexpected, hagrees⟩
  | held hexpected hpending hs' =>
      subst hs'
      obtain ⟨rfl, -⟩ := List.cons.inj hframe'
      exact .inr ⟨_, List.mem_append_right _ (List.mem_singleton_self _),
        TypeTable.pending?_eq_some.mp hpending⟩
  | @checked type hexpected hknown hsame h' =>
      have hsettled := hs.tables.settled_result (hexpected ▸ hframe.result)
      rw [htransfer hs hsettled h', hframes] at hframe'
      obtain ⟨rfl, -⟩ := List.cons.inj hframe'
      refine .inl ⟨type, hexpected, hcarries.agrees ?_⟩
      exact .same (hheld.settled hknown) hsettled (hs.tables.same_symm hsame)
  | deduced hexpected hknown hdeduce h' =>
      have hs₁ := steps_deduceReturn hframes hs hexpected (hheld.settled hknown) hdeduce
      have hsettled := (hheld.settled hknown).mono hs₁.leads.grows.types
      rw [htransfer hs₁.sound hsettled h'] at hframe'
      obtain rfl := deduceReturn_gives hframes hdeduce
      obtain ⟨rfl, -⟩ := List.cons.inj hframe'
      exact .inl ⟨returned.type, rfl, .refl _⟩

theorem notes_checkBareReturn {frame : Frame} {rest : List Frame}
    (hframes : s.frames = frame :: rest) (hs : s.Sound) {span : Span}
    (h : (checkBareReturn frame span).Gives settings s () s') : s'.Notes [none] := by
  have hsteps := steps_checkBareReturn hframes hs h
  intro frame' rest' hframe' value' hvalue'
  obtain rfl := List.mem_singleton.mp hvalue'
  rcases checkBareReturn_gives h with ⟨type, hexpected, hvoid, rfl⟩ | ⟨hexpected, hdeduce⟩
  · obtain ⟨rfl, -⟩ := List.cons.inj (hframes.symm.trans hframe')
    exact ⟨type, hexpected, hvoid⟩
  · obtain rfl := deduceReturn_gives hframes hdeduce
    obtain ⟨rfl, -⟩ := List.cons.inj hframe'
    refine ⟨Builtin.void.typeId, rfl, ?_⟩
    rw [Tables.isVoid, Tables.concrete_of_plain (hsteps.sound.tables.types.builtin .void) (by simp)]
    exact beq_self_eq_true _

/-- A function that is declared and done holds what its body holds. -/
theorem holds_of_funcDone {decl : FuncDecl} (hchecked : s.Checked) (h : s.FuncDone decl) :
    ∀ item ∈ decl.items, s.Holds item := by
  obtain ⟨func, info, hfunc, hinfo, rfl, hdone⟩ := h
  intro item hitem
  rw [FuncDecl.items_eq] at hitem
  rcases List.mem_append.mp hitem with hitem | hitem
  · cases hbody : info.decl.body with
    | none => simp [hbody, Stmt.optionItems] at hitem
    | some body =>
        rw [hbody, Stmt.optionItems] at hitem
        exact (hchecked func info body hinfo hdone hbody).1.items item hitem
  · obtain rfl := List.mem_singleton.mp hitem
    refine ⟨⟨func, info, hfunc, hinfo, rfl, hdone⟩, by simp [Occurrence.operands],
      fun stmt hstmt => ?_, by simp⟩
    cases hbody : info.decl.body with
    | none => simp [Occurrence.stmts, hbody, Stmt.optionParts] at hstmt
    | some body =>
        rw [Occurrence.stmts, hbody, Stmt.optionParts] at hstmt
        exact (hchecked func info body hinfo hdone hbody).1.stmts stmt hstmt

/-- A function that was declared and analyzed is checked together with all it holds. -/
theorem holds_of_analyzed {decl : FuncDecl} {func : SymbolId} {s₁ : CheckState}
    (hdeclares : Declares s decl func s₁) (hanalyzed : Analyzed s₁ func s') (hchecked : s'.Checked) :
    ∀ item ∈ decl.items, s'.Holds item := by
  obtain ⟨info, hinfo, hdecl, hstate⟩ := hdeclares.declared
  obtain ⟨info', hinfo', hbecomes⟩ := hanalyzed.leads.grows.func hinfo
  have hdone := hanalyzed.done
    (by cases hbody : decl.body <;> simp [Tables.InProgress, hinfo, hstate, hbody]) info' hinfo'
  exact holds_of_funcDone hchecked ⟨func, info', hanalyzed.leads.meanings.decls _ _ hdeclares.symbol,
    hinfo', hbecomes.decl.trans hdecl, hdone⟩

/-- A body that is opened, analyzed and closed is checked, and no expression that had a type before
has another one after it. -/
theorem advances_func {func : SymbolId} {info : FuncInfo} {body : List Stmt} {frame frame' : Frame}
    {ret : TypeId} {s₁ s₂ : CheckState} {rest : List Occurrence} (hfirm : s.Firm visited whole rest)
    (hfunc : s.tables.symbols.func? func = some info) (hstate : info.state = .unchecked)
    (hbody : info.decl.body = some body) (hopens : OpensFunc s func frame s₁)
    (hkeeps : s₁.Keeps s₂) (hframes : s₂.frames = frame' :: s.frames)
    (hbecomes : frame.Becomes frame') (hcloses : ClosesFunc s₂ frame' s.frames ret s')
    (hopened : s.Advances whole (Stmt.listItems body ++ rest) s₁ visited)
    (hran : s₁.Gathers whole rest (Stmt.listItems body) s₂ visited')
    (hperform : ∀ stmt ∈ Stmt.listParts body, s₂.Performs stmt)
    (hnotes : s₂.Notes (Stmt.listReturned body))
    (hends : s₂.tables.isVoid ret = true ∨ stmtsReturn body = true)
    (hloops : stmtsControlled 0 body = true) : s.Advances whole rest s' visited' := by
  have hanalyzed := analyzed_func hfirm.sound hfunc hstate hopens hkeeps hbecomes hcloses
  have hsymbol : frame'.symbol = func := hbecomes.symbol.trans hopens.symbol
  have hcarries := hopened.carries.trans hran.carries
  have hactive : s₂.tables.InProgress frame'.symbol :=
    hsymbol ▸ hkeeps.leads.progress func hopens.active
  obtain ⟨info', hinfo', hinfoBecomes⟩ := hcarries.contained.func hfunc
  refine ⟨hanalyzed.leads.carries hfirm.sound hanalyzed.sound fun node typing hnode => ?_,
    hran.firm.closes hcloses hanalyzed.sound hactive (hsymbol ▸ hinfo') (hinfoBecomes.decl ▸ hbody)
      ⟨hran.holds, hperform⟩ (hnotes frame' _ hframes) hends hloops⟩
  obtain ⟨s₃, hcloses₃, -, heq⟩ := hcloses.closes
  have hnot : ¬ s.tables.InProgress frame'.symbol := by
    simp [hsymbol, Tables.InProgress, hfunc, hstate]
  rw [heq]
  exact hcloses₃.kept hfirm.sound hnot hcarries.contained.types hnode (hcarries.kept node typing hnode)

/-! ## All rules -/

/-- The expressions and functions that a part of the analysis visits. -/
def Task.items : Task → List Occurrence
  | .expr _ _ e _ => e.items
  | .args exprs _ => Expr.listItems exprs
  | .elements _ exprs => Expr.listItems exprs
  | .stmt part => part.items
  | .stmts parts => Stmt.listItems parts
  | .binding _ part => part.items
  | .body _ | .result .. | .funcType .. | .callee .. | .value .. | .entries .. => []

/-- What a part of the analysis finds besides what holds of the items it visits. -/
def Task.Found (s : CheckState) : Task → Prop
  | .expr context _ e type => s.Shows context e type
  | .args exprs types =>
    exprs.map s.typeOf? = (types.map (·.2)).map some ∧ ∀ e ∈ exprs, s.Valued e
  | .elements _ exprs => ∀ e ∈ exprs, s.Valued e
  | .binding place part => (∀ e ∈ part.init.toList, s.Valued e) ∧ s.Binds place part
  | .stmt part => s.Notes part.returned ∧ ∀ stmt ∈ part.parts, s.Performs stmt
  | .stmts parts =>
    s.Notes (Stmt.listReturned parts) ∧ ∀ stmt ∈ Stmt.listParts parts, s.Performs stmt
  | .callee node _ _ _ => ∃ kind, s.Means node kind ∧ kind.isSpace = false
  | .value node _ type => ∃ kind, s.Means node kind ∧ kind.writable? = some type.isAssignable
  | .entries node _ context type => (∃ kind, s.Means node kind ∧ kind.isSpace = false) ∧
    ((∀ args, context ≠ .callee args) →
      ∃ kind, s.Means node kind ∧ kind.writable? = some type.isAssignable)
  | .body _ | .result .. | .funcType .. => True

/-- A function that is named as a value is not assignable. -/
theorem Runs.isAssignable_func {node : Nat} {first : SymbolId} {rest : List SymbolId}
    {context : ExprContext} {type : ExprType}
    (run : Runs settings (.entries node (first :: rest) context type) s visited s' visited')
    (hfunc : (s.tables.symbols.func? first).isSome = true)
    (hcontext : ∀ args, context ≠ .callee args) : type.isAssignable = false := by
  cases run with
  | entriesCallee _ => exact absurd rfl (hcontext _)
  | entriesValue _ runValue =>
      cases runValue with
      | valueObject hkind _ _ => simp [SymbolTable.func?, hkind] at hfunc
      | valueFunc => rfl

/-- Whatever the analysis visits is found to hold, by induction on its run. -/
theorem Runs.deduces {task : Task} (run : Runs settings task s visited s' visited')
    (hready : task.Ready s.tables) (hs' : s'.Sound) {rest : List Occurrence}
    (hfirm : s.Firm visited whole (task.items ++ rest)) :
    s.Gathers whole rest task.items s' visited' ∧ task.Found s' := by
  induction run generalizing rest with
  | resultNone _ => exact ⟨hfirm.refl.gathers, trivial⟩
  | resultKnown _ _ => exact ⟨hfirm.refl.gathers, trivial⟩
  | resultAnalyzed _ _ _ _ ih => exact ⟨(ih trivial hs' hfirm).1, trivial⟩
  | resultPending hfunc _ hstate hintern =>
      have hcalm := (held_pending hfirm.sound hfunc hstate hintern).1
      exact ⟨(hfirm.calm hcalm).gathers, trivial⟩
  | resultMissing _ _ _ => exact ⟨hfirm.refl.gathers, trivial⟩
  | funcType runResult hintern ih =>
      obtain ⟨hstays, hret⟩ := runResult.preserves hfirm.sound trivial
      obtain ⟨hresult, -⟩ := ih trivial hstays.sound hfirm
      exact ⟨hresult.calm (callable_funcType hfirm.sound hstays hret hintern).1, trivial⟩
  | calleeBuiltin hsurvivors huse hkind hinst =>
      have hsurvivors := calm_survivors _ hfirm.sound hready hsurvivors
      have hcalm := hsurvivors.trans (calm_useSymbol hsurvivors.sound huse)
      have hinst := (settled_instantiate hcalm.sound
        (fun a ha => (hready a ha).mono hcalm.tables.types) hinst).1
      exact ⟨(hfirm.calm (hcalm.trans hinst)).gathers,
        (hinst.recalls hcalm.sound).means_isSpace ⟨_, means_of_useSymbol huse hkind, rfl⟩⟩
  | calleeObject hsurvivors huse hkind hcapture =>
      have hsurvivors := calm_survivors _ hfirm.sound hready hsurvivors
      have hcalm := hsurvivors.trans (calm_useSymbol hsurvivors.sound huse)
      have hcapture := calm_noteCapture hcalm.sound hcapture
      exact ⟨(hfirm.calm (hcalm.trans hcapture)).gathers,
        (hcapture.recalls hcalm.sound).means_isSpace ⟨_, means_of_useSymbol huse hkind, rfl⟩⟩
  | calleeFunc hsurvivors huse _ _ _ _ ih =>
      have hmeans := isSpace_of_chosen hfirm.sound hready hsurvivors huse
      have hsurvivors := calm_survivors _ hfirm.sound hready hsurvivors
      have hcalm := hfirm.calm (hsurvivors.trans (calm_useSymbol hsurvivors.sound huse))
      have hfunc := (ih trivial hs' hcalm.firm).1
      exact ⟨hcalm.gathers.trans hfunc, hfunc.carries.recalls.means_isSpace hmeans⟩
  | valueObject hkind huse hcapture =>
      have hcalm := calm_useSymbol hfirm.sound huse
      have hcapture := calm_noteCapture hcalm.sound hcapture
      exact ⟨(hfirm.calm (hcalm.trans hcapture)).gathers,
        (hcapture.recalls hcalm.sound).means_value (means_useSymbol hkind huse) rfl⟩
  | valueFunc hkind huse _ _ _ ih =>
      have hcalm := hfirm.calm (calm_useSymbol hfirm.sound huse)
      have hfunc := (ih trivial hs' hcalm.firm).1
      exact ⟨hcalm.gathers.trans hfunc,
        hfunc.carries.recalls.means_value (means_useSymbol hkind huse) rfl⟩
  | entriesCallee _ ih =>
      obtain ⟨hgathers, hmeans⟩ := ih hready hs' hfirm
      exact ⟨hgathers, hmeans, fun hnot => absurd rfl (hnot _)⟩
  | entriesValue _ _ ih =>
      obtain ⟨hgathers, kind, hmeans, hwritable⟩ := ih trivial hs' hfirm
      exact ⟨hgathers, ⟨kind, hmeans, SymbolKind.isSpace_of_writable? hwritable⟩,
        fun _ => ⟨kind, hmeans, hwritable⟩⟩
  | literal htype hrecord =>
      obtain ⟨hcalm, hty⟩ := calm_literalType hfirm.sound htype
      exact (hfirm.calm hcalm).gathers.store hs' hrecord (stores_fresh rfl rfl)
        (uses_of_operands rfl (by simp) (by simp [Expr.operands]))
        fun hcarries htyped => ⟨_, htyped, hcarries.contained.types _ _ hty⟩
  | identCallee runCallee hrecord ih =>
      obtain ⟨hstays, -⟩ := runCallee.preserves hfirm.sound hready.1
      obtain ⟨hcallee, kind, hmeans, hvalue⟩ := ih hready.1 hstays.sound hfirm
      exact hcallee.record hs' hrecord (.meant hmeans hvalue) (fun hnot => absurd rfl (hnot _))
        (uses_of_operands rfl (by simp) (by simp [Expr.operands])) fun _ _ => trivial
  | identValue _ _ runValue hrecord ih =>
      obtain ⟨hstays, hsettled⟩ := runValue.preserves hfirm.sound trivial
      obtain ⟨hvalue, kind, hmeans, hwritable⟩ := ih trivial hstays.sound hfirm
      exact hvalue.store hs' hrecord ⟨.name hmeans hwritable, fun _ => hsettled⟩
        (uses_of_operands rfl (by simp) (by simp [Expr.operands])) fun _ _ => trivial
  | memberModule hpath hmodule runEntries hrecord ih =>
      simp only [Task.items, Expr.items, List.append_assoc, List.singleton_append] at hfirm
      obtain ⟨space, hspace, hnames⟩ := names_staticPath _ hfirm.sound hpath
      obtain rfl := Option.some.inj (hmodule.symm.trans hspace)
      have hcalm := calm_staticPath _ hfirm.sound hpath
      have hobject : Gathers _ _ _ _ _ _ :=
        ⟨hfirm.drop.calm hcalm, holds_of_staticPath _ hfirm.sound hpath⟩
      have hready' := ready_of_stays hready.1 hcalm.stays
      obtain ⟨hstays, -, hsettled⟩ := runEntries.preserves hcalm.sound hready'
      obtain ⟨hentries, ⟨kind, hmeans, hspace⟩, hvalue⟩ := ih hready' hstays.sound hobject.firm
      have hnames' := hentries.carries.recalls.names_module hnames
      refine (hobject.advances hentries.toAdvances).record hs' hrecord (.meant hmeans hspace)
        (fun hcontext => ?_) (uses_member (.inl ⟨_, hnames'⟩)) fun _ _ => trivial
      obtain ⟨kind, hmeans, hwritable⟩ := hvalue hcontext
      exact ⟨.qualified hnames' hmeans hwritable, fun _ => hsettled hcontext⟩
  | memberCase hpath htype _ _ _ huse _ hrecord =>
      simp only [Task.items, Expr.items, List.append_assoc, List.singleton_append] at hfirm
      obtain ⟨space, hnames, hspace⟩ := names_typeOfSymbol hfirm.sound hpath htype
      have hcalm := calm_staticPath _ hfirm.sound hpath
      have hobject : Gathers _ _ _ _ _ _ :=
        ⟨hfirm.drop.calm hcalm, holds_of_staticPath _ hfirm.sound hpath⟩
      have htype := (written_typeOfSymbol hcalm.sound htype).1
      have huse := calm_useSymbol htype.sound huse
      obtain ⟨space', hnames', hbecomes⟩ := (huse.recalls htype.sound).names hnames
      exact ((hobject.calm htype).calm huse).store hs' hrecord
        ⟨.static hnames' (hbecomes.type?.trans hspace), by simp⟩ (uses_member (.inl ⟨space', hnames'⟩))
        fun _ _ => trivial
  | memberStatic hpath htype _ hrows hstatic _ runEntries hrecord ih =>
      simp only [Task.items, Expr.items, List.append_assoc, List.singleton_append] at hfirm
      obtain ⟨space, hnames, hspace⟩ := names_typeOfSymbol hfirm.sound hpath htype
      have hcalm := calm_staticPath _ hfirm.sound hpath
      have hobject : Gathers _ _ _ _ _ _ :=
        ⟨hfirm.drop.calm hcalm, holds_of_staticPath _ hfirm.sound hpath⟩
      have htype := (written_typeOfSymbol hcalm.sound htype).1
      have howner := hobject.calm htype
      have hready' := ready_of_stays hready.1 (hcalm.trans htype).stays
      obtain ⟨hstays, -⟩ := runEntries.preserves htype.sound hready'
      obtain ⟨hentries, ⟨kind, hmeans, hvalue⟩, -⟩ := ih hready' hstays.sound howner.firm
      obtain ⟨space', hnames', hbecomes⟩ := hentries.carries.recalls.names hnames
      refine (howner.advances hentries.toAdvances).record hs' hrecord (.meant hmeans hvalue)
        (fun hcontext => ?_) (uses_member (.inl ⟨space', hnames'⟩)) fun _ _ => trivial
      have hvalue := runEntries.isAssignable_func (isSome_func_of_static htype.sound hrows hstatic)
        hcontext
      exact ⟨hvalue ▸ .static hnames' (hbecomes.type?.trans hspace), by simp [hvalue]⟩
  | memberField hpath runObject hknown _ _ _ hkind huse hrecord ih =>
      simp only [Task.items, Expr.items, List.append_assoc, List.singleton_append] at hfirm
      have hpath := hfirm.calm (calm_staticPath _ hfirm.sound hpath)
      obtain ⟨hstays, hheld⟩ := runObject.preserves hpath.firm.sound ⟨trivial, by simp⟩
      obtain ⟨hobject, hshows⟩ := ih ⟨trivial, by simp⟩ hstays.sound hpath.firm
      have hcalm := calm_useSymbol hstays.sound huse
      have hfield := hobject.firm.calm hcalm
      have hstorage := hfield.carries.recalls.storage (hshows.stores (by simp)).storage
      have hsettled := (Tables.Held.settled hheld hknown).mono hcalm.tables.types
      have hfieldType : TypeTable.Settled _ _ := hstays.sound.tables.kinds _ _ hkind
      exact ((hpath.gathers.trans hobject).advances hfield).store hs' hrecord
        ⟨.part hstorage, fun _ => hfieldType.mono hcalm.tables.types⟩
        (uses_value (hfield.carries.typeOf? hshows.typed) hstorage hsettled
          (.inr ⟨_, means_useSymbol hkind huse, by simp [SymbolKind.writesReceiver]⟩))
        fun _ _ => trivial
  | memberMethod hpath runObject hknown _ _ _ _ _ runCallee hwrites hrecord ihObject ihCallee =>
      simp only [Task.items, Expr.items, List.append_assoc, List.singleton_append] at hfirm
      have hcalm := calm_staticPath _ hfirm.sound hpath
      have hpath := hfirm.calm hcalm
      obtain ⟨hstays, hheld⟩ := runObject.preserves hcalm.sound ⟨trivial, by simp⟩
      obtain ⟨hobject, hshows⟩ := ihObject ⟨trivial, by simp⟩ hstays.sound hpath.firm
      have hready' := ready_of_stays hready.1 (hcalm.stays.trans hstays)
      obtain ⟨hstays', -⟩ := runCallee.preserves hstays.sound hready'
      obtain ⟨hcallee, kind, hmeans, hvalue⟩ := ihCallee hready' hstays'.sound hobject.firm
      have hcarries := hcallee.carries
      have hstorage := hcarries.recalls.storage (hshows.stores (by simp)).storage
      have hsettled := (Tables.Held.settled hheld hknown).mono hcarries.contained.types
      exact ((hpath.gathers.trans hobject).advances hcallee.toAdvances).record hs' hrecord
        (.meant hmeans hvalue) (fun hnot => absurd rfl (hnot _))
        (uses_value (hcarries.typeOf? hshows.typed) hstorage hsettled
          (member_of_method ⟨kind, hmeans⟩ hwrites)) fun _ _ => trivial
  | memberHost hpath runObject hknown hhost hkind hfield hrecord ih =>
      simp only [Task.items, Expr.items, List.append_assoc, List.singleton_append] at hfirm
      have hpath := hfirm.calm (calm_staticPath _ hfirm.sound hpath)
      obtain ⟨hstays, hheld⟩ := runObject.preserves hpath.firm.sound ⟨trivial, by simp⟩
      obtain ⟨hobject, hshows⟩ := ih ⟨trivial, by simp⟩ hstays.sound hpath.firm
      have hstorage := (hshows.stores (by simp)).storage
      have hsettled := (hstays.sound.tables.kinds _ _ hkind).2 _ (List.mem_of_find?_eq_some hfield)
      exact (hpath.gathers.trans hobject).store hs' hrecord ⟨.part hstorage, fun _ => hsettled⟩
        (uses_value hshows.typed hstorage (Tables.Held.settled hheld hknown) (.inl ⟨_, hhost⟩))
        fun _ _ => trivial
  | call runArgs runCallee hfinish hrecord ihArgs ihCallee =>
      simp only [Task.items, Expr.items, List.append_assoc, List.singleton_append] at hfirm
      obtain ⟨hstays, hsettled⟩ := runArgs.preserves hfirm.sound trivial
      obtain ⟨hargs, hargTypes, hvalued⟩ := ihArgs trivial hstays.sound hfirm
      have hcallee := ready_callee hsettled
      obtain ⟨hstays', hcallable⟩ := runCallee.preserves hstays.sound ⟨hcallee, by simp⟩
      obtain ⟨hcallee, hshows⟩ := ihCallee ⟨hcallee, by simp⟩ hstays'.sound hargs.firm
      have hcalm := (held_finishCall hstays'.sound hcallable hfinish).1
      obtain ⟨params, ret, -, hfunc, haccepts, -, rfl⟩ := finishCall_gives hfinish
      have hparts := (hcallee.firm.calm hcalm).carries
      have hvalued := (hcallee.carries.trans hparts).all_valued hvalued
      refine ((hargs.trans hcallee).calm hcalm).store hs' hrecord (stores_fresh rfl rfl)
        (uses_of_operands rfl (by simp) hvalued) fun hcarries htype => ?_
      have hlater := hparts.trans hcarries
      refine ⟨_, _, _, params, htype, hlater.typeOf? hshows.typed,
        (hcallee.carries.trans hlater).typesOf? hargTypes,
        Tables.concreteTy?_of_contained hlater.before hlater.after hlater.contained hfunc (by simp),
        Tables.accepts_of_contained hlater.before hlater.after hlater.contained haccepts,
        fun arg harg => ?_⟩
      obtain ⟨p, hp, rfl⟩ := List.mem_map.mp harg
      exact ((hsettled p hp).mono hcallee.carries.contained.types).mono hlater.contained.types
  | index runBase _ helement runIndex _ _ hrecord ihBase ihIndex =>
      simp only [Task.items, Expr.items, List.append_assoc, List.singleton_append] at hfirm
      obtain ⟨hstays, -⟩ := runBase.preserves hfirm.sound ⟨trivial, by simp⟩
      obtain ⟨hbase, hshows⟩ := ihBase ⟨trivial, by simp⟩ hstays.sound hfirm
      obtain ⟨hstays', -⟩ := runIndex.preserves hstays.sound ⟨trivial, by simp⟩
      obtain ⟨hindex, hshows'⟩ := ihIndex ⟨trivial, by simp⟩ hstays'.sound hbase.firm
      have hstores := hindex.carries.recalls.stores (hshows.stores (by simp))
      have hsettled := mono_of_stays hstays' (hstays.sound.tables.types.settled_element helement)
      exact (hbase.trans hindex).store hs' hrecord ⟨.element hstores.storage, fun _ => hsettled⟩
        (uses_of_operands rfl (by simp) (valued_cons (hindex.carries.valued (hshows.valued (by simp)))
          (valued_cons (hshows'.valued (by simp)) (by simp)))) fun _ _ => trivial
  | unary runOperand _ hop hrecord ih =>
      simp only [Task.items, Expr.items, List.append_assoc, List.singleton_append] at hfirm
      obtain ⟨hstays, -⟩ := runOperand.preserves hfirm.sound ⟨trivial, by simp⟩
      obtain ⟨hoperand, hshows⟩ := ih ⟨trivial, by simp⟩ hstays.sound hfirm
      obtain ⟨rfl, -⟩ := checkUnary_gives hop
      exact hoperand.store hs' hrecord (stores_fresh rfl rfl)
        (uses_of_operands rfl (by simp) (valued_cons (hshows.valued (by simp)) (by simp)))
        fun _ _ => trivial
  | binary runLhs runRhs hfinish hrecord ihLhs ihRhs =>
      simp only [Task.items, Expr.items, List.append_assoc, List.singleton_append] at hfirm
      obtain ⟨hstays, hleft⟩ := runLhs.preserves hfirm.sound ⟨trivial, by simp⟩
      obtain ⟨hlhs, hshows⟩ := ihLhs ⟨trivial, by simp⟩ hstays.sound hfirm
      obtain ⟨hstays', hright⟩ := runRhs.preserves hstays.sound ⟨trivial, by simp⟩
      obtain ⟨hrhs, hshows'⟩ := ihRhs ⟨trivial, by simp⟩ hstays'.sound hlhs.firm
      have hcalm :=
        (held_finishBinary hstays'.sound (held_of_stays hstays' hleft) hright hfinish).1
      have hstores := hrhs.carries.recalls.stores (hshows.stores (by simp))
      have hlater := (hrhs.firm.calm hcalm).carries
      have hvalued := valued_cons (hrhs.carries.valued (hshows.valued (by simp)))
        (valued_cons (hshows'.valued (by simp)) (List.forall_mem_nil _))
      have hstems := (runLhs.stems hfirm.sound ⟨trivial, by simp⟩ hfirm.annotated).of_stays hstays'
      have hstems' := runRhs.stems hstays.sound ⟨trivial, by simp⟩ hlhs.firm.annotated
      have hop := operates_finishBinary hstays'.sound (held_of_stays hstays' hleft) hright hstems
        hstems' hfinish
      refine ((hlhs.trans hrhs).calm hcalm).store hs' hrecord
        (stores_fresh rfl (isAssignable_finishBinary hstores.settled hfinish))
        (uses_of_operands rfl (by simp) (hlater.all_valued hvalued)) fun hcarries htype => ?_
      have hlast := hlater.trans hcarries
      exact ⟨_, _, _, htype, (hrhs.carries.trans hlast).typeOf? hshows.typed,
        hlast.typeOf? hshows'.typed, hcarries.operates hop⟩
  | ternary runCond runOnTrue runOnFalse hsettle hsame hrecord ihCond ihOnTrue ihOnFalse =>
      simp only [Task.items, Expr.items, List.append_assoc, List.singleton_append] at hfirm
      obtain ⟨hstays, -⟩ := runCond.preserves hfirm.sound ⟨trivial, by simp⟩
      obtain ⟨hcond, hshows⟩ := ihCond ⟨trivial, by simp⟩ hstays.sound hfirm
      obtain ⟨hstays', hleft⟩ := runOnTrue.preserves hstays.sound ⟨trivial, by simp⟩
      obtain ⟨honTrue, hshowsTrue⟩ := ihOnTrue ⟨trivial, by simp⟩ hstays'.sound hcond.firm
      obtain ⟨hstays'', hright⟩ := runOnFalse.preserves hstays'.sound ⟨trivial, by simp⟩
      obtain ⟨honFalse, hshowsFalse⟩ := ihOnFalse ⟨trivial, by simp⟩ hstays''.sound honTrue.firm
      have hleft := held_of_stays hstays'' hleft
      have hcalm := (held_settlePending hstays''.sound hleft hright hsettle).1
      obtain ⟨hl, hr⟩ := agrees_settlePending hstays''.sound hleft hright hsettle hsame
      have hparts := (honFalse.firm.calm hcalm).carries
      have hstores := honFalse.carries.recalls.stores (hshowsTrue.stores (by simp))
      have hvalued := valued_cons
        ((honTrue.carries.trans honFalse.carries).valued (hshows.valued (by simp)))
        (valued_cons (honFalse.carries.valued (hshowsTrue.valued (by simp)))
          (valued_cons (hshowsFalse.valued (by simp)) (List.forall_mem_nil _)))
      refine (((hcond.trans honTrue).trans honFalse).calm hcalm).store hs' hrecord
        (stores_branches hstores (hshowsFalse.stores (by simp)) hsettle hparts.recalls)
        (uses_of_operands rfl (by simp) (hparts.all_valued hvalued)) fun hcarries htype => ?_
      have hlater := hparts.trans hcarries
      exact ⟨_, _, _, htype, (honFalse.carries.trans hlater).typeOf? hshowsTrue.typed,
        hlater.typeOf? hshowsFalse.typed, hcarries.agrees hl, hcarries.agrees hr⟩
  | emptyArray hempty hrecord =>
      simp only [Task.items, Expr.items, Expr.listItems, List.nil_append, List.singleton_append]
        at hfirm
      obtain ⟨array, -, rfl⟩ := emptyArray_gives hempty
      exact hfirm.refl.gathers.store hs' hrecord (stores_fresh rfl rfl)
        (uses_of_operands rfl (by simp) (by simp [Expr.operands])) fun _ _ => trivial
  | array runFirst hknown htransfer runRest hintern hrecord ihFirst ihRest =>
      simp only [Task.items, Expr.items, Expr.listItems, List.append_assoc, List.singleton_append]
        at hfirm
      have hexpects := expects_element hfirm.sound
      obtain ⟨hstays, hheld⟩ := runFirst.preserves hfirm.sound ⟨trivial, hexpects _⟩
      obtain ⟨hfirst, hshows⟩ := ihFirst ⟨trivial, hexpects _⟩ hstays.sound hfirm
      have hsettled := Tables.Held.settled hheld hknown
      have htransfer := calm_recordTransfer hstays.sound hsettled htransfer
      have hsettled := hsettled.mono htransfer.tables.types
      have hstays' := runRest.preserves htransfer.sound hsettled
      have hvalued := (hfirst.firm.calm htransfer).carries.valued (hshows.valued (by simp))
      have hfirst := hfirst.calm htransfer
      obtain ⟨hrest, hvaluedRest⟩ := ihRest hsettled hstays'.sound hfirst.firm
      have hcalm := (written_internArray hstays'.sound (mono_of_stays hstays' hsettled) hintern).1
      have hvalued := valued_cons (hrest.carries.valued hvalued) hvaluedRest
      exact ((hfirst.trans hrest).calm hcalm).store hs' hrecord (stores_fresh rfl rfl)
        (uses_of_operands rfl (by simp) ((hrest.firm.calm hcalm).carries.all_valued hvalued))
        fun _ _ => trivial
  | closure hopen runBody hclose hrecord ih =>
      simp only [Task.items, Expr.items, List.append_assoc, List.singleton_append] at hfirm
      obtain ⟨s₁, frame, hopens, hkind, hsymbol, -⟩ := opens_openClosure hfirm.sound hopen
      have hkeeps := runBody.preserves hopens.sound trivial
      have hframes := hkeeps.frames
      rw [← hopens.push, hopens.calm.frames] at hframes
      obtain ⟨frame', hframes', hbecomes⟩ := hframes.cons_inv
      have hkind' := hbecomes.kind.trans hkind
      obtain ⟨ret, hcloses, hends⟩ := closesClosure_closeClosure hkeeps.sound hframes' hkind' hclose
      have hopened := hfirm.opened hopens
      obtain ⟨hbody, hnotes, hperform⟩ := ih trivial hkeeps.sound hopened.firm
      have hclosed := hbody.firm.leads hcloses.sound hcloses.leads hcloses.states hcloses.exprs
      refine ((hopened.gathers.trans hbody).advances hclosed).store hs' hrecord
        (stores_fresh rfl (isAssignable_closeClosure hclose))
        (uses_closure (hclosed.carries.all_perform hperform)) fun hcarries _ => hcarries.deduced ?_
      obtain ⟨info, hinfo, hret⟩ := Option.map_eq_some_iff.mp hcloses.result
      obtain ⟨_, hentered⟩ := entering_openClosure.bodies hopen
      refine ⟨frame'.symbol, info, ret, ?_, hinfo, hret, fun value hvalue => ?_,
        hends.imp_left hclosed.carries.isVoid, runBody.controlled hentered⟩
      · refine (hbody.carries.trans hclosed.carries).meanings.exprs _ _ ?_
        rw [← hopens.push, hbecomes.symbol]
        exact hsymbol
      · exact hcloses.returns_of_noted hkeeps.sound
          (hkeeps.sound.frames _ (hframes' ▸ List.mem_cons_self)) hkind'
          (hnotes frame' _ hframes' value hvalue)
  | argsNil => exact ⟨hfirm.refl.gathers, rfl, by simp⟩
  | argsCons runExpr _ runRest ihExpr ihRest =>
      simp only [Task.items, Expr.listItems, List.append_assoc] at hfirm
      obtain ⟨hstays, -⟩ := runExpr.preserves hfirm.sound ⟨trivial, by simp⟩
      obtain ⟨hexpr, hshows⟩ := ihExpr ⟨trivial, by simp⟩ hstays.sound hfirm
      obtain ⟨hrest, htypes, hvalued⟩ := ihRest trivial hs' hexpr.firm
      exact ⟨hexpr.trans hrest, congrArg₂ List.cons (hrest.carries.typeOf? hshows.typed) htypes,
        valued_cons (hrest.carries.valued (hshows.valued (by simp))) hvalued⟩
  | elementsNil => exact ⟨hfirm.refl.gathers, by simp [Task.Found]⟩
  | elementsCons runExpr _ _ htransfer runRest ihExpr ihRest =>
      simp only [Task.items, Expr.listItems, List.append_assoc] at hfirm
      have hexpects := expects_some hready
      obtain ⟨hstays, -⟩ := runExpr.preserves hfirm.sound ⟨trivial, hexpects⟩
      obtain ⟨hexpr, hshows⟩ := ihExpr ⟨trivial, hexpects⟩ hstays.sound hfirm
      have hsettled := mono_of_stays hstays hready
      have htransfer := calm_recordTransfer hstays.sound hsettled htransfer
      have hnext := hexpr.firm.calm htransfer
      have hsettled := hsettled.mono htransfer.tables.types
      obtain ⟨hrest, hvalued⟩ := ihRest hsettled hs' hnext.firm
      exact ⟨(hexpr.advances hnext).trans hrest, valued_cons
        ((hnext.carries.trans hrest.carries).valued (hshows.valued (by simp))) hvalued⟩
  | bindInit hlower runInit hknown hfinish ih =>
      simp only [Task.items, Binding.items, Expr.optionItems] at hfirm
      obtain ⟨hcalm, hdeclared⟩ := settled_lowerOptional hfirm.sound hlower
      obtain ⟨hstays, hheld⟩ := runInit.preserves hcalm.sound ⟨trivial, hdeclared⟩
      have hstart := hfirm.calm hcalm
      obtain ⟨hinit, hshows⟩ := ih ⟨trivial, hdeclared⟩ hstays.sound hstart.firm
      have hsettled := Tables.Held.settled hheld hknown
      obtain ⟨hfinish, hbinds⟩ := binds_finishBinding hstays.sound hinit.firm.complete
        (fun type htype => mono_of_stays hstays (hdeclared type htype))
        (fun p hp => Option.some.inj hp ▸ hsettled)
        (fun e he => Option.some.inj he ▸ ⟨_, rfl, hshows.typed⟩) hfinish
      have hend := hinit.firm.calm hfinish
      exact ⟨(hstart.gathers.trans hinit).advances hend,
        valued_cons (hend.carries.valued (hshows.valued (by simp))) (by simp), hbinds⟩
  | bindDefault hlower hfinish =>
      obtain ⟨hcalm, hdeclared⟩ := settled_lowerOptional hfirm.sound hlower
      have hstart := hfirm.calm hcalm
      obtain ⟨hfinish, hbinds⟩ := binds_finishBinding hcalm.sound hstart.firm.complete hdeclared
        (by simp) (by simp) hfinish
      exact ⟨(hfirm.calm (hcalm.trans hfinish)).gathers, by simp, hbinds⟩
  | bind _ ih =>
      obtain ⟨hbinding, hvalued, hbinds⟩ := ih trivial hs' hfirm
      exact ⟨hbinding, notes_nil _, performs_single rfl (performs_of_operands rfl hbinds hvalued)⟩
  | assign runTarget hplace hassignable runValue _ hfinish ihTarget ihValue =>
      simp only [Task.items, Stmt.items, List.append_assoc] at hfirm
      obtain ⟨hstays, hheld⟩ := runTarget.preserves hfirm.sound ⟨trivial, by simp⟩
      obtain ⟨htarget, hshows⟩ := ihTarget ⟨trivial, by simp⟩ hstays.sound hfirm
      have hsettled := Tables.Held.settled hheld hplace
      have hexpects := expects_some hsettled
      obtain ⟨hstays', -⟩ := runValue.preserves hstays.sound ⟨trivial, hexpects⟩
      obtain ⟨hvalue, hshows'⟩ := ihValue ⟨trivial, hexpects⟩ hstays'.sound htarget.firm
      have hfinish := calm_finishAssign hstays'.sound (mono_of_stays hstays' hsettled) hfinish
      have hend := hvalue.firm.calm hfinish
      have hlater := hvalue.carries.trans hend.carries
      refine ⟨(htarget.trans hvalue).advances hend, notes_nil _, performs_single rfl ⟨?_, ?_, trivial⟩⟩
      · exact valued_cons (hlater.valued (hshows.valued (by simp)))
          (valued_cons (hend.carries.valued (hshows'.valued (by simp))) (by simp))
      · intro e he
        obtain rfl := List.mem_singleton.mp he
        exact ⟨_, hlater.typeOf? hshows.typed, hassignable⟩
  | exprStmt _ ih =>
      obtain ⟨hvalue, hshows⟩ := ih ⟨trivial, by simp⟩ hs' hfirm
      exact ⟨hvalue, notes_nil _, performs_single rfl (performs_of_operands rfl trivial
        (valued_cons (hshows.valued (by simp)) (by simp)))⟩
  | ifOnly runCond henter runOnTrue hleave ihCond ihOnTrue =>
      simp only [Task.items, Stmt.items, Stmt.optionItems, List.append_assoc, List.nil_append]
        at hfirm
      obtain ⟨hstays, -⟩ := runCond.preserves hfirm.sound ⟨trivial, by simp⟩
      obtain ⟨hcond, hshows⟩ := ihCond ⟨trivial, by simp⟩ hstays.sound hfirm
      have henter := calm_enterScope hstays.sound henter
      have hstart := hcond.firm.calm henter
      have hkeeps := runOnTrue.preserves henter.sound trivial
      obtain ⟨honTrue, hnotes, hperform⟩ := ihOnTrue trivial hkeeps.sound hstart.firm
      have hleave := calm_leaveScope hkeeps.sound hleave
      have hend := honTrue.firm.calm hleave
      have hcondition :=
        ((hstart.carries.trans honTrue.carries).trans hend.carries).valued (hshows.valued (by simp))
      refine ⟨((hcond.advances hstart).trans honTrue).trans hend.gathers, ?_, ?_⟩
      · exact .append (hend.carries.notes hleave.keeps.frames hnotes) (notes_nil _)
      · exact List.forall_mem_cons.mpr ⟨performs_condition rfl trivial rfl hcondition,
          perform_append (hend.carries.all_perform hperform) (by simp [Stmt.optionParts])⟩
  | ifElse runCond henter runOnTrue hleave henter' runOnFalse hleave' ihCond ihOnTrue ihOnFalse =>
      simp only [Task.items, Stmt.items, Stmt.optionItems, List.append_assoc] at hfirm
      obtain ⟨hstays, -⟩ := runCond.preserves hfirm.sound ⟨trivial, by simp⟩
      obtain ⟨hcond, hshows⟩ := ihCond ⟨trivial, by simp⟩ hstays.sound hfirm
      have henter := calm_enterScope hstays.sound henter
      have hstart := hcond.firm.calm henter
      have hkeeps := runOnTrue.preserves henter.sound trivial
      obtain ⟨honTrue, hnotes, hperform⟩ := ihOnTrue trivial hkeeps.sound hstart.firm
      have hleave := calm_leaveScope hkeeps.sound hleave
      have henter' := hleave.trans (calm_enterScope hleave.sound henter')
      have hmiddle := honTrue.firm.calm henter'
      have hkeeps' := runOnFalse.preserves henter'.sound trivial
      obtain ⟨honFalse, hnotes', hperform'⟩ := ihOnFalse trivial hkeeps'.sound hmiddle.firm
      have hleave' := calm_leaveScope hkeeps'.sound hleave'
      have hend := honFalse.firm.calm hleave'
      have hlater := (hmiddle.carries.trans honFalse.carries).trans hend.carries
      have hframes := (henter'.keeps.frames.trans hkeeps'.frames).trans hleave'.keeps.frames
      have hcondition :=
        ((hstart.carries.trans honTrue.carries).trans hlater).valued (hshows.valued (by simp))
      refine ⟨(((hcond.advances hstart).trans honTrue).advances hmiddle).trans
        (honFalse.advances hend), ?_, ?_⟩
      · exact .append (hlater.notes hframes hnotes)
          (hend.carries.notes hleave'.keeps.frames hnotes')
      · exact List.forall_mem_cons.mpr ⟨performs_condition rfl trivial rfl hcondition,
          perform_append (hlater.all_perform hperform) (hend.carries.all_perform hperform')⟩
  | whileLoop runCond hloop henter runBody hleave hend ihCond ihBody =>
      simp only [Task.items, Stmt.items, List.append_assoc] at hfirm
      obtain ⟨hstays, -⟩ := runCond.preserves hfirm.sound ⟨trivial, by simp⟩
      obtain ⟨hcond, hshows⟩ := ihCond ⟨trivial, by simp⟩ hstays.sound hfirm
      have hloop := steps_enterLoop hstays.sound hloop
      have henter := hloop.trans (calm_enterScope hloop.sound henter).steps
      have hstart := hcond.firm.steps henter
      have hkeeps := runBody.preserves henter.sound trivial
      obtain ⟨hbody, hnotes, hperform⟩ := ihBody trivial hkeeps.sound hstart.firm
      have hleave := calm_leaveScope hkeeps.sound hleave
      have hend := hleave.steps.trans (steps_leaveLoop hleave.sound hend)
      have hlast := hbody.firm.steps hend
      have hcondition :=
        ((hstart.carries.trans hbody.carries).trans hlast.carries).valued (hshows.valued (by simp))
      exact ⟨((hcond.advances hstart).trans hbody).advances hlast,
        hlast.carries.notes hend.frames hnotes,
        List.forall_mem_cons.mpr
          ⟨performs_condition rfl trivial rfl hcondition, hlast.carries.all_perform hperform⟩⟩
  | retValue hframe runValue hreturn ih =>
      have hexpects := expects_result hfirm.sound hframe
      obtain ⟨hstays, hheld⟩ := runValue.preserves hfirm.sound ⟨trivial, hexpects⟩
      obtain ⟨hvalue, hshows⟩ := ih ⟨trivial, hexpects⟩ hstays.sound hfirm
      have hframes := hstays.frames.trans hframe
      have hend := hvalue.firm.steps (steps_checkReturned hframes hstays.sound hheld hreturn)
      exact ⟨hvalue.advances hend,
        notes_checkReturned hframes hstays.sound hshows.typed hheld hreturn,
        performs_single rfl (performs_of_operands rfl trivial
          (valued_cons (hend.carries.valued (hshows.valued (by simp))) (by simp)))⟩
  | retBare hframe hreturn =>
      have hsteps := steps_checkBareReturn hframe hfirm.sound hreturn
      exact ⟨(hfirm.steps hsteps).gathers, notes_checkBareReturn hframe hfirm.sound hreturn,
        performs_single rfl (performs_of_operands rfl trivial (by simp [Stmt.operands]))⟩
  | breakLoop hloop =>
      obtain rfl := checkLoopControl_state hloop
      exact ⟨hfirm.refl.gathers, notes_nil _,
        performs_single rfl (performs_of_operands rfl trivial (by simp [Stmt.operands]))⟩
  | continueLoop hloop =>
      obtain rfl := checkLoopControl_state hloop
      exact ⟨hfirm.refl.gathers, notes_nil _,
        performs_single rfl (performs_of_operands rfl trivial (by simp [Stmt.operands]))⟩
  | block henter runBody hleave ih =>
      have henter := calm_enterScope hfirm.sound henter
      have hstart := hfirm.calm henter
      have hkeeps := runBody.preserves henter.sound trivial
      obtain ⟨hbody, hnotes, hperform⟩ := ih trivial hkeeps.sound hstart.firm
      have hleave := calm_leaveScope hkeeps.sound hleave
      have hend := hbody.firm.calm hleave
      exact ⟨(hstart.gathers.trans hbody).advances hend,
        hend.carries.notes hleave.keeps.frames hnotes, List.forall_mem_cons.mpr
          ⟨performs_of_operands rfl trivial (by simp [Stmt.operands]),
            hend.carries.all_perform hperform⟩⟩
  | funcStmt hdeclare runBody ih =>
      have hdeclares := declares_declareFunc hfirm.sound hdeclare
      have hstart := hfirm.declares hdeclares
      have hanalyzed := runBody.preserves hdeclares.sound trivial
      obtain ⟨hbody, -⟩ := ih trivial hs' hstart.firm
      exact ⟨⟨hstart.trans hbody.toAdvances, holds_of_analyzed hdeclares hanalyzed hbody.firm.checked⟩,
        notes_nil _, performs_single rfl (performs_of_operands rfl trivial (by simp [Stmt.operands]))⟩
  | stmtsNil => exact ⟨hfirm.refl.gathers, notes_nil _, by simp [Stmt.listParts]⟩
  | stmtsCons runStmt runRest ihStmt ihRest =>
      simp only [Task.items, Stmt.listItems, List.append_assoc] at hfirm
      have hkeeps := runStmt.preserves hfirm.sound trivial
      obtain ⟨hstmt, hnotes, hperform⟩ := ihStmt trivial hkeeps.sound hfirm
      obtain ⟨hrest, hnotes', hperform'⟩ := ihRest trivial hs' hstmt.firm
      have hframes := (runRest.preserves hkeeps.sound trivial).frames
      exact ⟨hstmt.trans hrest, (hrest.carries.notes hframes hnotes).append hnotes',
        perform_append (hrest.carries.all_perform hperform) hperform'⟩
  | bodySkip _ => exact ⟨hfirm.refl.gathers, trivial⟩
  | bodyNone hfunc hstate hbody _ =>
      have hsome := (hfirm.sound.tables.kinds _ _ (SymbolTable.func?_eq_some.mp hfunc)).2.2.2
      simp [hstate, hbody] at hsome
  | bodyRun hfunc hstate hbody hstart _ _ hopen runBody hclose hfinish ih =>
      obtain ⟨frame, hopens⟩ := opensFunc_openBody hfirm.sound hfunc hstate hstart hopen
      have hkeeps := runBody.preserves hopens.sound trivial
      have hframes := hkeeps.frames
      rw [hopens.frames] at hframes
      obtain ⟨frame', hframes', hbecomes⟩ := hframes.cons_inv
      have hsymbol := hbecomes.symbol.trans hopens.symbol
      rw [← hsymbol] at hfinish
      have hcloses := closesFunc_closeBody hkeeps.sound hframes' (hbecomes.kind.trans hopens.kind)
        hclose hfinish
      have hopened := hfirm.opens hfunc hstate hbody hopens
      obtain ⟨hran, hnotes, hperform⟩ := ih trivial hkeeps.sound hopened.firm
      obtain ⟨_, hentered⟩ := entering_openBody.bodies hopen
      exact ⟨(advances_func hfirm hfunc hstate hbody hopens hkeeps hframes' hbecomes hcloses hopened
        hran hperform hnotes (ends_closeBody hclose) (runBody.controlled hentered)).gathers, trivial⟩

end Check

end Stela
