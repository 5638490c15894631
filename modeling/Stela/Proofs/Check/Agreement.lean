import Stela.Proofs.Check.Awaiting
import Stela.Proofs.Check.Functions
import Stela.Proofs.Syntax.Execution
import Stela.Proofs.Syntax.Occurrences
import Stela.Proofs.Types.Operands

/-!
# Agreement of the types found

What is found about literals, calls, operations, conditional expressions and
returned values, and about the storage that expressions stand for. A type that is not known yet
agrees with the type that it was assumed to be, so what is found holds as soon
as an expression is typed and goes on to hold while the analysis proceeds.
-/

namespace Stela.CheckState

variable {s s' s'' : CheckState} {a b : TypeId}

/-- The type found for an expression. -/
def typeOf? (s : CheckState) (e : Expr) : Option ExprType :=
  (s.exprTypes.get? e.id).map Typing.type

/-- The types are the same, or the first stands for the result of a function that was assumed to
be the second. -/
inductive Agrees (s : CheckState) : TypeId → TypeId → Prop
  | refl (x) : Agrees s x x
  | same {x y} (hx : s.tables.types.Settled x) (hy : s.tables.types.Settled y)
      (hsame : s.tables.same x y = true) : Agrees s x y
  | assumed {x} {assumption : Assumption} (hmem : assumption ∈ s.assumptions)
      (hx : s.tables.types.get? x = some (.pending assumption.func)) : Agrees s x assumption.type

/-- A body with this result may return a value, or return without one. -/
def Returns (s : CheckState) (ret : TypeId) : Option Expr → Prop
  | none => s.tables.isVoid ret = true
  | some value => ∃ type, s.typeOf? value = some type ∧ s.Agrees type.type ret

/-- A literal has the type of its form. -/
def LiteralFits (s : CheckState) (literal : Expr) (value : Literal) : Prop :=
  ∃ type, s.typeOf? literal = some (.value type) ∧ s.tables.types.get? type = some value.ty

/-- The callee of a call has a function type that accepts the arguments and returns the type of the
call. -/
def CallFits (s : CheckState) (call callee : Expr) (args : List Expr) : Prop :=
  ∃ type calleeType argTypes params, s.typeOf? call = some type ∧
    s.typeOf? callee = some calleeType ∧ args.map s.typeOf? = argTypes.map some ∧
    s.tables.concreteTy? calleeType.type = some (.func params type.type) ∧
    s.tables.accepts params argTypes = true ∧ ∀ arg ∈ argTypes, s.tables.types.Settled arg.type

/-- The branches of a conditional expression have its type. -/
def BranchesAgree (s : CheckState) (ternary onTrue onFalse : Expr) : Prop :=
  ∃ type left right, s.typeOf? ternary = some type ∧ s.typeOf? onTrue = some left ∧
    s.typeOf? onFalse = some right ∧ s.Agrees left.type type.type ∧ s.Agrees right.type type.type

/-- The operands of a binary operation have one type, which the operator takes, or both of them wait
for a result. -/
inductive Operates (s : CheckState) (op : BinOp) (lhs rhs : Expr) (left right result : TypeId) : Prop
  | compared {operand} (hsettled : s.tables.types.Settled operand) (hleft : s.Agrees left operand)
      (hright : s.Agrees right operand) (hfits : s.tables.operandFits op operand = true)
      (hresult : result = op.resultType operand)
  | awaited (hlhs : s.Waits lhs) (hrhs : s.Waits rhs) (hresult : result = op.resultType left)

/-- A binary operation has the type that its operands and the operator give it. -/
def OperationFits (s : CheckState) (binary lhs rhs : Expr) (op : BinOp) : Prop :=
  ∃ type left right, s.typeOf? binary = some type ∧ s.typeOf? lhs = some left ∧
    s.typeOf? rhs = some right ∧ s.Operates op lhs rhs left.type right.type type.type

/-- A body may have this result: it returns it, on every path if there is something to return, and
leaves only loops of its own. -/
structure Yields (s : CheckState) (ret : TypeId) (body : List Stmt) : Prop where
  values : ∀ value ∈ Stmt.listReturned body, s.Returns ret value
  ends : s.tables.isVoid ret = true ∨ stmtsReturn body = true
  loops : stmtsControlled 0 body = true

/-- A closure has a result that its body returns. -/
def ClosureReturns (s : CheckState) (node : Node) (body : List Stmt) : Prop :=
  ∃ closure info ret, s.meanings.exprs.get? node.id = some closure ∧
    s.tables.symbols.closure? closure = some info ∧ info.ret = some ret ∧ s.Yields ret body

/-- The function is declared and its body done. -/
def FuncDone (s : CheckState) (decl : FuncDecl) : Prop :=
  ∃ func info, s.meanings.decls.get? decl.node.id = some func ∧
    s.tables.symbols.func? func = some info ∧ info.decl = decl ∧ info.state = .done

/-- What is deduced about an expression or function. -/
def Deduced (s : CheckState) : Occurrence → Prop
  | .expr (.literal node value) => s.LiteralFits (.literal node value) value
  | .expr (.call node callee args) => s.CallFits (.call node callee args) callee args
  | .expr (.binary node op lhs rhs) => s.OperationFits (.binary node op lhs rhs) lhs rhs op
  | .expr (.ternary node cond onTrue onFalse) =>
    s.BranchesAgree (.ternary node cond onTrue onFalse) onTrue onFalse
  | .expr (.closure node _ body) => s.ClosureReturns node body
  | .expr _ => True
  | .func decl => s.FuncDone decl

/-- The expression is typed, and its type tells whether it stands for storage. -/
def Valued (s : CheckState) (e : Expr) : Prop :=
  ∃ type, s.typeOf? e = some type ∧ s.Stores e type

/-- A variable that is declared here has a type with values, which is the type of its first value. -/
def Binds (s : CheckState) (place : Check.BindingPlace) (binding : Binding) : Prop :=
  ∃ symbol type, s.meanings.variable? place = some symbol ∧ s.tables.symbols.kind? symbol =
      some (.object ⟨.named type binding.mutability, place.origin⟩) ∧ s.tables.HasValues type ∧
    ∀ e ∈ binding.init, ∃ value, s.typeOf? e = some value ∧ s.Agrees value.type type

/-- A statement declares no variable, or one that it binds. -/
def Introduces (s : CheckState) : Stmt → Prop
  | .bind node binding => s.Binds (.stmt node.id) binding
  | _ => True

/-- The expressions that a statement uses are typed, it assigns only to storage, and the variable that
it declares can hold its values. -/
structure Performs (s : CheckState) (stmt : Stmt) : Prop where
  operands : ∀ e ∈ stmt.operands, s.Valued e
  targets : ∀ e ∈ stmt.targets, ∃ type, s.typeOf? e = some type ∧ type.isAssignable = true
  declared : s.Introduces stmt

/-- A member is reached through the name of a type or module, or through a value. -/
def Reached (s : CheckState) (node : Node) (object : Expr) : Prop :=
  (∃ space, s.Names object space) ∨ ∃ type, s.typeOf? object = some type ∧
    s.Storage object type.isAssignable ∧ s.tables.types.Settled type.type ∧ s.Member node.id type

/-- What an expression or function uses is typed, and whatever it writes is storage. -/
structure Uses (s : CheckState) (item : Occurrence) : Prop where
  operands : ∀ e ∈ item.operands, s.Valued e
  stmts : ∀ stmt ∈ item.stmts, s.Performs stmt
  object : ∀ node object name, item = .expr (.member node object name) → s.Reached node object

/-- What is found about an expression or function. -/
structure Holds (s : CheckState) (item : Occurrence) : Prop where
  deduced : s.Deduced item
  uses : s.Uses item

/-- What is found about a body, apart from its result. -/
structure Performed (s : CheckState) (body : List Stmt) : Prop where
  items : ∀ item ∈ Stmt.listItems body, s.Holds item
  stmts : ∀ stmt ∈ Stmt.listParts body, s.Performs stmt

/-- The result of every function that is done is what its body returns. -/
def Checked (s : CheckState) : Prop :=
  ∀ func info body, s.tables.symbols.func? func = some info → info.state = .done →
    info.decl.body = some body → s.Performed body ∧
      ∃ ret, info.ret = some ret ∧ s.Yields ret body

/-- What a body that is under analysis knows about a value that it returned: it agrees with the
result of the body, or it waits for another function. -/
def Noted (s : CheckState) (frame : Frame) : Option Expr → Prop
  | none => ∃ ret, frame.ret.expected = some ret ∧ s.tables.isVoid ret = true
  | some value => ∃ type, s.typeOf? value = some type ∧
      ((∃ ret, frame.ret.expected = some ret ∧ s.Agrees type.type ret) ∨
        ∃ call ∈ frame.pendingReturns, s.tables.types.get? type.type = some (.pending call.callee))

/-- The innermost body returned the values. -/
def Notes (s : CheckState) (values : List (Option Expr)) : Prop :=
  ∀ frame rest, s.frames = frame :: rest → ∀ value ∈ values, s.Noted frame value

/-! ## Later states -/

/-- Everything found in the first state is there in the second. -/
structure Carries (s s' : CheckState) : Prop where
  before : s.tables.Sound
  after : s'.tables.Sound
  contained : s.tables.Contained s'.tables
  kept : ∀ node typing, s.exprTypes.get? node = some typing →
    s'.exprTypes.get? node = some typing
  done : ∀ func info, s.tables.symbols.func? func = some info → info.state = .done →
    ∃ info', s'.tables.symbols.func? func = some info' ∧ info'.state = .done
  assumptions : ∀ a ∈ s.assumptions, a ∈ s'.assumptions
  meanings : s.meanings.Within s'.meanings

theorem Carries.refl (hs : s.tables.Sound) : s.Carries s :=
  ⟨hs, hs, .refl _, fun _ _ h => h, fun _ info h hdone => ⟨info, h, hdone⟩, fun _ h => h, .refl _⟩

theorem Carries.trans (h : s.Carries s') (h' : s'.Carries s'') : s.Carries s'' := by
  refine ⟨h.before, h'.after, h.contained.trans h'.contained,
    fun node typing hnode => h'.kept node typing (h.kept node typing hnode),
    fun func info hinfo hdone => ?_, fun a ha => h'.assumptions a (h.assumptions a ha),
    h.meanings.trans h'.meanings⟩
  obtain ⟨info', hinfo', hdone'⟩ := h.done func info hinfo hdone
  exact h'.done func info' hinfo' hdone'

/-- A part of the analysis carries everything on if it leaves the types of expressions as they
are. -/
theorem Leads.carries (h : s.Leads s') (hs : s.Sound) (hs' : s'.Sound)
    (hkept : ∀ node typing, s.exprTypes.get? node = some typing →
      s'.exprTypes.get? node = some typing) : s.Carries s' := by
  refine ⟨hs.tables, hs'.tables, h.grows.toContained, hkept, fun func info hinfo hdone => ?_,
    h.assumptions, h.meanings⟩
  obtain ⟨info', hinfo', -⟩ := h.grows.func hinfo
  refine ⟨info', hinfo', ?_⟩
  rcases h.states func info' hinfo' with hdone' | ⟨info₀, hinfo₀, heq⟩
  · exact hdone'
  · obtain rfl := Option.some.inj (hinfo.symm.trans hinfo₀)
    exact heq.symm.trans hdone

namespace Carries

variable (h : s.Carries s')

include h

theorem typeOf? {e : Expr} {type : ExprType} (he : s.typeOf? e = some type) :
    s'.typeOf? e = some type := by
  obtain ⟨typing, htyping, rfl⟩ := Option.map_eq_some_iff.mp he
  exact Option.map_eq_some_iff.mpr ⟨typing, h.kept _ _ htyping, rfl⟩

theorem typesOf? {args : List Expr} {types : List ExprType}
    (hargs : args.map s.typeOf? = types.map some) : args.map s'.typeOf? = types.map some := by
  induction args generalizing types with
  | nil => exact hargs
  | cons arg rest ih =>
      cases types with
      | nil => simp at hargs
      | cons type types =>
          obtain ⟨hfirst, hrest⟩ := List.cons.inj hargs
          exact congrArg₂ List.cons (h.typeOf? hfirst) (ih hrest)

theorem agrees (hab : s.Agrees a b) : s'.Agrees a b := by
  have hw := h.contained.types
  cases hab with
  | refl => exact .refl a
  | same ha hb hsame =>
      exact .same (ha.mono hw) (hb.mono hw)
        (Tables.same_of_contained h.before h.after h.contained hsame)
  | assumed hmem ha => exact .assumed (h.assumptions _ hmem) (hw _ _ ha)

theorem isVoid {type : TypeId} (hvoid : s.tables.isVoid type = true) :
    s'.tables.isVoid type = true :=
  Tables.isVoid_of_contained h.before h.after h.contained hvoid

theorem returns {ret : TypeId} {value : Option Expr} (hr : s.Returns ret value) :
    s'.Returns ret value := by
  cases value with
  | none => exact h.isVoid hr
  | some value =>
      obtain ⟨type, htype, hagrees⟩ := hr
      exact ⟨type, h.typeOf? htype, h.agrees hagrees⟩

theorem yields {ret : TypeId} {body : List Stmt} (hy : s.Yields ret body) : s'.Yields ret body :=
  ⟨fun value hvalue => h.returns (hy.values value hvalue),
    hy.ends.imp_left h.isVoid, hy.loops⟩

theorem callFits {call callee : Expr} {args : List Expr} (hfits : s.CallFits call callee args) :
    s'.CallFits call callee args := by
  obtain ⟨type, calleeType, argTypes, params, htype, hcallee, hargs, hfunc, haccepts, hsettled⟩ :=
    hfits
  exact ⟨type, calleeType, argTypes, params, h.typeOf? htype, h.typeOf? hcallee, h.typesOf? hargs,
    Tables.concreteTy?_of_contained h.before h.after h.contained hfunc (by simp),
    Tables.accepts_of_contained h.before h.after h.contained haccepts,
    fun arg harg => (hsettled arg harg).mono h.contained.types⟩

theorem operates {op : BinOp} {lhs rhs : Expr} {left right result : TypeId}
    (hop : s.Operates op lhs rhs left right result) : s'.Operates op lhs rhs left right result := by
  have hc := h.contained
  cases hop with
  | compared hsettled hleft hright hfits hresult =>
      exact .compared (hsettled.mono hc.types) (h.agrees hleft) (h.agrees hright)
        (Tables.operandFits_of_contained h.before h.after hc hfits) hresult
  | awaited hlhs hrhs hresult =>
      exact .awaited (hlhs.mono hc h.meanings) (hrhs.mono hc h.meanings) hresult

/-- What was deduced goes on to hold. -/
theorem deduced {item : Occurrence} (hitem : s.Deduced item) : s'.Deduced item := by
  cases item with
  | func decl =>
      obtain ⟨func, info, hfunc, hinfo, hdecl, hdone⟩ := hitem
      obtain ⟨info', hinfo', hdone'⟩ := h.done func info hinfo hdone
      obtain ⟨info'', hinfo'', hbecomes⟩ := h.contained.func hinfo
      obtain rfl := Option.some.inj (hinfo'.symm.trans hinfo'')
      exact ⟨func, info', h.meanings.decls _ _ hfunc, hinfo', hbecomes.decl.trans hdecl, hdone'⟩
  | expr e =>
      cases e with
      | literal node value =>
          obtain ⟨type, htype, hty⟩ := hitem
          exact ⟨type, h.typeOf? htype, h.contained.types _ _ hty⟩
      | call node callee args => exact h.callFits hitem
      | binary node op lhs rhs =>
          obtain ⟨type, left, right, htype, hleft, hright, hop⟩ := hitem
          exact ⟨type, left, right, h.typeOf? htype, h.typeOf? hleft, h.typeOf? hright, h.operates hop⟩
      | ternary node cond onTrue onFalse =>
          obtain ⟨type, left, right, htype, hleft, hright, hl, hr⟩ := hitem
          exact ⟨type, left, right, h.typeOf? htype, h.typeOf? hleft, h.typeOf? hright, h.agrees hl,
            h.agrees hr⟩
      | closure node sig body =>
          obtain ⟨closure, info, ret, hclosure, hinfo, hret, hyields⟩ := hitem
          obtain ⟨info', hinfo', hbecomes⟩ := h.contained.closure hinfo
          exact ⟨closure, info', ret, h.meanings.exprs _ _ hclosure, hinfo', hbecomes.ret ret hret,
            h.yields hyields⟩
      | _ => trivial

theorem recalls : s.Recalls s' := ⟨h.before, h.after, h.contained, h.meanings⟩

theorem valued {e : Expr} (he : s.Valued e) : s'.Valued e := by
  obtain ⟨type, htype, hstores⟩ := he
  exact ⟨type, h.typeOf? htype, h.recalls.stores hstores⟩

theorem binds {place : Check.BindingPlace} {binding : Binding} (hbinds : s.Binds place binding) :
    s'.Binds place binding := by
  obtain ⟨symbol, type, hsymbol, hkind, hvalues, hinit⟩ := hbinds
  refine ⟨symbol, type, h.meanings.variable? hsymbol, h.contained.object hkind,
    hvalues.of_contained h.contained, fun e he => ?_⟩
  obtain ⟨value, hvalue, hagrees⟩ := hinit e he
  exact ⟨value, h.typeOf? hvalue, h.agrees hagrees⟩

theorem performs {stmt : Stmt} (hstmt : s.Performs stmt) : s'.Performs stmt := by
  refine ⟨fun e he => h.valued (hstmt.operands e he), fun e he => ?_, ?_⟩
  · obtain ⟨type, htype, hassignable⟩ := hstmt.targets e he
    exact ⟨type, h.typeOf? htype, hassignable⟩
  · have hdeclared := hstmt.declared
    cases stmt with
    | bind node binding => exact h.binds hdeclared
    | _ => trivial

theorem reached {node : Node} {object : Expr} (hobject : s.Reached node object) :
    s'.Reached node object := by
  rcases hobject with ⟨space, hnames⟩ | ⟨type, htype, hstorage, hsettled, hmember⟩
  · obtain ⟨space', hnames', -⟩ := h.recalls.names hnames
    exact .inl ⟨space', hnames'⟩
  · exact .inr ⟨type, h.typeOf? htype, h.recalls.storage hstorage,
      hsettled.mono h.contained.types, h.recalls.member hmember⟩

theorem uses {item : Occurrence} (hitem : s.Uses item) : s'.Uses item :=
  ⟨fun e he => h.valued (hitem.operands e he), fun stmt hstmt => h.performs (hitem.stmts stmt hstmt),
    fun node object name heq => h.reached (hitem.object node object name heq)⟩

/-- What was found goes on to hold. -/
theorem holds {item : Occurrence} (hitem : s.Holds item) : s'.Holds item :=
  ⟨h.deduced hitem.deduced, h.uses hitem.uses⟩

theorem performed {body : List Stmt} (hbody : s.Performed body) : s'.Performed body :=
  ⟨fun item hitem => h.holds (hbody.items item hitem),
    fun stmt hstmt => h.performs (hbody.stmts stmt hstmt)⟩

/-- The functions that are done stay as they are if no other body ends. -/
theorem checked (hchecked : s.Checked)
    (hold : ∀ func info', s'.tables.symbols.func? func = some info' → info'.state = .done →
      info'.decl.body.isSome → ∃ info, s.tables.symbols.func? func = some info ∧
        info.state = .done) : s'.Checked := by
  intro func info' body hinfo' hdone' hbody
  obtain ⟨info, hinfo, hdone⟩ := hold func info' hinfo' hdone' (by simp [hbody])
  obtain ⟨info'', hinfo'', hbecomes⟩ := h.contained.func hinfo
  obtain rfl := Option.some.inj (hinfo'.symm.trans hinfo'')
  obtain ⟨hperformed, ret, hret, hyields⟩ :=
    hchecked func info body hinfo hdone (hbecomes.decl ▸ hbody)
  exact ⟨h.performed hperformed, ret, hbecomes.ret ret hret, h.yields hyields⟩

theorem noted {frame frame' : Frame} (hframe : frame.Becomes frame') {value : Option Expr}
    (hnoted : s.Noted frame value) : s'.Noted frame' value := by
  cases value with
  | none =>
      obtain ⟨ret, hret, hvoid⟩ := hnoted
      exact ⟨ret, hframe.expected ret hret, h.isVoid hvoid⟩
  | some value =>
      obtain ⟨type, htype, ⟨ret, hret, hagrees⟩ | ⟨call, hcall, hpending⟩⟩ := hnoted
      · exact ⟨type, h.typeOf? htype, .inl ⟨ret, hframe.expected ret hret, h.agrees hagrees⟩⟩
      · exact ⟨type, h.typeOf? htype,
          .inr ⟨call, hframe.pending call hcall, h.contained.types _ _ hpending⟩⟩

/-- What was returned is not forgotten while the body goes on. -/
theorem notes (hframes : FramesGrow s.frames s'.frames) {values : List (Option Expr)}
    (hnotes : s.Notes values) : s'.Notes values := by
  intro frame' rest hframe' value hvalue
  rw [hframe'] at hframes
  obtain ⟨frame, hframe, hbecomes⟩ := hframes.cons_of
  exact h.noted hbecomes (hnotes frame rest hframe value hvalue)

end Carries

end Stela.CheckState
