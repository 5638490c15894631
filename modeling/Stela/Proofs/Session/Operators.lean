import Stela.Proofs.Session.Deduction

/-!
# Operators in a session

In a program that was analyzed without an error the operands of every binary
operation have one type, which the operator takes. The exception are operations
on two calls of functions whose result types are found from their bodies, or on
values made of such calls: if both types are not known yet when the operation is
analyzed, the operands are never compared.
-/

namespace Stela

/-- A binary operation has the type that the operator gives for a type of its left operand. The right
operand has that type too, and the operator takes both, unless both wait for a result. -/
def Program.Operates (p : Program) (op : BinOp) (binary lhs rhs : Expr) : Prop :=
  ∃ type left right operand, p.typeOf? binary = some type ∧ p.typeOf? lhs = some left ∧
    p.typeOf? rhs = some right ∧ type.type = op.resultType operand ∧
    p.tables.same left.type operand = true ∧
    (p.tables.same right.type operand = true ∧ p.tables.operandFits op left.type = true ∧
        p.tables.operandFits op right.type = true ∨
      p.final.Waits lhs ∧ p.final.Waits rhs)

theorem Program.operates_of_idle {p : Program} (hidle : p.final.Idle) {op : BinOp}
    {binary lhs rhs : Expr} (h : p.final.OperationFits binary lhs rhs op) :
    p.Operates op binary lhs rhs := by
  obtain ⟨type, left, right, htype, hleft, hright, hop⟩ := h
  have haliases := hidle.sound.tables.aliasesEnd true
  cases hop with
  | @compared operand _ hl hr hfits hresult =>
      have hl := hidle.same hl
      have hr := hidle.same hr
      refine ⟨type, left, right, operand, htype, hleft, hright, hresult, hl, .inl ⟨hr, ?_, ?_⟩⟩
      · exact (Tables.operandFits_eq_of_same haliases hl).trans hfits
      · exact (Tables.operandFits_eq_of_same haliases hr).trans hfits
  | awaited hlhs hrhs hresult =>
      exact ⟨type, left, right, left.type, htype, hleft, hright, hresult,
        hidle.sound.tables.same_refl _, .inr ⟨hlhs, hrhs⟩⟩

namespace Session

/-- Every binary operation in a session that was analyzed without an error is well typed, unless both
of its operands wait for a result that is found from the body of a function. -/
theorem check_operates (session : Session) (hbuilt : session.Built) (settings : Settings)
    (program : Program) (h : (session.check settings).outcome = .ok program) {node : Node}
    {op : BinOp} {lhs rhs : Expr} (hmem : .expr (.binary node op lhs rhs) ∈ session.items) :
    program.Operates op (.binary node op lhs rhs) lhs rhs := by
  obtain ⟨visited, hvisits⟩ := exists_visits h
  obtain ⟨hgathers, -⟩ := hvisits.gathers hbuilt
  have hholds := hgathers.holds _ hmem
  exact Program.operates_of_idle (idle_final h) hholds.deduced

/-- A function that is called twice in its own body, on both sides of `&&`. -/
def waiting : Session :=
  Session.empty.withSource "main.stela"
    "func f(n: sint) { if f(n) && f(n) { return 1; } return 2; }"

/-- The operands were not compared: they are of type `sint` in the end, which `&&` does not take. -/
example : (waiting.check {}).outcome.toOption.map (fun program =>
    waiting.items.filterMap fun
      | .expr (.binary _ op lhs _) => (program.typeOf? lhs).map fun left =>
          (op, program.tables.text? left.type, program.tables.operandFits op left.type)
      | _ => none) = some [(.and, some "sint", false)] := by
  rw [waiting, withSource_ofList]
  decide +kernel

end Session

end Stela
