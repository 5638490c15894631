import Stela.Syntax.Paths

/-!
# Executions of a body

The ways in which the statements of a body can be executed if every condition
may come out either way and a loop may run any number of times. A body in which
`break` and `continue` stand in loops never ends in one of them, and it can end
without `return` exactly if not every path through it returns.
-/

namespace Stela

/-- How the execution of a piece of code ends. -/
inductive Outcome where
  /-- It goes on with what follows. -/
  | falls
  | breaks
  | continues
  | returns
deriving Repr, DecidableEq

/-- A statement, or statements one after the other. -/
inductive Code where
  | stmt (stmt : Stmt)
  | stmts (stmts : List Stmt)

/-- The executions of a piece of code. Expressions are only evaluated: the body of a closure or
function that is written in one of them is not part of the execution. -/
inductive Code.Executes : Code → Outcome → Prop
  | bind {node binding} : Executes (.stmt (.bind node binding)) .falls
  | assign {node target op value} : Executes (.stmt (.assign node target op value)) .falls
  | expr {node value} : Executes (.stmt (.expr node value)) .falls
  | func {node decl} : Executes (.stmt (.func node decl)) .falls
  | ret {node value} : Executes (.stmt (.ret node value)) .returns
  | breakLoop {node} : Executes (.stmt (.breakLoop node)) .breaks
  | continueLoop {node} : Executes (.stmt (.continueLoop node)) .continues
  | block {node body outcome} (hbody : Executes (.stmts body) outcome) :
      Executes (.stmt (.block node body)) outcome
  -- Either branch of a conditional may be taken.
  | onTrue {node cond onTrue onFalse outcome} (hbranch : Executes (.stmts onTrue) outcome) :
      Executes (.stmt (.ifElse node cond onTrue onFalse)) outcome
  | onFalse {node cond onTrue onFalse outcome} (hbranch : Executes (.stmts onFalse) outcome) :
      Executes (.stmt (.ifElse node cond onTrue (some onFalse))) outcome
  | noBranch {node cond onTrue} : Executes (.stmt (.ifElse node cond onTrue none)) .falls
  -- A loop may end before any of its passes.
  | loopEnd {node cond body} : Executes (.stmt (.whileLoop node cond body)) .falls
  | loopPass {node cond body pass outcome} (hbody : Executes (.stmts body) pass)
      (hpass : pass = .falls ∨ pass = .continues)
      (hloop : Executes (.stmt (.whileLoop node cond body)) outcome) :
      Executes (.stmt (.whileLoop node cond body)) outcome
  | loopBreak {node cond body} (hbody : Executes (.stmts body) .breaks) :
      Executes (.stmt (.whileLoop node cond body)) .falls
  | loopReturn {node cond body} (hbody : Executes (.stmts body) .returns) :
      Executes (.stmt (.whileLoop node cond body)) .returns
  | nil : Executes (.stmts []) .falls
  | next {stmt rest outcome} (hfirst : Executes (.stmt stmt) .falls)
      (hrest : Executes (.stmts rest) outcome) : Executes (.stmts (stmt :: rest)) outcome
  | stop {stmt rest outcome} (hfirst : Executes (.stmt stmt) outcome) (hstop : outcome ≠ .falls) :
      Executes (.stmts (stmt :: rest)) outcome

/-! ## Loop control -/

mutual

/-- Whether each `break` and `continue` of a statement stands in a loop, if there are `depth` loops
around the statement. -/
def Stmt.controlled (depth : Nat) : Stmt → Bool
  | .breakLoop _ => depth != 0
  | .continueLoop _ => depth != 0
  | .ifElse _ _ onTrue none => stmtsControlled depth onTrue
  | .ifElse _ _ onTrue (some onFalse) => stmtsControlled depth onTrue && stmtsControlled depth onFalse
  | .whileLoop _ _ body => stmtsControlled (depth + 1) body
  | .block _ body => stmtsControlled depth body
  | _ => true

def stmtsControlled (depth : Nat) : List Stmt → Bool
  | [] => true
  | stmt :: rest => stmt.controlled depth && stmtsControlled depth rest

end

namespace Code

def controlled (depth : Nat) : Code → Bool
  | .stmt part => part.controlled depth
  | .stmts parts => stmtsControlled depth parts

def returns : Code → Bool
  | .stmt part => part.returns
  | .stmts parts => stmtsReturn parts

variable {code : Code} {outcome : Outcome}

/-- What leaves a loop is kept inside of it: a piece of code in which `break` and `continue` stand in
loops ends in neither of them. -/
theorem Executes.stays (h : code.Executes outcome) (hcontrolled : code.controlled 0 = true) :
    outcome = .falls ∨ outcome = .returns := by
  induction h with
  | bind | assign | expr | func | noBranch | loopEnd | loopBreak | nil => exact .inl rfl
  | ret | loopReturn => exact .inr rfl
  | breakLoop | continueLoop => cases hcontrolled
  | block _ ih => exact ih hcontrolled
  | @onTrue node cond onTrue onFalse _ _ ih =>
      refine ih ?_
      cases onFalse with
      | none => exact hcontrolled
      | some onFalse => exact (Bool.and_eq_true_iff.mp hcontrolled).1
  | onFalse _ ih => exact ih (Bool.and_eq_true_iff.mp hcontrolled).2
  | loopPass _ _ _ _ ihLoop => exact ihLoop hcontrolled
  | next _ _ _ ihRest => exact ihRest (Bool.and_eq_true_iff.mp hcontrolled).2
  | stop _ _ ih => exact ih (Bool.and_eq_true_iff.mp hcontrolled).1

/-- Code through which every path returns is never left at its end. -/
theorem Executes.ne_falls (h : code.Executes outcome) (hreturns : code.returns = true) :
    outcome ≠ .falls := by
  induction h with
  | bind | assign | expr | func | noBranch | loopEnd | loopPass | loopBreak | nil => cases hreturns
  | ret | breakLoop | continueLoop | loopReturn => simp
  | block _ ih => exact ih hreturns
  | @onTrue node cond onTrue onFalse _ _ ih =>
      cases onFalse with
      | none => cases hreturns
      | some onFalse => exact ih (Bool.and_eq_true_iff.mp hreturns).1
  | onFalse _ ih => exact ih (Bool.and_eq_true_iff.mp hreturns).2
  | next _ _ ihFirst ihRest =>
      rcases Bool.or_eq_true_iff.mp hreturns with hfirst | hrest
      · exact absurd rfl (ihFirst hfirst)
      · exact ihRest hrest
  | stop _ hstop _ => exact hstop

end Code

mutual

/-- A statement in which `break` and `continue` stand in loops can be left at its end if not every
path through it returns. -/
theorem Stmt.executes_falls : ∀ stmt : Stmt, stmt.controlled 0 = true → stmt.returns = false →
    (Code.stmt stmt).Executes .falls
  | .bind .., _, _ => .bind
  | .assign .., _, _ => .assign
  | .expr .., _, _ => .expr
  | .func .., _, _ => .func
  | .whileLoop .., _, _ => .loopEnd
  | .ifElse _ _ _ none, _, _ => .noBranch
  | .ifElse _ _ onTrue (some onFalse), hcontrolled, hreturns => by
      obtain ⟨htrue, hfalse⟩ := Bool.and_eq_true_iff.mp hcontrolled
      rw [Stmt.returns, Bool.and_eq_false_iff] at hreturns
      rcases hreturns with hreturns | hreturns
      · exact .onTrue (stmts_execute_falls onTrue htrue hreturns)
      · exact .onFalse (stmts_execute_falls onFalse hfalse hreturns)
  | .block _ body, hcontrolled, hreturns => .block (stmts_execute_falls body hcontrolled hreturns)

theorem stmts_execute_falls : ∀ stmts : List Stmt, stmtsControlled 0 stmts = true →
    stmtsReturn stmts = false → (Code.stmts stmts).Executes .falls
  | [], _, _ => .nil
  | stmt :: rest, hcontrolled, hreturns => by
      obtain ⟨hfirst, hrest⟩ := Bool.and_eq_true_iff.mp hcontrolled
      rw [stmtsReturn, Bool.or_eq_false_iff] at hreturns
      exact .next (stmt.executes_falls hfirst hreturns.1) (stmts_execute_falls rest hrest hreturns.2)

end

end Stela
