import Stela.Syntax.Tree

/-!
# Paths through a body

A body that must return a value has to do so on every path. A loop may run not
at all, so it never counts; a conditional counts if both branches do.
-/

namespace Stela

mutual

/-- Whether every path through a statement returns. -/
def Stmt.returns : Stmt → Bool
  | .ret .. => true
  | .ifElse _ _ onTrue (some onFalse) => stmtsReturn onTrue && stmtsReturn onFalse
  | .block _ body => stmtsReturn body
  | _ => false

/-- Whether every path through a list of statements returns. -/
def stmtsReturn : List Stmt → Bool
  | [] => false
  | stmt :: rest => stmt.returns || stmtsReturn rest

end

end Stela
