import Stela.Check.State

/-!
# Transfers of values

A value that is stored somewhere gets a record of how it comes there. The
branches of a conditional expression are recorded one by one, so that a named
branch is copied and only a temporary one is relocated.
-/

namespace Stela.Check

/-- Records how the value of an expression reaches a destination of a type. -/
def recordTransfer (type : TypeId) (site : TransferSite) : Expr → ExprType → Check Unit
  | .ternary _ _ onTrue onFalse, source => do
    let typing (branch : Expr) : Check ExprType := do
      return (((← state).exprTypes.get? branch.id).map Typing.type).getD source
    recordTransfer type site onTrue (← typing onTrue)
    recordTransfer type site onFalse (← typing onFalse)
  | expr, source => do
    let category ← categoryOf type
    let from' := match source.refKind with
      | .reference => ValueSource.named
      | .value => .temporary
    let transfer := planTransfer category from' (site == .assign) (← settings).elide
    update fun s => { s with transfers := s.transfers ++ [⟨expr.node, type, site, transfer⟩] }

end Stela.Check
