import Stela.Diagnostic
import Stela.Modules.Order

/-!
# Semantic errors

The first semantic error ends the analysis. `TypeErrorKind` is its cause,
`TypeError` adds the place, a hint and a related place.
-/

namespace Stela

/-- Why a `return`, or its absence, is rejected. -/
inductive ReturnProblem where
  | missingValue (function : String)
  | valueInVoid (function : String)
  | notAllPathsReturn (function : String)
  /-- The result type depends on the function itself only. -/
  | undeducibleRecursion (function : String)
  /-- The result of a recursive call was used before its type was known. -/
  | recursiveCallOutsideReturn (function : String)
  | outsideFunction
deriving Repr, DecidableEq

inductive TypeErrorKind where
  | mismatch (expected found : String)
  | cannotInfer (what : String)
  | undefinedType (name : String)
  | recursiveAlias (name : String)
  | undefinedSymbol (name : String)
  | notAType (name : String)
  | notAFunction (type : String)
  | notAValue (name : String)
  | noField (type field : String)
  | redefinition (name : String)
  | duplicateField (owner name : String)
  /-- None of the candidates, or more than one, accepts the arguments. -/
  | noMatchingOverload (name : String) (args : List String) (candidates : Nat)
  | ambiguousReference (name : String)
  | invalidOperand (op : String) (operands : List String)
  | immutabilityViolation (what : String)
  | badReturn (reason : ReturnProblem)
  | memberAccess (owner member reason : String)
  | loopControl (keyword : String)
  | graph (error : GraphError)
deriving Repr, DecidableEq

namespace ReturnProblem

def message : ReturnProblem → String
  | .missingValue function => s!"`{function}` must return a value"
  | .valueInVoid function => s!"`{function}` returns `void` but a value is returned"
  | .notAllPathsReturn function => s!"not every path through `{function}` returns a value"
  | .undeducibleRecursion function =>
    s!"cannot deduce the return type of `{function}` from its own recursion"
  | .recursiveCallOutsideReturn function =>
    s!"the result of recursive call to `{function}` is used before its return type is known"
  | .outsideFunction => "`return` outside of a function"

end ReturnProblem

namespace TypeErrorKind

/-- The stable code of an error. -/
def code : TypeErrorKind → String
  | .mismatch .. => "E0201"
  | .cannotInfer _ => "E0202"
  | .undefinedType _ => "E0203"
  | .recursiveAlias _ => "E0205"
  | .undefinedSymbol _ => "E0208"
  | .notAType _ => "E0209"
  | .notAFunction _ => "E0210"
  | .notAValue _ => "E0211"
  | .noField .. => "E0213"
  | .redefinition _ => "E0214"
  | .duplicateField .. => "E0215"
  | .noMatchingOverload .. => "E0216"
  | .ambiguousReference _ => "E0217"
  | .invalidOperand .. => "E0218"
  | .immutabilityViolation _ => "E0219"
  | .badReturn _ => "E0220"
  | .memberAccess .. => "E0221"
  | .loopControl _ => "E0222"
  | .graph (.duplicateModule _) => "E0301"
  | .graph (.unknownModule ..) => "E0302"
  | .graph (.cyclicImport _) => "E0303"

def message : TypeErrorKind → String
  | .mismatch expected found => s!"type mismatch: expected `{expected}`, found `{found}`"
  | .cannotInfer what => s!"cannot infer the type of {what}"
  | .undefinedType name => s!"cannot find type `{name}` in this scope"
  | .recursiveAlias name => s!"type alias `{name}` refers to itself"
  | .undefinedSymbol name => s!"cannot find `{name}` in this scope"
  | .notAType name => s!"`{name}` is not a type"
  | .notAFunction type => s!"expected function, found `{type}`"
  | .notAValue name => s!"`{name}` cannot be used as a value"
  | .noField type field => s!"no member `{field}` on type `{type}`"
  | .redefinition name => s!"the name `{name}` is defined multiple times"
  | .duplicateField owner name => s!"`{name}` is declared more than once in `{owner}`"
  | .noMatchingOverload name args candidates =>
    let what := if candidates = 0 then "no overload of" else s!"{candidates} overloads of"
    s!"{what} `{name}` accept(s) arguments (" ++ ", ".intercalate args ++ ")"
  | .ambiguousReference name => s!"reference to `{name}` is ambiguous"
  | .invalidOperand op operands =>
    s!"operator `{op}` cannot be applied to `" ++ "`, `".intercalate operands ++ "`"
  | .immutabilityViolation what => s!"cannot assign to {what}"
  | .badReturn reason => reason.message
  | .memberAccess owner member reason => s!"cannot access `{owner}.{member}`: {reason}"
  | .loopControl keyword => s!"`{keyword}` outside of a loop"
  | .graph error => error.message

end TypeErrorKind

structure TypeError where
  kind : TypeErrorKind
  span : Span
  help : Option String := none
  /-- Another place that matters, such as an earlier definition. -/
  related : Option (Span × String) := none
deriving Repr, DecidableEq

def TypeError.diagnostic (e : TypeError) : Diagnostic where
  severity := .error
  code := some e.kind.code
  message := e.kind.message
  span := e.span
  labels := e.related.toList.map fun r => { span := r.1, message := r.2 }
  suggestions := e.help.toList

end Stela
