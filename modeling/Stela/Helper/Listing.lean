import Stela.Helper.Name

/-!
# Lists of lifetime helpers

`HelperList.request` asks for the helper of an operation on a type and adds it
together with the helpers it calls. Each pair of an operation and a
representation is added once. A helper is added before its calls are known, so
helpers of recursive types call each other instead of being added forever.
-/

namespace Stela

/-- A helper; its body is known once its calls have been added. -/
structure Helper where
  name : String
  op : LifetimeOp
  type : TypeId
  plan : Option LifetimePlan := none
  /-- Positions of the called helpers in the list. -/
  calls : List Nat := []
deriving Repr, DecidableEq

/-- Helpers in the order in which they were added. -/
abbrev HelperList := List Helper

namespace HelperList

def find? (helpers : HelperList) (op : LifetimeOp) (type : TypeId) : Option Nat :=
  helpers.findIdx? fun h => h.op == op && h.type == type

/-- The pairs whose helpers a helper calls: the same operation on each field, the
destruction of elements that need it, and of the old value in an assignment. -/
def needs (t : Tables) (op : LifetimeOp) (type : TypeId) : List (LifetimeOp × TypeId) :=
  match t.plan op type with
  | .fields steps => steps.map fun step => (op, step.type)
  | .release (.array element) =>
    if t.classify element = .triviallyCopyable then [] else [(.destroy, element)]
  | .retainAssign | .transferAssign => [(.destroy, type)]
  | _ => []

/-- Adds the helper for `op` on `type` and all that it calls, nesting at most
`bound` deep, and gives its position. The helper needs a name. -/
def requestWithin (t : Tables) :
    Nat → HelperList → LifetimeOp → TypeId → Option (Nat × HelperList)
  | 0, _, _, _ => none
  | bound + 1, helpers, op, type => do
    let type ← t.representation? type
    match helpers.find? op type with
    | some position => return (position, helpers)
    | none =>
      let position := helpers.length
      let name ← t.helperName? op type
      let declared := helpers ++ [{ name := name, op := op, type := type }]
      let step (acc : List Nat × HelperList) (need : LifetimeOp × TypeId) :
          Option (List Nat × HelperList) := do
        let (callee, helpers) ← requestWithin t bound acc.2 need.1 need.2
        return (acc.1 ++ [callee], helpers)
      let (calls, helpers) ← (needs t op type).foldlM step ([], declared)
      return (position, helpers.modify position fun h =>
        { h with plan := some (t.plan op type), calls := calls })

/-- Asks for the helper of an operation on a type. Requests nest no deeper than
there are pairs of an operation and a type. -/
def request (t : Tables) (helpers : HelperList) (op : LifetimeOp) (type : TypeId) :
    Option (Nat × HelperList) :=
  requestWithin t (LifetimeOp.all.length * t.types.size + 1) helpers op type

/-- The helpers for a list of requests, in order. -/
def ofRequests (t : Tables) (requests : List (LifetimeOp × TypeId)) : Option HelperList :=
  requests.foldlM (fun helpers r => (request t helpers r.1 r.2).map (·.2)) []

def nameAt (helpers : HelperList) (position : Nat) : String :=
  ((helpers[position]?).map Helper.name).getD ""

end HelperList

/-- What a helper does, in words. -/
def LifetimePlan.describe : LifetimePlan → String
  | .noop => "no-op"
  | .zero size => "zero " ++ toString size.toNat ++ " bytes"
  | .bitCopy size => "copy " ++ toString size.toNat ++ " bytes"
  | .emptyHandle => "store null handle"
  | .retain => "share block via stela_rc_retain"
  | .transfer => "take block, clear source"
  | .retainAssign => "share block via stela_rc_retain, release old"
  | .transferAssign => "release old, take block, clear source"
  | .release (.array _) => "release array via stela_array_release"
  | .release .closure => "release closure via stela_closure_release"
  | .fields steps => toString steps.length ++ " field(s)"

namespace HelperList

/-- One line for a helper: its name, what it does and what it calls. -/
def line (helpers : HelperList) (helper : Helper) : String :=
  let action := match helper.plan with
    | some plan => plan.describe
    | none => "<undefined>"
  let calls := match helper.calls with
    | [] => ""
    | calls => " -> " ++ ", ".intercalate (calls.map helpers.nameAt)
  helper.name ++ ": " ++ action ++ calls

def lines (helpers : HelperList) : List String := helpers.map helpers.line

end HelperList

end Stela
