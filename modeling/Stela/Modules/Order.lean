/-!
# Order of modules

Modules are analyzed after everything they import. `findOrder` puts them into
such an order by a depth-first walk that keeps the path it is on, and explains
why there is none otherwise. A repeated name is reported before anything else.
-/

namespace Stela

/-- A module and the names it imports. -/
structure ModuleImports where
  name : String
  imports : List String
deriving Repr, DecidableEq

inductive GraphError where
  | duplicateModule (name : String)
  | unknownModule (name importer : String)
  /-- The names along the cycle; the first is repeated at the end. -/
  | cyclicImport (cycle : List String)
deriving Repr, DecidableEq

namespace GraphError

def message : GraphError → String
  | .duplicateModule name => s!"module `{name}` is defined more than once"
  | .unknownModule name importer => s!"module `{importer}` imports unknown module `{name}`"
  | .cyclicImport cycle => "circular import detected: " ++ " -> ".intercalate cycle

end GraphError

namespace ModuleOrder

/-- The smaller of two names. -/
def least (best : Option String) (name : String) : Option String :=
  match best with
  | none => some name
  | some other => if name < other then some name else some other

/-- The least name that occurs more than once. -/
def leastRepeated (names : List String) : Option String :=
  (names.filter fun name => 2 ≤ names.count name).foldl least none

/-- The names of a path from its first visit to `module` on, closed to a cycle. -/
def cycleNames (modules : List ModuleImports) (path : List Nat) (module : Nat) : List String :=
  let name (m : Nat) : String := ((modules[m]?).map ModuleImports.name).getD ""
  (path.dropWhile (· != module)).map name ++ [name module]

/-- Adds a module behind everything it imports to `order`. The path holds the
modules whose imports are being added, outermost first; at most `bound` more
modules fit on it. -/
def visit (modules : List ModuleImports) (external : List String) :
    Nat → List Nat → List Nat → Nat → Except GraphError (List Nat)
  | bound, path, order, module =>
    if path.contains module then .error (.cyclicImport (cycleNames modules path module))
    else if order.contains module then .ok order
    else
      match bound, modules[module]? with
      | bound + 1, some entry => do
        let step (order : List Nat) (imported : String) : Except GraphError (List Nat) :=
          match modules.findIdx? fun m => m.name == imported with
          | some dependency => visit modules external bound (path ++ [module]) order dependency
          | none =>
            if external.contains imported then .ok order
            else .error (.unknownModule imported entry.name)
        let order ← entry.imports.foldlM step order
        return order ++ [module]
      | _, _ => .ok order

end ModuleOrder

/-- An order of the modules, as positions, in which each follows its imports.
External modules are there already and are not ordered. -/
def findOrder (modules : List ModuleImports) (external : List String) :
    Except GraphError (List Nat) :=
  match ModuleOrder.leastRepeated (modules.map ModuleImports.name ++ external) with
  | some name => .error (.duplicateModule name)
  | none =>
    (List.range modules.length).foldlM
      (ModuleOrder.visit modules external modules.length []) []

end Stela
