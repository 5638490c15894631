import Stela.Check.Module
import Stela.Helper.Listing
import Stela.Session

/-!
# Checking a session

The modules of the host are analyzed first and then those with source text, each
after its imports. The first error ends the analysis; it is also the last
diagnostic. Warnings about unused names are given only when there was no error.
-/

namespace Stela

/-- A program that was analyzed without an error. -/
structure Program where
  /-- The names of the source modules in the order of their analysis. -/
  order : List String
  /-- The state at the end of the analysis. -/
  final : CheckState
deriving Repr

/-- What a check found. -/
structure CheckReport where
  outcome : Except CheckFailure Program
  diagnostics : List Diagnostic
  /-- What the nodes mean, for a further check of the same session. -/
  meanings : Meanings

namespace Session

/-- The place of an error about the import graph: the header of the last module
of that name. -/
def placeOf (modules : List Module) : GraphError → Span
  | .duplicateModule name => headerOf name
  | .unknownModule _ importer => headerOf importer
  | .cyclicImport cycle => headerOf (cycle.head?.getD "")
where
  /-- The span of the header of a module, as far as it has one. -/
  headerOf (name : String) : Span :=
    match modules.reverse.find? fun m => m.name.name == name with
    | some m => m.name.span
    | none => .dummy

/-- The modules in an order that was found, or the error that there is none. -/
def arrange (modules : List Module) (order : Except GraphError (List Nat)) :
    Check (List Module) :=
  match order with
  | .ok order =>
    Check.require (order.mapM fun position => modules[position]?) (.missingModules order)
  | .error error => Check.raise (.graph error) (placeOf modules error)

/-- Analyzes every module and gives the names of the source modules in order. -/
def analyze (s : Session) : Check (List String) := do
  let externals ← arrange s.externals s.externalOrder
  let modules ← arrange s.modules s.moduleOrder
  let bound := s.nodes.decls + 1
  externals.forM (Check.checkModule bound true)
  modules.forM (Check.checkModule bound false)
  Check.warnUnused
  return modules.map fun m => m.name.name

/-- Checks a session. The bound on nested bodies is one more than the number of
declarations, of which functions are some. -/
def check (s : Session) (settings : Settings) (meanings : Meanings := {}) : CheckReport :=
  match s.analyze settings (.initial meanings) with
  | .ok order final => ⟨.ok ⟨order, final⟩, final.diagnostics, final.meanings⟩
  | .failed (.error error) final =>
    ⟨.error (.error error), final.diagnostics ++ [error.diagnostic], final.meanings⟩
  | .failed (.fault fault) final => ⟨.error (.fault fault), final.diagnostics, final.meanings⟩

/-- Checks a session for the second time: the nodes keep what they meant in the first check. -/
def recheck (s : Session) (settings : Settings) : CheckReport :=
  s.check settings (s.check settings).meanings

end Session

namespace Program

def tables (p : Program) : Tables := p.final.tables

/-- The captures of a closure in the order of their slots. -/
def captures (p : Program) (closure : SymbolId) : List Capture :=
  ((p.tables.symbols.closure? closure).map ClosureInfo.captures).getD []

/-- Whether values of a type need helpers at all. -/
def needsHelpers (p : Program) (type : TypeId) : Bool :=
  p.tables.classify type != .triviallyCopyable

/-- What an object asks for: its destruction, the receiver excepted. -/
def objectRequests (p : Program) (symbol : Symbol) : List (LifetimeOp × TypeId) :=
  match symbol.kind with
  | .object info =>
    if info.origin != .receiver && p.needsHelpers info.type.type then
      [(.destroy, info.type.type)]
    else []
  | _ => []

/-- Everything that asks for a helper, in no particular order: transfers, objects,
objects without an initializer, and captures, which are copied and destroyed. -/
def demands (p : Program) : List (LifetimeOp × TypeId) :=
  (p.final.transfers.flatMap fun r => r.transfer.helperOps.map fun op => (op, r.type)) ++
  (p.tables.symbols.entries.toList.flatMap p.objectRequests) ++
  ((p.final.defaults.filter fun d => p.needsHelpers d.2).map fun d => (.defConstruct, d.2)) ++
  (((p.final.closures.flatMap p.captures).filter fun c => p.needsHelpers c.type).flatMap fun c =>
    [(.copyConstruct, c.type), (.destroy, c.type)])

/-- The helpers that the program needs, by operation and then by type, each once. -/
def helperRequests (p : Program) : List (LifetimeOp × TypeId) :=
  let demands := p.demands
  LifetimeOp.all.flatMap fun op =>
    ((List.range p.tables.types.size).filter fun type => demands.contains (op, type)).map
      fun type => (op, type)

/-- The helpers that the program needs, with those that they call. -/
def helpers (p : Program) : Option HelperList := HelperList.ofRequests p.tables p.helperRequests

end Program

end Stela
