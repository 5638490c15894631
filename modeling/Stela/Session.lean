import Stela.Modules.Order
import Stela.Source.Path
import Stela.Syntax.Module

/-!
# Sessions

A session holds the sources of one compilation. Files are numbered in the order
in which they are met, also those that turn out to be unreadable as programs,
and syntax nodes are numbered on across all of them.
-/

namespace Stela

structure SourceFile where
  name : String
  text : String
deriving Repr, DecidableEq

structure Session where
  files : List SourceFile := []
  nodes : NodeCount := {}
  /-- Modules with source text, in the order they were added. -/
  modules : List Module := []
  /-- Modules that the host provides. -/
  externals : List Module := []
deriving Repr

/-- Why a module could not be added. -/
inductive LoadError where
  | syntactic (file : String) (diagnostics : List Diagnostic)
  /-- The step bound of a parser was too small. -/
  | spent
deriving Repr

namespace LoadError

def message : LoadError → String
  | .syntactic file diagnostics => s!"{diagnostics.length} syntax error(s) in {file}"
  | .spent => "the parser did not finish"

def diagnostics : LoadError → List Diagnostic
  | .syntactic _ diagnostics => diagnostics
  | .spent => []

end LoadError

namespace Session

def empty : Session := {}

def fileName (s : Session) (file : FileId) : String :=
  ((s.files[file]?).map SourceFile.name).getD "<unknown>"

def fileText (s : Session) (file : FileId) : String :=
  ((s.files[file]?).map SourceFile.text).getD ""

/-- Adds a file and gives its number. -/
def addFile (s : Session) (name text : String) : FileId × Session :=
  (s.files.length, { s with files := s.files ++ [⟨name, text⟩] })

/-- Parses a text as a module and gives the position of the module. Without a
header the module is named after the file. -/
def addSource (s : Session) (name text : String) : Except LoadError Nat × Session :=
  let (file, s) := s.addFile name text
  match parseModule text file (Path.stem name) s.nodes with
  | (.ok m, nodes) =>
    (.ok s.modules.length, { s with nodes := nodes, modules := s.modules ++ [m] })
  | (.error (.errors diagnostics), nodes) =>
    (.error (.syntactic name diagnostics), { s with nodes := nodes })
  | (.error .spent, nodes) => (.error .spent, { s with nodes := nodes })

/-- The names and imports of modules. -/
def importsOf (modules : List Module) : List ModuleImports :=
  modules.map fun m => ⟨m.name.name, m.imports.map Ident.name⟩

/-- The order in which the source modules are analyzed, as positions. -/
def moduleOrder (s : Session) : Except GraphError (List Nat) :=
  findOrder (importsOf s.modules) (s.externals.map fun m => m.name.name)

/-- The order in which the modules of the host are analyzed. -/
def externalOrder (s : Session) : Except GraphError (List Nat) :=
  findOrder (importsOf s.externals) []

end Session

end Stela
