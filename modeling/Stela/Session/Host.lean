import Stela.Session

/-!
# Modules of the host

The host describes a module by a list of items, in which types are written as
program text. Each such text is a file of its own. An item is left out at its
first type that does not parse; the module is added only if all types do.
-/

namespace Stela

/-- A parameter of a host function, its type as text. -/
structure HostParam where
  name : String
  passing : RefKind
  type : String
deriving Repr, DecidableEq

/-- A field of a host type, its type as text. -/
structure HostFieldText where
  name : String
  type : String
  offset : UInt64
deriving Repr, DecidableEq

inductive HostItem where
  | importModule (name : String)
  | func (name : String) (params : List HostParam) (ret : Option String)
  | hostType (name : String) (size align : UInt64) (fields : List HostFieldText)
  | aliasType (name target : String) (strong : Bool)
deriving Repr, DecidableEq

/-- A host module under construction. -/
structure HostDraft where
  session : Session
  /-- The file that stands for the module. -/
  file : FileId
  imports : List Ident := []
  decls : List Decl := []
  errors : List Diagnostic := []
  /-- Whether a parser ran out of steps. -/
  spent : Bool := false
deriving Repr

/-- A step of the construction, which may give up on the current item. -/
abbrev HostBuild := OptionT (StateM HostDraft)

namespace HostBuild

/-- The place of everything that the host declares. -/
def place : HostBuild Span := do
  return { Span.dummy with file := (← get).file }

def ident (name : String) : HostBuild Ident := do
  return ⟨name, ← place⟩

/-- Parses a type, whose errors are collected. -/
def type (text : String) : HostBuild TypeExpr := do
  let draft ← get
  let (file, session) := draft.session.addFile s!"<host type `{text}`>" text
  let (result, nodes) := parseType text file session.nodes
  let draft := { draft with session := { session with nodes := nodes } }
  match result with
  | .ok type =>
    set draft
    return type
  | .error (.errors diagnostics) =>
    set { draft with errors := draft.errors ++ diagnostics }
    failure
  | .error .spent =>
    set { draft with spent := true }
    failure

def params : List HostParam → HostBuild (List Param)
  | [] => return []
  | param :: rest => do
    let type ← type param.type
    let name ← ident param.name
    let rest ← params rest
    return { name, mutability := .fixed, passing := param.passing, type, span := name.span } :: rest

def fields : List HostFieldText → HostBuild (List HostField)
  | [] => return []
  | field :: rest => do
    let type ← type field.type
    let name ← ident field.name
    let rest ← fields rest
    return ⟨name, type, field.offset⟩ :: rest

/-- Adds a declaration, which gets the next number. -/
def declare (decl : Node → Decl) : HostBuild Unit := do
  let span ← place
  modify fun draft =>
    let session := draft.session
    let nodes := { session.nodes with decls := session.nodes.decls + 1 }
    let decls := draft.decls ++ [decl ⟨session.nodes.decls, span⟩]
    { draft with session := { session with nodes := nodes }, decls := decls }

def item : HostItem → HostBuild Unit
  | .importModule name => do
    let name ← ident name
    modify fun draft => { draft with imports := draft.imports ++ [name] }
  | .func name parameters result => do
    let parameters ← params parameters
    let ret ← match result with
      | some text => do pure (some (← type text))
      | none => pure none
    let name ← ident name
    declare fun node => .func {
      node, name, sig := ⟨parameters, ret⟩, body := none, kind := .free, access := .everyone }
  | .hostType name size align layout => do
    let layout ← fields layout
    let name ← ident name
    declare fun node => .hostType node name size align layout
  | .aliasType name target strong => do
    let target ← type target
    let name ← ident name
    declare fun node => .aliasType node name target strong

end HostBuild

/-- Adds an item to a draft, unless one of its types does not parse. -/
def HostDraft.add (draft : HostDraft) (item : HostItem) : HostDraft :=
  ((HostBuild.item item).run.run draft).2

/-- Adds a module of the host. -/
def Session.addExternal (s : Session) (name : String) (items : List HostItem) :
    Except LoadError Unit × Session :=
  let fileName := s!"<host:{name}>"
  let (file, session) := s.addFile fileName ""
  let draft := items.foldl HostDraft.add { session := session, file := file }
  let session := draft.session
  if draft.spent then (.error .spent, session)
  else if draft.errors.isEmpty then
    let m : Module :=
      ⟨⟨name, { Span.dummy with file := file }⟩, draft.imports, draft.decls, file⟩
    (.ok (), { session with externals := session.externals ++ [m] })
  else (.error (.syntactic fileName draft.errors), session)

end Stela
