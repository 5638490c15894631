import Stela.Syntax.Grammar

/-!
# Declarations and modules

A module is a header, imports and declarations. After an error the parser skips
to the next declaration, passing over braced blocks as a whole, so one broken
declaration does not hide the errors of the following ones.
-/

namespace Stela

namespace ParseState

/-- Passes tokens until `depth` open braces are closed. -/
def skipBlock : Nat → Nat → ParseState → ParseState
  | 0, _, s => s
  | bound + 1, depth, s =>
    if s.atEnd || depth == 0 then s
    else
      let depth := match s.kind with
        | .lbrace => depth + 1
        | .rbrace => depth - 1
        | _ => depth
      skipBlock bound depth s.advance

def startsDeclaration : TokenKind → Bool
  | .kwFunc | .kwExtern | .kwStruct | .kwEnum | .kwType | .kwLet | .kwVar => true
  | _ => false

/-- Passes tokens until a declaration can start. -/
def skipToDeclaration : Nat → ParseState → ParseState
  | 0, s => s
  | bound + 1, s =>
    if s.atEnd || startsDeclaration s.kind then s
    else if s.kind = .lbrace then
      skipToDeclaration bound (skipBlock s.ahead.length 1 s.advance)
    else skipToDeclaration bound s.advance

/-- Ends the recovery from an error at the next declaration. -/
def synchronize (s : ParseState) : ParseState :=
  skipToDeclaration (s.ahead.length + 1) { s with recovering := false }

end ParseState

namespace Parse

/-- A field of a struct; the current token is its name. -/
def fieldDecl (bound : Nat) (access : Access) : Parse FieldDecl := do
  let first ← currentSpan
  let name ← ident
  let _ ← expect .colon
  let type ← typeExpr bound
  let _ ← expect .semi
  return ⟨name, type, access, first.merge (← previousSpan)⟩

/-- A statement block at the given bound. -/
def body (bound : Nat) : Parse (List Stmt) := block (stmt bound) bound

def member (bound : Nat) : Parse Member := do
  let access := if ← accept .kwPrivate then Access.ownerOnly else .everyone
  match ← kind with
  | .kwStatic =>
    let _ ← advance
    let decl ← funcDecl (body bound) bound .static access
    return .func decl
  | .kwFunc =>
    let decl ← funcDecl (body bound) bound (.method .fixed) access
    return .func decl
  | .ident =>
    let decl ← fieldDecl bound access
    return .field decl
  | .kwVar =>
    if ← checkNext .kwFunc then
      let _ ← advance
      let decl ← funcDecl (body bound) bound (.method .mutable) access
      return .func decl
    else failHere (.expected "field or member function")
  | _ => failHere (.expected "field or member function")

/-- Members up to a closing brace, which is not read. -/
def members (bound : Nat) : Nat → Parse (List Member)
  | 0 => spent
  | n + 1 => do
    let s ← state
    if s.kind == .rbrace || s.atEnd then return []
    let first ← member bound
    let rest ← members bound n
    return first :: rest

/-- A struct; the current token is `struct`. -/
def structDecl (bound : Nat) : Parse Decl := do
  let first ← advance
  let name ← ident
  let _ ← expect .lbrace
  let members ← members bound bound
  let _ ← expect .rbrace
  newDecl id (fun node => .structType node name members) (first.span.merge (← previousSpan))

def enumCase : Parse EnumCase := do
  let name ← ident
  if ← accept .eq then
    let negative ← accept .minus
    let token ← expect .intLit
    let value ← literal (Literal.enumValue token.text negative) token.span
    return ⟨name, some value⟩
  else return ⟨name, none⟩

/-- An enumeration; the current token is `enum`. -/
def enumDecl (bound : Nat) : Parse Decl := do
  let first ← advance
  let name ← ident
  let _ ← expect .lbrace
  let cases ← commaList .rbrace enumCase bound
  let _ ← expect .rbrace
  newDecl id (fun node => .enumType node name cases) (first.span.merge (← previousSpan))

/-- A type alias; the current token is `type`. A weak alias is written with `=`. -/
def aliasDecl (bound : Nat) : Parse Decl := do
  let first ← advance
  let name ← ident
  let weak ← accept .eq
  let target ← typeExpr bound
  let _ ← expect .semi
  newDecl id (fun node => .aliasType node name target (!weak)) (first.span.merge (← previousSpan))

def declaration (bound : Nat) : Parse Decl := do
  match ← kind with
  | .kwFunc =>
    let decl ← funcDecl (body bound) bound .free .everyone
    return .func decl
  | .kwExtern =>
    let _ ← advance
    if ← check .kwFunc then
      let decl ← funcDecl (body bound) bound .free .everyone
      return .func decl
    else failHere (.expected "`func` after `extern`")
  | .kwStruct => structDecl bound
  | .kwEnum => enumDecl bound
  | .kwType => aliasDecl bound
  | .kwLet | .kwVar =>
    let first ← currentSpan
    let global ← binding (expr .lowest bound) bound
    newDecl id (fun node => .global node global) (first.merge (← previousSpan))
  | .kwImport => failHere fun _ => .lateImport
  | _ => failHere .expectedDeclaration

/-- Declarations up to the end of the input. A declaration with an error is
left out. -/
def declarations (bound : Nat) : Nat → Parse (List Decl)
  | 0 => spent
  | n + 1 => do
    if (← state).atEnd then return []
    let first ← attempt (declaration bound)
    if (← state).recovering then
      update ParseState.synchronize
      declarations bound n
    else
      match first with
      | some decl =>
        let rest ← declarations bound n
        return decl :: rest
      | none =>
        update ParseState.synchronize
        declarations bound n

/-- The module name that the header gives, if there is a header. -/
def header : Parse (Option Ident) := do
  if ← accept .kwModule then
    let name ← attempt ident
    let _ ← attempt (expect .semi)
    return some (name.getD ⟨"<error>", ← previousSpan⟩)
  else return none

def importDecl : Parse Ident := do
  let _ ← expect .kwImport
  let name ← ident
  let _ ← expect .semi
  return name

/-- The imports at the start of a module. -/
def imports : Nat → Parse (List Ident)
  | 0 => spent
  | n + 1 => do
    if ← check .kwImport then
      let first ← attempt importDecl
      let rest ← imports n
      return first.toList ++ rest
    else return []

def moduleDecl (file : FileId) (defaultName : String) (bound : Nat) : Parse Module := do
  let name ← header
  let imports ← imports bound
  let decls ← declarations bound bound
  return ⟨name.getD ⟨defaultName, { Span.dummy with file := file }⟩, imports, decls, file⟩

/-- A text that is one type and nothing else. -/
def wholeType (bound : Nat) : Parse TypeExpr := do
  let type ← attempt (typeExpr bound)
  if !(← state).atEnd then
    let _ ← attempt (failHere (.expected "end of type") : Parse Unit)
  match type with
  | some type => return type
  | none => fail

end Parse

def ParseState.diagnostics (s : ParseState) : List Diagnostic :=
  s.errors.map fun e => e.1.diagnostic e.2

/-- Why a text was not accepted. -/
inductive ParseFailure where
  | errors (diagnostics : List Diagnostic)
  /-- The step bound was too small. -/
  | spent
deriving Repr

/-- The nodes of the texts that were parsed. -/
structure Ast where
  nodes : NodeCount := {}
  /-- The latest node comes first. -/
  arena : List ArenaNode := []
deriving Repr

/-- The outcome of a run on a text. The text is accepted if no error was recorded; the nodes of a
rejected text stay. -/
def ParseResult.settle {α : Type} (before : Ast) : ParseResult α → Except ParseFailure α × Ast
  | .ok value s =>
    (if s.errors.isEmpty then .ok value else .error (.errors s.diagnostics), ⟨s.nodes, s.arena⟩)
  | .failed s => (.error (.errors s.diagnostics), ⟨s.nodes, s.arena⟩)
  | .spent => (.error .spent, before)

/-- Runs a parser on a text, behind the texts that were parsed before. -/
def Ast.parse {α : Type} (parser : Nat → Parse α) (source : String) (file : FileId) (ast : Ast) :
    Except ParseFailure α × Ast :=
  let start := { ParseState.start (lex source file) ast.nodes with arena := ast.arena }
  (parser start.stepBound start).settle ast

/-- Runs a parser on a text. Later stages are handed trees, so of the nodes only the count is kept. -/
def runParse {α : Type} (parser : Nat → Parse α) (source : String) (file : FileId)
    (nodes : NodeCount) : Except ParseFailure α × NodeCount :=
  let (result, ast) := Ast.parse parser source file { nodes := nodes }
  (result, ast.nodes)

/-- Parses a module. Without a header it has the default name. -/
def parseModule (source : String) (file : FileId) (defaultName : String) (nodes : NodeCount) :
    Except ParseFailure Module × NodeCount :=
  runParse (Parse.moduleDecl file defaultName) source file nodes

/-- Parses a text that holds exactly one type. -/
def parseType (source : String) (file : FileId) (nodes : NodeCount) :
    Except ParseFailure TypeExpr × NodeCount :=
  runParse Parse.wholeType source file nodes

end Stela
