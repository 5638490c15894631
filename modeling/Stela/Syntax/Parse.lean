import Stela.Syntax.Tree
import Stela.Syntax.Error
import Stela.Token.Lexer

/-!
# Parsing steps

A parsing step reads tokens from the front of the input, numbers the nodes it
completes and records errors. It succeeds, or fails after the reason has been
recorded; running out of its step bound is a third outcome, kept apart from
failure. While the parser recovers from an error it records no further one.
-/

namespace Stela

/-- The state of a parser. -/
structure ParseState where
  current : Token
  /-- The tokens behind the current one; the last of all tokens is `eof`. -/
  ahead : List Token
  previous : Token
  errors : List (SyntaxError × Span) := []
  /-- An error was recorded and no declaration has been reached since. -/
  recovering : Bool := false
  nodes : NodeCount
  /-- The nodes of this text, the latest first. A node stays when the construct around it fails. -/
  arena : List ArenaNode := []
deriving Repr

namespace ParseState

def kind (s : ParseState) : TokenKind := s.current.kind

def atEnd (s : ParseState) : Bool := s.kind == .eof

/-- Records an error unless the parser is recovering from one. -/
def report (s : ParseState) (error : SyntaxError) (span : Span) : ParseState :=
  if s.recovering then s
  else { s with recovering := true, errors := s.errors ++ [(error, span)] }

/-- Records an invalid current token. -/
def checkCurrent (s : ParseState) : ParseState :=
  match s.kind with
  | .invalid => s.report .unexpectedCharacter s.current.span
  | .unclosedComment => s.report .unclosedBlockComment s.current.span
  | _ => s

/-- Moves to the next token. The end of the input is never passed. -/
def advance (s : ParseState) : ParseState :=
  if s.atEnd then { s with previous := s.current }
  else
    match s.ahead with
    | [] => { s with previous := s.current, current := ⟨.eof, "", s.current.span⟩ }
    | token :: rest =>
      checkCurrent { s with previous := s.current, current := token, ahead := rest }

/-- The state in front of the first token. -/
def start (tokens : List Token) (nodes : NodeCount) : ParseState :=
  let none : Token := ⟨.invalid, "", .dummy⟩
  match tokens with
  | [] => { current := ⟨.eof, "", .dummy⟩, ahead := [], previous := none, nodes := nodes }
  | token :: rest =>
    checkCurrent { current := token, ahead := rest, previous := none, nodes := nodes }

/-- A bound on the depth of any descent from this state: each token is read
behind a chain of at most seven steps. -/
def stepBound (s : ParseState) : Nat := 8 * (s.ahead.length + 2)

end ParseState

inductive ParseResult (α : Type) where
  | ok (value : α) (state : ParseState)
  /-- The input is not of the form; the state holds an error. -/
  | failed (state : ParseState)
  /-- The step bound was too small. -/
  | spent

/-- A parsing step. -/
def Parse (α : Type) : Type := ParseState → ParseResult α

namespace Parse

variable {α β : Type}

protected def pure (a : α) : Parse α := fun s => .ok a s

protected def bind (p : Parse α) (f : α → Parse β) : Parse β := fun s =>
  match p s with
  | .ok a s => f a s
  | .failed s => .failed s
  | .spent => .spent

instance : Monad Parse where
  pure := Parse.pure
  bind := Parse.bind

def fail : Parse α := fun s => .failed s

def spent : Parse α := fun _ => .spent

def state : Parse ParseState := fun s => .ok s s

def update (f : ParseState → ParseState) : Parse Unit := fun s => .ok () (f s)

/-- Gives up on `p` where it fails, keeping what it read and recorded. -/
def attempt (p : Parse α) : Parse (Option α) := fun s =>
  match p s with
  | .ok a s => .ok (some a) s
  | .failed s => .ok none s
  | .spent => .spent

def kind : Parse TokenKind := fun s => .ok s.kind s

def check (kind : TokenKind) : Parse Bool := fun s => .ok (s.kind == kind) s

/-- Whether the token behind the current one is of this kind. -/
def checkNext (kind : TokenKind) : Parse Bool := fun s =>
  .ok ((s.ahead.head?.map Token.kind).getD .eof == kind) s

/-- Reads the current token. -/
def advance : Parse Token := fun s => .ok s.current s.advance

def currentSpan : Parse Span := fun s => .ok s.current.span s

def previousSpan : Parse Span := fun s => .ok s.previous.span s

/-- Fails for a reason at a place. -/
def failAt (error : SyntaxError) (span : Span) : Parse α := fun s =>
  .failed (s.report error span)

/-- Fails for a reason that names the current token. -/
def failHere (error : TokenKind → SyntaxError) : Parse α := fun s =>
  .failed (s.report (error s.kind) s.current.span)

def expect (kind : TokenKind) : Parse Token := do
  if ← check kind then advance else failHere (.expected kind.description)

/-- Reads the current token if it is of this kind. -/
def accept (kind : TokenKind) : Parse Bool := do
  if ← check kind then
    let _ ← advance
    return true
  else return false

def ident : Parse Ident := do
  if ← check .ident then
    let token ← advance
    return ⟨token.text, token.span⟩
  else failHere .expectedIdentifier

/-- The value of a literal token that has been read. -/
def literal (value : Except SyntaxError α) (span : Span) : Parse α :=
  match value with
  | .ok a => pure a
  | .error error => failAt error span

def newExpr (make : Node → Expr) (span : Span) : Parse Expr := fun s =>
  let expr := make ⟨s.nodes.exprs, span⟩
  .ok expr { s with nodes.exprs := s.nodes.exprs + 1, arena := .expr expr :: s.arena }

def newStmt (make : Node → Stmt) (span : Span) : Parse Stmt := fun s =>
  let stmt := make ⟨s.nodes.stmts, span⟩
  .ok stmt { s with nodes.stmts := s.nodes.stmts + 1, arena := .stmt stmt :: s.arena }

/-- Numbers a declaration, which `entry` makes of what is read. -/
def newDecl (entry : α → Decl) (make : Node → α) (span : Span) : Parse α := fun s =>
  let decl := make ⟨s.nodes.decls, span⟩
  .ok decl { s with nodes.decls := s.nodes.decls + 1, arena := .decl (entry decl) :: s.arena }

def newType (make : Node → TypeExpr) (span : Span) : Parse TypeExpr := fun s =>
  let type := make ⟨s.nodes.types, span⟩
  .ok type { s with nodes.types := s.nodes.types + 1, arena := .type type :: s.arena }

/-- Items separated by commas up to `close`, which is not read. A comma may
follow the last item. -/
def commaList (close : TokenKind) (item : Parse α) : Nat → Parse (List α)
  | 0 => spent
  | bound + 1 => do
    if ← check close then return []
    let first ← item
    if ← accept .comma then
      let rest ← commaList close item bound
      return first :: rest
    else return [first]

/-- An optional part behind a mark. -/
def optionalAfter (mark : TokenKind) (item : Parse α) : Parse (Option α) := do
  if ← accept mark then
    let value ← item
    return some value
  else return none

end Parse

end Stela
