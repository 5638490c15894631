import Stela.Token.Pattern
import Stela.Source.Span
import Stela.Source.Lines

/-!
# From source text to tokens

`lex` cuts a text into tokens by longest match. Blanks and comments stand
between tokens and are dropped; a text that starts no token becomes an invalid
token. The list always ends in one `eof` token at the end of the text.
-/

namespace Stela

structure Token where
  kind : TokenKind
  /-- The characters of the token. -/
  text : String
  span : Span
deriving Repr, DecidableEq, Inhabited

namespace Lexer

/-- How a piece of text at the start of a token is consumed. -/
inductive Piece where
  | token (kind : TokenKind)
  | skipped
deriving Repr, DecidableEq

/-- Length up to and including the first `*/` of a text. -/
def commentEnd : List Char → Option Nat
  | '*' :: '/' :: _ => some 2
  | _ :: cs => (commentEnd cs).map (· + 1)
  | [] => none

/-- The kind of the first piece of a nonempty text and its length less one. A
text that starts no token is cut after one character; an unterminated string
also takes the complete elements behind its quote. -/
def firstPiece (c : Char) (cs : List Char) : Piece × Nat :=
  if isBlank c then (.skipped, 0)
  else
    match Lexeme.longest (c :: cs) with
    | some (.token kind, n) => (.token kind, n - 1)
    | some (.lineComment, n) => (.skipped, n - 1)
    | some (.blockComment, n) =>
      match commentEnd (cs.drop (n - 1)) with
      | some m => (.skipped, n - 1 + m)
      | none => (.token .unclosedComment, cs.length)
    | none =>
      (.token .invalid, if c = '"' then Pattern.stringElements cs else 0)

def utf8Length (cs : List Char) : Nat := cs.foldl (fun n c => n + c.utf8Size) 0

def spanAt (lines : Lines) (file : FileId) (start stop : Nat) : Span :=
  let position := lines.locate start
  ⟨file, start, stop, position.1, position.2⟩

/-- The tokens of a text that starts at byte `offset`. -/
def tokens (lines : Lines) (file : FileId) (offset : Nat) (text : List Char) : List Token :=
  match text with
  | [] => [⟨.eof, "", spanAt lines file offset offset⟩]
  | c :: cs =>
    let piece := firstPiece c cs
    let lexeme := c :: cs.take piece.2
    let stop := offset + utf8Length lexeme
    let rest := tokens lines file stop (cs.drop piece.2)
    match piece.1 with
    | .skipped => rest
    | .token kind => ⟨kind, String.ofList lexeme, spanAt lines file offset stop⟩ :: rest
termination_by text.length

end Lexer

/-- The tokens of a source text. -/
def lex (source : String) (file : FileId) : List Token :=
  Lexer.tokens (Lines.ofText source) file 0 source.toList

end Stela
