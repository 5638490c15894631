/-!
# Kinds of tokens

Keywords, operators and punctuation have one fixed spelling each, given by
`TokenKind.spelling?`; literals and identifiers are described by patterns.
-/

namespace Stela

inductive TokenKind where
  | kwBreak | kwContinue | kwElse | kwEnum | kwExtern | kwFalse | kwFunc | kwIf | kwImport
  | kwLet | kwModule | kwPrivate | kwRef | kwReturn | kwSelf | kwStatic | kwStruct | kwTrue
  | kwType | kwVar | kwWhile
  | intLit | realLit | stringLit | charLit | ident
  | plus | minus | star | slash | percent | amp | bar | caret | tilde | shl | shr | andAnd
  | orOr | bang | eq | eqEq | notEq | lt | ltEq | gt | gtEq | plusEq | minusEq | starEq
  | slashEq | percentEq | ampEq | barEq | caretEq | shlEq | shrEq | lparen | rparen | lbrace
  | rbrace | lbracket | rbracket | comma | semi | colon | dot | arrow | question
  /-- A block comment without an end. -/
  | unclosedComment
  /-- Text that starts no token. -/
  | invalid
  | eof
deriving Repr, DecidableEq, Inhabited

namespace TokenKind

/-- Keywords with their spelling. -/
def keywords : List (String × TokenKind) := [
  ("break", .kwBreak), ("continue", .kwContinue), ("else", .kwElse), ("enum", .kwEnum),
  ("extern", .kwExtern), ("false", .kwFalse), ("func", .kwFunc), ("if", .kwIf),
  ("import", .kwImport), ("let", .kwLet), ("module", .kwModule), ("private", .kwPrivate),
  ("ref", .kwRef), ("return", .kwReturn), ("self", .kwSelf), ("static", .kwStatic),
  ("struct", .kwStruct), ("true", .kwTrue), ("type", .kwType), ("var", .kwVar),
  ("while", .kwWhile)]

/-- Operators and punctuation with their spelling. -/
def symbols : List (String × TokenKind) := [
  ("+", .plus), ("-", .minus), ("*", .star), ("/", .slash), ("%", .percent), ("&", .amp),
  ("|", .bar), ("^", .caret), ("~", .tilde), ("<<", .shl), (">>", .shr), ("&&", .andAnd),
  ("||", .orOr), ("!", .bang), ("=", .eq), ("==", .eqEq), ("!=", .notEq), ("<", .lt),
  ("<=", .ltEq), (">", .gt), (">=", .gtEq), ("+=", .plusEq), ("-=", .minusEq), ("*=", .starEq),
  ("/=", .slashEq), ("%=", .percentEq), ("&=", .ampEq), ("|=", .barEq), ("^=", .caretEq),
  ("<<=", .shlEq), (">>=", .shrEq), ("(", .lparen), (")", .rparen), ("\x7b", .lbrace),
  ("\x7d", .rbrace), ("[", .lbracket), ("]", .rbracket), (",", .comma), (";", .semi),
  (":", .colon), (".", .dot), ("->", .arrow), ("?", .question)]

/-- Every token kind that is written in one way only. -/
def fixed : List (String × TokenKind) := keywords ++ symbols

/-- The one way a keyword, operator or punctuation mark is written. -/
def spelling? (kind : TokenKind) : Option String :=
  (fixed.find? fun entry => entry.2 == kind).map (·.1)

def isKeyword (kind : TokenKind) : Bool := keywords.any fun entry => entry.2 == kind

/-- The kind as diagnostics name it. -/
def description (kind : TokenKind) : String :=
  match kind with
  | .intLit => "integer literal"
  | .realLit => "real literal"
  | .stringLit => "string literal"
  | .charLit => "character literal"
  | .ident => "identifier"
  | .unclosedComment => "unclosed block comment"
  | .invalid => "invalid token"
  | .eof => "end of file"
  | kind =>
    let quoted := "`" ++ kind.spelling?.getD "" ++ "`"
    if kind.isKeyword then "keyword " ++ quoted else quoted

end TokenKind

end Stela
