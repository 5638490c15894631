import Stela.Diagnostic
import Stela.Token.Kind

/-!
# Syntax errors

`SyntaxCode` is the stable catalogue of error classes that a user can look up;
`SyntaxError` is the cause found in a text, with its wording.
-/

namespace Stela

inductive SyntaxCode where
  | unexpectedCharacter
  | unclosedBlockComment
  | invalidInteger
  | invalidFloat
  | invalidChar
  | unexpectedToken
  | unexpectedEof
  | invalidItem
  | expectedIdentifier
  | expectedType
  | expectedExpression
  | missingFunctionBody
deriving Repr, DecidableEq

namespace SyntaxCode

def number : SyntaxCode → Nat
  | .unexpectedCharacter => 1
  | .unclosedBlockComment => 2
  | .invalidInteger => 5
  | .invalidFloat => 6
  | .invalidChar => 7
  | .unexpectedToken => 100
  | .unexpectedEof => 101
  | .invalidItem => 103
  | .expectedIdentifier => 108
  | .expectedType => 109
  | .expectedExpression => 110
  | .missingFunctionBody => 114

/-- The code as printed: the letter `E` and four digits. -/
def text (code : SyntaxCode) : String :=
  let digits := toString code.number
  "E" ++ String.ofList (List.replicate (4 - digits.length) '0') ++ digits

def description : SyntaxCode → String
  | .unexpectedCharacter => "unexpected character in source"
  | .unclosedBlockComment => "unclosed block comment"
  | .invalidInteger => "invalid integer literal"
  | .invalidFloat => "invalid float literal"
  | .invalidChar => "invalid character literal"
  | .unexpectedToken => "unexpected token"
  | .unexpectedEof => "unexpected end of file"
  | .invalidItem => "invalid item in this context"
  | .expectedIdentifier => "expected identifier"
  | .expectedType => "expected type"
  | .expectedExpression => "expected expression"
  | .missingFunctionBody => "missing function body"

def help : SyntaxCode → Option String
  | .unclosedBlockComment => some "add `*/` to close the block comment"
  | .missingFunctionBody =>
    some "add a function body `\x7b ... \x7d` or declare it `extern func`"
  | _ => none

/-- The general diagnostic of an error class at a place. -/
def diagnostic (code : SyntaxCode) (span : Span) : Diagnostic where
  severity := .error
  code := some code.text
  message := code.description
  span := span
  suggestions := code.help.toList

end SyntaxCode

/-- What is wrong with a text. -/
inductive SyntaxError where
  | unexpectedCharacter
  | unclosedBlockComment
  /-- Something other than what had to stand here. -/
  | expected (what : String) (found : TokenKind)
  | expectedIdentifier (found : TokenKind)
  | expectedType (found : TokenKind)
  | expectedExpression (found : TokenKind)
  | expectedDeclaration (found : TokenKind)
  | lateImport
  | missingFunctionBody
  | untypedVariable
  | invalidEnumValue
  | invalidInteger
  | byteOutOfRange
  | invalidCharacter
  | invalidEscape
deriving Repr, DecidableEq

namespace SyntaxError

def code : SyntaxError → SyntaxCode
  | .unexpectedCharacter => .unexpectedCharacter
  | .unclosedBlockComment => .unclosedBlockComment
  | .expected _ found => if found = .eof then .unexpectedEof else .unexpectedToken
  | .expectedIdentifier _ => .expectedIdentifier
  | .expectedType _ => .expectedType
  | .expectedExpression _ => .expectedExpression
  | .expectedDeclaration _ => .invalidItem
  | .lateImport => .invalidItem
  | .missingFunctionBody => .missingFunctionBody
  | .untypedVariable => .expectedType
  | .invalidEnumValue => .invalidInteger
  | .invalidInteger => .invalidInteger
  | .byteOutOfRange => .invalidInteger
  | .invalidCharacter => .invalidChar
  | .invalidEscape => .invalidChar

def message : SyntaxError → String
  | .unexpectedCharacter => "unexpected character"
  | .unclosedBlockComment => "unclosed block comment"
  | .expected what found => "expected " ++ what ++ ", found " ++ found.description
  | .expectedIdentifier found => "expected identifier, found " ++ found.description
  | .expectedType found => "expected type, found " ++ found.description
  | .expectedExpression found => "expected expression, found " ++ found.description
  | .expectedDeclaration found => "expected declaration, found " ++ found.description
  | .lateImport => "imports must precede every declaration"
  | .missingFunctionBody => "missing function body"
  | .untypedVariable => "a variable needs a type annotation or an initializer"
  | .invalidEnumValue => "invalid enum case value"
  | .invalidInteger => "invalid integer literal"
  | .byteOutOfRange => "byte literal out of range"
  | .invalidCharacter => "invalid character literal"
  | .invalidEscape => "invalid escape in string literal"

def diagnostic (error : SyntaxError) (span : Span) : Diagnostic where
  severity := .error
  code := some error.code.text
  message := error.message
  span := span

end SyntaxError

end Stela
