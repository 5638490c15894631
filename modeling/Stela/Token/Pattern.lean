import Stela.Token.Kind

/-!
# Token patterns

A pattern describes a set of texts. `Pattern.reach` gives the length of the
longest prefix of a text that belongs to the set. All lengths count characters.
-/

namespace Stela

def isDecimalDigit (c : Char) : Bool := '0' ≤ c && c ≤ '9'

def isHexDigit (c : Char) : Bool :=
  isDecimalDigit c || ('a' ≤ c && c ≤ 'f') || ('A' ≤ c && c ≤ 'F')

def isIdentStart (c : Char) : Bool :=
  ('a' ≤ c && c ≤ 'z') || ('A' ≤ c && c ≤ 'Z') || c == '_'

def isIdentPart (c : Char) : Bool := isIdentStart c || isDecimalDigit c

/-- The blanks that separate tokens. No other character does. -/
def isBlank (c : Char) : Bool := c == ' ' || c == '\t' || c == '\r' || c == '\n'

inductive Pattern where
  /-- Exactly this text. -/
  | exact (text : List Char)
  /-- Decimal digits and underscores after a first digit, then maybe a suffix `u` or `b`. -/
  | decimal
  /-- Hexadecimal digits and underscores after the mark `0x`, then maybe a suffix `u`. -/
  | hexadecimal
  /-- Two digit groups around a point, then maybe an exponent. -/
  | real
  /-- Elements between double quotes. -/
  | string
  /-- One element between single quotes. -/
  | character
  | identifier
  /-- Two slashes and the rest of the line. -/
  | lineComment
  /-- The mark that opens a block comment. -/
  | blockComment
deriving Repr, DecidableEq

namespace Pattern

/-- Length of the longest prefix whose characters all satisfy `p`. -/
def span (p : Char → Bool) : List Char → Nat
  | [] => 0
  | c :: cs => if p c then span p cs + 1 else 0

/-- Length of a digit group: one digit, then digits and underscores. -/
def digits : List Char → Option Nat
  | [] => none
  | c :: cs =>
    if isDecimalDigit c then some (span (fun d => isDecimalDigit d || d == '_') cs + 1) else none

/-- Length of an integer suffix, which may be absent. -/
def suffix : List Char → Nat
  | [] => 0
  | c :: _ => if c == 'u' || c == 'b' then 1 else 0

/-- Length of an exponent, which is absent when it has no digit. -/
def exponent : List Char → Nat
  | [] => 0
  | e :: cs =>
    if e == 'e' || e == 'E' then
      let sign := match cs with
        | [] => 0
        | s :: _ => if s == '+' || s == '-' then 1 else 0
      match span isDecimalDigit (cs.drop sign) with
      | 0 => 0
      | n + 1 => sign + n + 2
    else 0

/-- Length of the longest run of complete string elements. An element is a
character other than the quote and the backslash, or a backslash with any
character other than a newline. -/
def stringElements : List Char → Nat
  | [] => 0
  | '"' :: _ => 0
  | '\\' :: [] => 0
  | '\\' :: c :: cs => if c == '\n' then 0 else stringElements cs + 2
  | _ :: cs => stringElements cs + 1

/-- Length of one element of a character literal. -/
def characterElement : List Char → Option Nat
  | [] => none
  | '\'' :: _ => none
  | '\\' :: [] => none
  | '\\' :: c :: _ => if c == '\n' then none else some 2
  | _ :: _ => some 1

/-- `some n` if the text continues with `c` after `n` characters. -/
def closedBy (c : Char) (cs : List Char) (n : Nat) : Option Nat :=
  if (cs.drop n).head? == some c then some (n + 1) else none

/-- Length of the longest prefix of the text that the pattern describes. -/
def reach : Pattern → List Char → Option Nat
  | .exact text, cs => if text.isPrefixOf cs then some text.length else none
  | .decimal, cs => (digits cs).map fun n => n + suffix (cs.drop n)
  | .hexadecimal, '0' :: 'x' :: cs =>
    match span (fun d => isHexDigit d || d == '_') cs with
    | 0 => none
    | n + 1 => some (n + 3 + suffix (cs.drop (n + 1)))
  | .hexadecimal, _ => none
  | .real, cs => do
    let whole ← digits cs
    let point ← closedBy '.' cs whole
    let fraction ← digits (cs.drop point)
    let n := point + fraction
    return n + exponent (cs.drop n)
  | .string, '"' :: cs => (closedBy '"' cs (stringElements cs)).map (· + 1)
  | .string, _ => none
  | .character, '\'' :: cs => do
    let n ← characterElement cs
    (closedBy '\'' cs n).map (· + 1)
  | .character, _ => none
  | .identifier, c :: cs => if isIdentStart c then some (span isIdentPart cs + 1) else none
  | .identifier, [] => none
  | .lineComment, '/' :: '/' :: cs => some (span (fun c => c != '\n') cs + 2)
  | .lineComment, _ => none
  | .blockComment, '/' :: '*' :: _ => some 2
  | .blockComment, _ => none

end Pattern

/-- What a matched pattern stands for. -/
inductive Lexeme where
  | token (kind : TokenKind)
  | lineComment
  | blockComment
deriving Repr, DecidableEq

/-- The patterns of the language. Of two equally long matches the earlier
pattern wins, so a keyword is never read as an identifier. -/
def Lexeme.patterns : List (Pattern × Lexeme) :=
  TokenKind.fixed.map (fun entry => (.exact entry.1.toList, .token entry.2)) ++ [
    (.decimal, .token .intLit),
    (.hexadecimal, .token .intLit),
    (.real, .token .realLit),
    (.string, .token .stringLit),
    (.character, .token .charLit),
    (.identifier, .token .ident),
    (.lineComment, .lineComment),
    (.blockComment, .blockComment)]

/-- Keeps the longer match, and the first of two equally long ones. -/
def Lexeme.better (best : Option (Lexeme × Nat)) (other : Lexeme × Nat) : Lexeme × Nat :=
  match best with
  | none => other
  | some current => if current.2 < other.2 then other else current

/-- The longest match of any pattern at the start of a text. -/
def Lexeme.longest (cs : List Char) : Option (Lexeme × Nat) :=
  patterns.foldl (fun best entry =>
    match entry.1.reach cs with
    | none => best
    | some n => some (better best (entry.2, n))) none

end Stela
