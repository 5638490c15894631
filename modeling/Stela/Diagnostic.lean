import Stela.Source.Span

/-!
# Diagnostics

A diagnostic says what is wrong, where, and which other places matter. Every
part of the compiler reports in this form; only its last layer turns it into
text. `Diagnostic.jsonLine` is the machine-readable form, one line for each.
-/

namespace Stela

inductive Severity where
  | error | warning | note
deriving Repr, DecidableEq

/-- A further place that a diagnostic points at. -/
structure Label where
  span : Span
  message : String
  primary : Bool := false
deriving Repr, DecidableEq

structure Diagnostic where
  severity : Severity
  code : Option String
  message : String
  span : Span
  labels : List Label := []
  suggestions : List String := []
deriving Repr, DecidableEq

namespace Severity

def name : Severity → String
  | .error => "error"
  | .warning => "warning"
  | .note => "note"

end Severity

namespace Json

def hexDigit (n : Nat) : Char := if n < 10 then Char.ofNat (48 + n) else Char.ofNat (87 + n)

/-- A character inside a quoted text: quotes, backslashes and control
characters are escaped, all others stand for themselves. -/
def escape (c : Char) : List Char :=
  match c with
  | '"' => ['\\', '"']
  | '\\' => ['\\', '\\']
  | '\n' => ['\\', 'n']
  | '\r' => ['\\', 'r']
  | '\t' => ['\\', 't']
  | '\x08' => ['\\', 'b']
  | '\x0c' => ['\\', 'f']
  | c =>
    if c.toNat < 32 then ['\\', 'u', '0', '0', hexDigit (c.toNat / 16), hexDigit (c.toNat % 16)]
    else [c]

def quote (s : String) : String :=
  String.ofList ('"' :: s.toList.flatMap escape ++ ['"'])

def array (items : List String) : String := "[" ++ ",".intercalate items ++ "]"

/-- Fields in the given order. -/
def object (fields : List (String × String)) : String :=
  "\x7b" ++ ",".intercalate (fields.map fun f => quote f.1 ++ ":" ++ f.2) ++ "\x7d"

def bool (b : Bool) : String := if b then "true" else "false"

end Json

def Span.json (s : Span) : String :=
  Json.object [("file", toString s.file), ("start", toString s.start), ("end", toString s.stop),
    ("start_line", toString s.line), ("start_col", toString s.col)]

def Label.json (l : Label) : String :=
  Json.object [("span", l.span.json), ("message", Json.quote l.message),
    ("primary", Json.bool l.primary)]

namespace Diagnostic

def isError (d : Diagnostic) : Bool := d.severity == .error

def isWarning (d : Diagnostic) : Bool := d.severity == .warning

/-- The diagnostic as one line of JSON. -/
def jsonLine (d : Diagnostic) : String :=
  Json.object [("kind", Json.quote d.severity.name),
    ("code", match d.code with
      | some code => Json.quote code
      | none => "null"),
    ("message", Json.quote d.message), ("span", d.span.json),
    ("labels", Json.array (d.labels.map Label.json)),
    ("suggestions", Json.array (d.suggestions.map Json.quote))]

end Diagnostic

end Stela
