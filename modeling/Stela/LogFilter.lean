import Stela.LogFilter.ValuePattern
import Stela.Text.Alphanumeric
import Stela.Text.Blank

/-!
# Log filters

A log filter is a list of directives between commas. A directive names a target,
a span in brackets with fields in braces, or both, and may end in `=` and a
level. A field is a name, maybe with `=` and a value, which is a number or a pattern.
`LogFilter.error?` finds what is wrong with the first bad directive.
-/

namespace Stela

inductive LogFilterError where
  | directive
  | field (fault : PatternFault)
  | level
deriving Repr, DecidableEq

def LogFilterError.message : LogFilterError → String
  | .directive => "invalid filter directive"
  | .field fault => "invalid field filter: " ++ fault.message
  | .level => "error parsing level filter: expected one of \"off\", \"error\", \"warn\", \"info\", "
      ++ "\"debug\", \"trace\", or a number 0-5"

namespace LogFilter

/-- Drops the characters whose first byte is one of the first `bytes` in UTF-8. -/
def dropBytes : (bytes : Nat) → List Char → List Char
  | 0, text => text
  | _, [] => []
  | bytes + 1, c :: rest => dropBytes (bytes + 1 - c.utf8Size) rest

/-- Takes the characters whose first byte is one of the first `bytes` in UTF-8. -/
def takeBytes : (bytes : Nat) → List Char → List Char
  | 0, _ => []
  | _, [] => []
  | bytes + 1, c :: rest => c :: takeBytes (bytes + 1 - c.utf8Size) rest

/-- Whether a text is empty or an exponent of ten. -/
def isExponent : List Char → Bool
  | [] => true
  | c :: rest =>
    let digits := match rest with
      | '+' :: digits | '-' :: digits => digits
      | digits => digits
    (c == 'e' || c == 'E') && !digits.isEmpty && digits.all Char.isDigit

/-- Whether a text is a number without a sign, in decimal digits. -/
def isDecimal (text : List Char) : Bool :=
  let (whole, rest) := text.span Char.isDigit
  let (fraction, rest) := match rest with
    | '.' :: rest => rest.span Char.isDigit
    | rest => ([], rest)
  !(whole.isEmpty && fraction.isEmpty) && isExponent rest

def isNumber (text : List Char) : Bool :=
  let unsigned := match text with
    | '+' :: unsigned | '-' :: unsigned => unsigned
    | unsigned => unsigned
  isDecimal unsigned
    || ["inf", "infinity", "nan"].contains (String.ofList (unsigned.map Char.toLower))

/-- What is wrong with a field. Its value ends before a second `=`. -/
def fieldFault? (field : List Char) : Option PatternFault :=
  match field.dropWhile (· != '=') with
  | [] => none
  | _ :: rest =>
    let value := rest.takeWhile (· != '=')
    if isNumber value then none else ValuePattern.fault? value

/-- The part of a directive that a reader is in. -/
inductive Part where
  | start
  /-- A target, or a level on its own. -/
  | target
  | span
  /-- A field between braces, which starts at a position. -/
  | field (start : Nat)
  | behindFields
  | behindSpan
deriving Repr, DecidableEq

/-- Whether a target may start with a character. -/
def startsTarget (c : Char) : Bool := c == '-' || c == ':' || c == '_' || isAlphanumeric c

/-- The position at which the level of a directive starts, if it gives one. Positions
count bytes. A field is cut out of the directive as it was `written`. -/
def levelStart? (written : List Char) :
    Part → Nat → List Char → Except LogFilterError (Option Nat)
  | .target, _, [] | .behindSpan, _, [] => .ok none
  | _, _, [] => .error .directive
  | part, position, c :: rest =>
    let next := position + c.utf8Size
    match part with
    | .start =>
      if c = '[' then levelStart? written .span next rest
      else if startsTarget c then levelStart? written .target next rest
      else .error .directive
    | .target =>
      if c = '=' then .ok (some next)
      else if c = '[' then levelStart? written .span next rest
      else levelStart? written .target next rest
    | .span =>
      if c = ']' then levelStart? written .behindSpan next rest
      else if c = '\x7b' then levelStart? written (.field next) next rest
      else levelStart? written .span next rest
    | .field start =>
      if c = '\x7d' then
        if position = start then .error .directive
        else
          match fieldFault? (takeBytes (position - start) (dropBytes start written)) with
          | some fault => .error (.field fault)
          | none => levelStart? written .behindFields next rest
      else levelStart? written (.field start) next rest
    | .behindFields =>
      if c = ']' then levelStart? written .behindSpan next rest else .error .directive
    | .behindSpan => if c = '=' then .ok (some next) else .error .directive

def levelNames : List String := ["off", "error", "warn", "info", "debug", "trace"]

/-- Whether a text is a number up to five, with or without a plus sign. -/
def isLevelNumber (text : List Char) : Bool :=
  let digits := match text with
    | '+' :: digits => digits
    | digits => digits
  !digits.isEmpty && digits.all Char.isDigit
    && digits.foldl (fun n c => 10 * n + (c.toNat - '0'.toNat)) 0 ≤ 5

/-- Whether a text is a level. Case does not matter, for ASCII letters only. -/
def isLevel (text : List Char) : Bool :=
  isLevelNumber text || levelNames.contains (String.ofList (text.map Char.toLower))

def trim (text : List Char) : List Char :=
  ((text.dropWhile isWhiteSpace).reverse.dropWhile isWhiteSpace).reverse

/-- What is wrong with a directive. White space around it is skipped, but a field and
the level are cut out of the directive as it was written, at the positions found
without the leading white space. -/
def directiveError? (written : List Char) : Option LogFilterError :=
  match levelStart? written .start 0 (trim written) with
  | .error error => some error
  | .ok none => none
  | .ok (some position) =>
    let level := dropBytes position written
    if level.isEmpty || isLevel level then none else some .level

/-- The pieces of a text between commas. -/
def directives : List Char → List (List Char)
  | [] => [[]]
  | c :: rest =>
    if c = ',' then [] :: directives rest
    else
      match directives rest with
      | first :: others => (c :: first) :: others
      | [] => [[c]]

/-- What is wrong with a filter. Empty directives are skipped. -/
def error? (filter : String) : Option LogFilterError :=
  ((directives filter.toList).filter fun d => !d.isEmpty).findSome? directiveError?

end LogFilter

end Stela
