import Stela.Text.Alphanumeric
import Stela.Text.Blank

/-!
# Patterns of field values

A log filter may ask that the value of a field matches a regular expression.
`ValuePattern.fault?` says what is wrong with one.

The matcher has no tables of Unicode: the sets of digits, blanks and word
characters, and matching without regard to case, exist for ASCII only, so they
need the flags `(?-u)`. In that mode nothing may match a part of a character beyond
ASCII. A field ends at its first closing brace, so the forms with braces, which
are counts, properties and code points of any length, are never complete.
-/

namespace Stela

inductive PatternFault where
  /-- The text is no pattern, or asks for a set that the matcher lacks. -/
  | malformed
  /-- The pattern asks for the start or the end of a word beyond ASCII. -/
  | wordBoundary
deriving Repr, DecidableEq

def PatternFault.message : PatternFault → String
  | .malformed => "error building NFA"
  | .wordBoundary => "unsupported regex feature for DFAs: cannot build DFAs for regexes with "
      ++ "Unicode word boundaries; switch to ASCII word boundaries, or heuristically enable "
      ++ "Unicode word boundaries or use a different regex engine"

namespace ValuePattern

structure Flags where
  ignoreCase : Bool := false
  unicode : Bool := true
  /-- Whether white space and comments are skipped. -/
  spaced : Bool := false
deriving Repr, DecidableEq

namespace Flags

/-- Sets a flag by its letter. Those for lines and greed have no part in whether a
pattern is well formed. -/
def set? (flags : Flags) (letter : Char) (value : Bool) : Option Flags :=
  match letter with
  | 'i' => some { flags with ignoreCase := value }
  | 'u' => some { flags with unicode := value }
  | 'x' => some { flags with spaced := value }
  | 'm' | 's' | 'U' | 'R' => some flags
  | _ => none

/-- Drops white space and comments, from within a comment if `comment`. -/
def dropSpace (comment : Bool) : List Char → List Char
  | [] => []
  | c :: rest =>
    if comment then dropSpace (c != '\n') rest
    else if isWhiteSpace c then dropSpace false rest
    else if c = '#' then dropSpace true rest
    else c :: rest

def skip (flags : Flags) (text : List Char) : List Char :=
  if flags.spaced then dropSpace false text else text

/-- The character that decides whether a hyphen before the text makes a range. White
space does not count if it is skipped, nor does the mark of a comment, but the
text of a comment does. -/
def ahead? (flags : Flags) (text : List Char) : Option Char :=
  if flags.spaced then
    match text.dropWhile isWhiteSpace with
    | '#' :: rest => (rest.dropWhile isWhiteSpace).head?
    | rest => rest.head?
  else text.head?

end Flags

/-- What a character or an escape stands for. -/
inductive Atom where
  | literal (code : Nat)
  /-- The start or the end of the text. -/
  | place
  | wordBoundary
  /-- A set of ASCII characters. -/
  | set
deriving Repr, DecidableEq

def hexValue? (c : Char) : Option Nat :=
  if '0' ≤ c && c ≤ '9' then some (c.toNat - '0'.toNat)
  else if 'a' ≤ c && c ≤ 'f' then some (c.toNat - 'a'.toNat + 10)
  else if 'A' ≤ c && c ≤ 'F' then some (c.toNat - 'A'.toNat + 10)
  else none

/-- Reads a code point of some hexadecimal digits, behind those that gave `value`. -/
def readCode (flags : Flags) : Nat → Nat → List Char → Option (Nat × List Char)
  | 0, value, text => if value.isValidChar then some (value, text) else none
  | digits + 1, value, text =>
    match flags.skip text with
    | [] => none
    | c :: rest => do readCode flags digits (16 * value + (← hexValue? c)) rest

/-- Reads what stands behind a backslash. -/
def readEscape (flags : Flags) : List Char → Option (Atom × List Char)
  | [] => none
  | 'x' :: rest => do
    let (code, rest) ← readCode flags 2 0 rest
    if flags.unicode || code < 0x80 then some (.literal code, rest) else none
  | 'u' :: rest => do
    let (code, rest) ← readCode flags 4 0 rest
    some (.literal code, rest)
  | 'U' :: rest => do
    let (code, rest) ← readCode flags 8 0 rest
    some (.literal code, rest)
  | c :: rest =>
    match c with
    | 'a' => some (.literal 0x07, rest)
    | 't' => some (.literal 0x09, rest)
    | 'n' => some (.literal 0x0A, rest)
    | 'v' => some (.literal 0x0B, rest)
    | 'f' => some (.literal 0x0C, rest)
    | 'r' => some (.literal 0x0D, rest)
    | 'A' | 'z' => some (.place, rest)
    | 'b' | 'B' | '<' | '>' => some (.wordBoundary, rest)
    | 'd' | 's' | 'w' => if flags.unicode then none else some (.set, rest)
    | _ => if c.isAlphanum || 0x80 ≤ c.toNat then none else some (.literal c.toNat, rest)

def readAtom (flags : Flags) : List Char → Option (Atom × List Char)
  | [] => none
  | c :: rest => if c = '\\' then readEscape flags rest else some (.literal c.toNat, rest)

/-- Whether an atom may be a member of a class. -/
def isMember (flags : Flags) : Atom → Bool
  | .literal code => flags.unicode || code < 0x80
  | .set => true
  | .place | .wordBoundary => false

/-- Reads a member of a class or a range of members. A hyphen before the end of the
class or before another hyphen makes no range. -/
def readMember (flags : Flags) (text : List Char) : Option (List Char) := do
  let (first, rest) ← readAtom flags text
  if !isMember flags first then none
  else
    match flags.skip rest with
    | '-' :: behind =>
      if flags.ahead? behind = some ']' || flags.ahead? behind = some '-' then some ('-' :: behind)
      else
        let (last, rest) ← readAtom flags (flags.skip behind)
        match first, last with
        | .literal low, .literal high =>
          if isMember flags last && low ≤ high then some rest else none
        | _, _ => none
    | rest => some rest

def setNames : List String := ["alnum", "alpha", "ascii", "blank", "cntrl", "digit", "graph",
  "lower", "print", "punct", "space", "upper", "word", "xdigit"]

/-- Reads the name of a set between colons and a closing bracket, and whether the set is
negated. -/
def readSetName? : List Char → Option (Bool × List Char)
  | ':' :: text =>
    let (negated, text) := match text with
      | '^' :: text => (true, text)
      | text => (false, text)
    match text.span (· != ':') with
    | (name, ':' :: ']' :: rest) =>
      if setNames.contains (String.ofList name) then some (negated, rest) else none
    | _ => none
  | _ => none

/-- Reads the mark of negation behind the bracket that opens a class. Only in Unicode
mode does the complement of a class hold whole characters. -/
def openClass (flags : Flags) (text : List Char) : Option (List Char) :=
  match flags.skip text with
  | '^' :: rest => if flags.unicode then some rest else none
  | rest => some rest

inductive ClassPart where
  /-- Nothing was read, so that a hyphen or a closing bracket is a member. -/
  | start
  /-- Only hyphens were read, so that a hyphen is a member. -/
  | hyphens
  | members
deriving Repr, DecidableEq

/-- Reads to the end of a class in which `depth` classes stand open. Every step reads a
character, so that `steps` need not exceed the length of the text by more than one. -/
def readClass (flags : Flags) : (steps depth : Nat) → ClassPart → List Char → Option (List Char)
  | 0, _, _, _ => none
  | steps + 1, depth, part, text =>
    match part, flags.skip text with
    | _, [] => none
    | .start, '-' :: rest | .hyphens, '-' :: rest => readClass flags steps depth .hyphens rest
    | .start, ']' :: rest => readClass flags steps depth .members rest
    | _, '[' :: rest =>
      match readSetName? rest with
      | some (negated, rest) =>
        if negated && !flags.unicode then none else readClass flags steps depth .members rest
      | none => do readClass flags steps (depth + 1) .start (← openClass flags rest)
    | _, ']' :: rest =>
      match depth with
      | 0 => some rest
      | depth + 1 => readClass flags steps depth .members rest
    | _, '&' :: '&' :: rest | _, '-' :: '-' :: rest | _, '~' :: '~' :: rest =>
      readClass flags steps depth .members rest
    | _, text => do readClass flags steps depth .members (← readMember flags text)

def isNamePart (c : Char) : Bool :=
  c == '_' || c == '.' || c == '[' || c == ']' || isAlphanumeric c

/-- Reads the name of a group up to the angle bracket behind it. No name is given
twice. -/
def readName? (names : List (List Char)) (text : List Char) : Option (List Char × List Char) :=
  match text.span (· != '>') with
  | (c :: others, _ :: rest) =>
    if (c == '_' || isAlphabetic c) && others.all isNamePart && !names.contains (c :: others) then
      some (c :: others, rest)
    else none
  | _ => none

/-- Reads flags up to the mark behind them, which is a colon if they hold for a group and
a parenthesis if they hold from here on. Those behind a hyphen are cleared. The
letters in `seen` were read, the last first; none stands twice. -/
def readFlags (flags : Flags) (seen : List Char) : List Char → Option (Flags × Char × List Char)
  | [] => none
  | c :: rest =>
    if c = ':' || c = ')' then
      if seen.head? = some '-' || (c = ')' && seen.isEmpty) then none else some (flags, c, rest)
    else if seen.contains c then none
    else if c = '-' then readFlags flags (c :: seen) rest
    else
      match flags.set? c (!seen.contains '-') with
      | some flags => readFlags flags (c :: seen) rest
      | none => none

/-- What was read of a pattern. -/
structure Reader where
  flags : Flags := {}
  /-- Flags to return to behind each open group. -/
  outer : List Flags := []
  /-- Names of groups. -/
  names : List (List Char) := []
  /-- Whether something to repeat was read last. -/
  repeatable : Bool := false
  /-- Whether a word boundary beyond ASCII was read. -/
  wordBoundary : Bool := false
deriving Repr, DecidableEq

namespace Reader

def enter (r : Reader) (flags : Flags) : Reader :=
  { r with flags, outer := r.flags :: r.outer, repeatable := false }

/-- Reads what stands behind the parenthesis that opens a group. -/
def openGroup (r : Reader) (text : List Char) : Option (Reader × List Char) :=
  match r.flags.skip text with
  | '?' :: 'P' :: '<' :: rest | '?' :: '<' :: rest => do
    let (name, rest) ← readName? r.names rest
    some ({ r.enter r.flags with names := name :: r.names }, rest)
  | '?' :: rest => do
    let (flags, mark, rest) ← readFlags r.flags [] rest
    if mark = ':' then some (r.enter flags, rest)
    else some ({ r with flags, repeatable := false }, rest)
  | rest => some (r.enter r.flags, rest)

def closeGroup (r : Reader) : Option Reader :=
  match r.outer with
  | [] => none
  | flags :: outer => some { r with flags, outer, repeatable := true }

/-- Whether case is ignored beyond ASCII. -/
def folds (r : Reader) : Bool := r.flags.unicode && r.flags.ignoreCase

def atom (r : Reader) : Atom → Option Reader
  | .literal _ => if r.folds then none else some { r with repeatable := true }
  | .wordBoundary =>
    some { r with repeatable := true, wordBoundary := r.wordBoundary || r.flags.unicode }
  | .place | .set => some { r with repeatable := true }

/-- Reads to the end of a pattern. Every step reads a character, so that `steps` need
not exceed the length of the text by more than one. -/
def read : (steps : Nat) → Reader → List Char → Option Reader
  | 0, _, _ => none
  | steps + 1, r, text =>
    match r.flags.skip text with
    | [] => if r.outer.isEmpty then some r else none
    | '(' :: rest => do
      let (r, rest) ← r.openGroup rest
      read steps r rest
    | ')' :: rest => do read steps (← r.closeGroup) rest
    | '|' :: rest => read steps { r with repeatable := false } rest
    | '[' :: rest =>
      if r.folds then none
      else do
        let rest ← openClass r.flags rest
        let rest ← readClass r.flags (rest.length + 1) 0 .start rest
        read steps { r with repeatable := true } rest
    | '?' :: rest | '*' :: rest | '+' :: rest =>
      if r.repeatable then
        match rest with
        | '?' :: rest => read steps r rest
        | rest => read steps r rest
      else none
    | '\x7b' :: _ => none
    | '^' :: rest | '$' :: rest => read steps { r with repeatable := true } rest
    | '.' :: rest => if r.flags.unicode then read steps { r with repeatable := true } rest else none
    | text => do
      let (atom, rest) ← readAtom r.flags text
      read steps (← r.atom atom) rest

end Reader

/-- What is wrong with a pattern. -/
def fault? (text : List Char) : Option PatternFault :=
  match Reader.read (text.length + 1) {} text with
  | none => some .malformed
  | some r => if r.wordBoundary then some .wordBoundary else none

end ValuePattern

end Stela
