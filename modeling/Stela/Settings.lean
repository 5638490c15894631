import Stela.Text.Blank

/-!
# Settings of a compilation

Settings have defaults, which environment variables override. Words are read
without regard to the case of ASCII letters; no other letter has a lower case
that occurs in them.
-/

namespace Stela

inductive MessageFormat where
  /-- Annotated source text. -/
  | human
  /-- One JSON object a line. -/
  | json
deriving Repr, DecidableEq

structure Settings where
  /-- Report declarations that nothing refers to. -/
  warnUnused : Bool := true
  /-- Report bindings that hide one of an enclosing scope. -/
  warnShadow : Bool := true
  /-- Relocate temporaries instead of moving and destroying them. -/
  elide : Bool := true
  format : MessageFormat := .human
  /-- Filter of the log. -/
  logFilter : String := "warn"
deriving Repr, DecidableEq

inductive SettingsError where
  | invalidValue (field reason : String)
  | badVariable (var reason : String)
deriving Repr, DecidableEq

namespace SettingsError

def message : SettingsError → String
  | .invalidValue field reason => s!"invalid configuration for '{field}': {reason}"
  | .badVariable var reason => s!"failed to parse environment variable '{var}': {reason}"

end SettingsError

def lowerAscii (s : String) : String := s.map Char.toLower

namespace MessageFormat

def ofName? (name : String) : Option MessageFormat :=
  match lowerAscii name with
  | "human" | "text" => some .human
  | "json" => some .json
  | _ => none

def all : List MessageFormat := [.human, .json]

def name : MessageFormat → String
  | .human => "human"
  | .json => "json"

end MessageFormat

namespace Settings

def readBool (text : String) : Option Bool :=
  match lowerAscii text with
  | "1" | "true" | "yes" | "on" => some true
  | "0" | "false" | "no" | "off" => some false
  | _ => none

/-- A boolean variable; the default stands if it is not set. -/
def boolVariable (env : String → Option String) (var : String) (default : Bool) :
    Except SettingsError Bool :=
  match env var with
  | none => .ok default
  | some text =>
    match readBool text with
    | some value => .ok value
    | none => .error (.badVariable var s!"expected a boolean, found `{text}`")

/-- Rejects a log filter that is blank. -/
def validate (s : Settings) : Except SettingsError Unit :=
  if s.logFilter.toList.all isWhiteSpace then
    .error (.invalidValue "log_filter" "must not be empty")
  else .ok ()

/-- The settings that environment variables ask for. The first bad variable, in
this order, is the error. -/
def ofEnv (env : String → Option String) : Except SettingsError Settings := do
  let base : Settings := {}
  let warnUnused ← boolVariable env "STELA_WARN_UNUSED" base.warnUnused
  let warnShadow ← boolVariable env "STELA_WARN_SHADOW" base.warnShadow
  let elide ← boolVariable env "STELA_RELOCATION_ELISION" base.elide
  let format ← match env "STELA_MESSAGE_FORMAT" with
    | none => .ok base.format
    | some text =>
      match MessageFormat.ofName? text with
      | some format => .ok format
      | none => .error (.badVariable "STELA_MESSAGE_FORMAT"
          s!"expected `human` or `json`, found `{text}`")
  let settings : Settings :=
    ⟨warnUnused, warnShadow, elide, format, (env "STELA_LOG").getD base.logFilter⟩
  settings.validate
  return settings

end Settings

end Stela
