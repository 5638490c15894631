import Stela.Command.Arguments
import Stela.Command.Directory
import Stela.LogFilter
import Stela.Session.Check

/-!
# Commands

`Command.run` is the whole program as a function of its arguments, its
environment and the files it may read. Diagnostics go to the standard output as
JSON, or to the error output for people. A wrong command line or environment
ends with 2, everything else that fails with 1.
-/

namespace Stela

/-- What a run leaves behind: an exit code and the lines it printed. -/
structure RunResult where
  exit : Nat
  stdout : List String := []
  stderr : List String := []
deriving Repr, DecidableEq

/-- A result followed by more lines and an exit code. -/
def RunResult.after (first : RunResult) (exit : Nat) (stdout stderr : List String := []) :
    RunResult :=
  { exit := exit, stdout := first.stdout ++ stdout, stderr := first.stderr ++ stderr }

namespace Command

/-- The number of this version. -/
def version : String := "0.3.0"

def usage : List String :=
  ["Usage: stelac [OPTIONS] <check|order|helpers> <FILE>...",
    "Options:",
    "  -v, --verbose                 Increase log verbosity",
    "      --message-format <FORMAT> Print diagnostics as `human` or `json`",
    "      --no-warn-unused          Do not report unused declarations",
    "  -h, --help                    Print help",
    "  -V, --version                 Print version"]

/-- A diagnostic for people, with its place if it has one. -/
def humanLine (session : Session) (d : Diagnostic) : String :=
  let kind := match d.severity with
    | .error => "Error"
    | .warning => "Warning"
    | .note => "Note"
  let code := d.code.getD ""
  let text := s!"{kind} [{code}]: {d.message}"
  if d.span.isDummy then text
  else
    let name := session.fileName d.span.file
    s!"{name}:{d.span.line}:{d.span.col}: {text}"

/-- Diagnostics in the format that was asked for. -/
def printed (session : Session) (format : MessageFormat) (ds : List Diagnostic) : RunResult :=
  match format with
  | .json => { exit := 0, stdout := ds.map Diagnostic.jsonLine }
  | .human => { exit := 0, stderr := ds.map (humanLine session) }

/-- The sources of a run with the syntax errors in them. -/
structure Loaded where
  session : Session
  syntaxErrors : List Diagnostic

/-- Reads files into a session. Syntax errors are collected over all files; a
file that cannot be read ends the run. -/
def load (read : String → Except ReadError String) :
    Loaded → List String → Except RunResult Loaded
  | loaded, [] => .ok loaded
  | loaded, path :: rest =>
    match read path with
    | .error error =>
      .error { exit := 1, stderr := [s!"error: failed to read {path}: {error.message}"] }
    | .ok text =>
      match loaded.session.addSource path text with
      | (.ok _, session) => load read ⟨session, loaded.syntaxErrors⟩ rest
      | (.error (.syntactic _ diagnostics), session) =>
        load read ⟨session, loaded.syntaxErrors ++ diagnostics⟩ rest
      | (.error .spent, _) => .error { exit := 1, stderr := [LoadError.spent.message] }

/-- The report of a failed analysis. -/
def failed (shown : RunResult) (format : MessageFormat) : RunResult :=
  shown.after 1 [] (if format = .human then ["Compilation failed."] else [])

/-- Analyzes what was loaded. The result holds the diagnostics and, if there was
no error, the program. -/
def analyze (loaded : Loaded) (settings : Settings) : RunResult × Option Program :=
  let session := loaded.session
  if loaded.syntaxErrors.isEmpty then
    let report := session.check settings
    let shown := printed session settings.format report.diagnostics
    match report.outcome with
    | .ok program => (shown, some program)
    | .error _ => (failed shown settings.format, none)
  else (failed (printed session settings.format loaded.syntaxErrors) settings.format, none)

/-- Prints the names of the modules in the order of their analysis. -/
def runOrder (loaded : Loaded) (settings : Settings) : RunResult :=
  let session := loaded.session
  if !loaded.syntaxErrors.isEmpty then
    (printed session settings.format loaded.syntaxErrors).after 1
  else
    match session.moduleOrder with
    | .ok order =>
      let modules := order.filterMap fun position => session.modules[position]?
      { exit := 0, stdout := modules.map fun m => m.name.name }
    | .error error => { exit := 1, stderr := [s!"error: {error.message}"] }

/-- Analyzes the modules and says how many there are. -/
def runCheck (loaded : Loaded) (settings : Settings) : RunResult :=
  match analyze loaded settings with
  | (shown, some program) =>
    if settings.format = .human then
      shown.after 0 [s!"info: {program.order.length} module(s) checked successfully."]
    else shown
  | (shown, none) => shown

/-- Analyzes the modules and lists the helpers that the program needs. -/
def runHelpers (loaded : Loaded) (settings : Settings) : RunResult :=
  match analyze loaded settings with
  | (shown, some program) =>
    match program.helpers with
    | some helpers => shown.after 0 helpers.lines
    | none => shown.after 1
  | (shown, none) => shown

/-- The warning about a log filter that makes no sense; asking for more output on
the command line replaces the filter. -/
def filterWarning (options : Options) (settings : Settings) : List String :=
  if options.verbosity = 0 then
    match LogFilter.error? settings.logFilter with
    | some error => [s!"warning: invalid log filter `{settings.logFilter}`: {error.message}"]
    | none => []
  else []

/-- Runs a command on files. -/
def runFiles (command : CommandKind) (settings : Settings)
    (read : String → Except ReadError String) (files : List String) : RunResult :=
  match load read ⟨.empty, []⟩ files with
  | .error result => result
  | .ok loaded =>
    match command with
    | .check => runCheck loaded settings
    | .order => runOrder loaded settings
    | .helpers => runHelpers loaded settings

/-- Runs the program. -/
def run (args : List String) (env : String → Option String)
    (read : String → Except ReadError String) : RunResult :=
  match Request.ofArgs args with
  | .misuse => { exit := 2, stderr := usage }
  | .help => { exit := 0, stdout := usage }
  | .version command =>
    let name := match command with
      | some command => s!"stelac-{command.name}"
      | none => "stelac"
    { exit := 0, stdout := [s!"{name} {version}"] }
  | .run command options files =>
    match Settings.ofEnv env with
    | .error error => { exit := 2, stderr := [s!"error: {error.message}"] }
    | .ok settings =>
      let result := runFiles command (options.apply settings) read files
      { result with stderr := filterWarning options settings ++ result.stderr }

end Command

end Stela
