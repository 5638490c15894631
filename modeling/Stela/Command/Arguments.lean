import Stela.Settings

/-!
# Command line arguments

A command line names a command and its files. Options may stand before or behind
the command; behind it they win. Arguments are read from left to right, and the
first one that asks for help or the version, or that makes no sense, decides. A
value that stands directly before the command is looked at after all the others.
-/

namespace Stela

inductive CommandKind where
  | check | order | helpers
deriving Repr, DecidableEq

namespace CommandKind

def all : List CommandKind := [.check, .order, .helpers]

def name : CommandKind → String
  | .check => "check"
  | .order => "order"
  | .helpers => "helpers"

def ofName? (name : String) : Option CommandKind := all.find? fun c => c.name == name

end CommandKind

/-- The options given on one side of the command. -/
structure Options where
  verbosity : Nat := 0
  format : Option MessageFormat := none
  /-- Give no warnings about unused names. -/
  silenceUnused : Bool := false
deriving Repr, DecidableEq

namespace Options

/-- Options before the command and behind it, taken together. -/
def merge (before behind : Options) : Options where
  verbosity := if behind.verbosity = 0 then before.verbosity else behind.verbosity
  format := behind.format <|> before.format
  silenceUnused := before.silenceUnused || behind.silenceUnused

/-- The settings after options have overridden them. -/
def apply (options : Options) (settings : Settings) : Settings :=
  { settings with
    warnUnused := settings.warnUnused && !options.silenceUnused
    format := options.format.getD settings.format }

end Options

/-- What a command line asks for. -/
inductive Request where
  | run (command : CommandKind) (options : Options) (files : List String)
  | help
  /-- The version, asked for before or behind a command. -/
  | version (command : Option CommandKind)
  | misuse
deriving Repr, DecidableEq

namespace Request

/-- The outcome of reading an option, with what is left to read. -/
inductive OptionStep where
  | next (options : Options) (rest : List String)
  /-- The message format was named by an argument of its own. -/
  | format (value : String) (rest : List String)
  /-- Nothing else matters any more. -/
  | settled (request : Request)
deriving Repr, DecidableEq

/-- Whether an argument is an option rather than a name or a file. -/
def isOption (arg : String) : Bool :=
  match arg.toList with
  | ['-'] => false
  | '-' :: _ => true
  | _ => false

/-- Reads a group of one-letter options. -/
def readLetters (command : Option CommandKind) (options : Options) (rest : List String) :
    List Char → OptionStep
  | [] => .next options rest
  | 'v' :: letters =>
    readLetters command { options with verbosity := options.verbosity + 1 } rest letters
  | 'h' :: _ => .settled .help
  | 'V' :: _ => .settled (.version command)
  | _ :: _ => .settled .misuse

/-- Sets the message format, which may be given once. -/
def withFormat? (options : Options) (value : String) : Option Options :=
  match options.format, MessageFormat.all.find? fun f => f.name == value with
  | none, some format => some { options with format := some format }
  | _, _ => none

/-- Reads an option that is written out. -/
def readLong (command : Option CommandKind) (options : Options) (rest : List String)
    (name : String) (value : Option String) : OptionStep :=
  match name, value, rest with
  | "verbose", none, _ => .next { options with verbosity := options.verbosity + 1 } rest
  | "no-warn-unused", none, _ =>
    if options.silenceUnused then .settled .misuse
    else .next { options with silenceUnused := true } rest
  | "help", none, _ => .settled .help
  | "version", none, _ => .settled (.version command)
  | "message-format", some value, _ =>
    match withFormat? options value with
    | some options => .next options rest
    | none => .settled .misuse
  | "message-format", none, value :: rest =>
    if isOption value then .settled .misuse else .format value rest
  | _, _, _ => .settled .misuse

/-- Reads one option. A value may follow its name after `=`. -/
def readOption (command : Option CommandKind) (options : Options) (arg : String)
    (rest : List String) : OptionStep :=
  match arg.toList with
  | '-' :: '-' :: text =>
    let name := String.ofList (text.takeWhile (· != '='))
    let value := match text.dropWhile (· != '=') with
      | _ :: value => some (String.ofList value)
      | [] => none
    readLong command options rest name value
  | _ :: letters => readLetters command options rest letters
  | [] => .settled .misuse

/-- Reads what stands behind a command. Behind `--` there are only files, and no
file has an empty name. -/
def readFiles (command : CommandKind) (before : Options) :
    Nat → Options → List String → List String → Request
  | 0, _, _, _ => .misuse
  | bound + 1, behind, files, args =>
    match args with
    | [] => if files.isEmpty then .misuse else .run command (before.merge behind) files
    | "--" :: rest =>
      let files := files ++ rest
      if files.isEmpty || rest.contains "" then .misuse
      else .run command (before.merge behind) files
    | arg :: rest =>
      if isOption arg then
        match readOption (some command) behind arg rest with
        | .next behind rest => readFiles command before bound behind files rest
        | .format value rest =>
          match withFormat? behind value with
          | some behind => readFiles command before bound behind files rest
          | none => .misuse
        | .settled request => request
      else if arg == "" then .misuse
      else readFiles command before bound behind (files ++ [arg]) rest

/-- Whether the names behind `help` lead to a command. -/
def helpTopic : List String → Bool
  | [] => true
  | [name] => name == "help" || (CommandKind.ofName? name).isSome
  | name :: rest => name == "help" && helpTopic rest

/-- The request of a command line with a wrong value: nothing can be run. -/
def withoutRun : Request → Request
  | .run .. => .misuse
  | request => request

/-- Whether the next argument can be a command. -/
def commandFollows : List String → Bool
  | [] => false
  | arg :: _ => !isOption arg

/-- Reads up to the command. -/
def readCommand : Nat → Options → List String → Request
  | 0, _, _ => .misuse
  | bound + 1, before, args =>
    match args with
    | [] | "--" :: _ => .misuse
    | arg :: rest =>
      if isOption arg then
        match readOption none before arg rest with
        | .next before rest => readCommand bound before rest
        | .format value rest =>
          match withFormat? before value with
          | some before => readCommand bound before rest
          | none =>
            if commandFollows rest then withoutRun (readCommand bound before rest) else .misuse
        | .settled request => request
      else if arg == "help" then if helpTopic rest then .help else .misuse
      else
        match CommandKind.ofName? arg with
        | some command => readFiles command before (rest.length + 1) {} [] rest
        | none => .misuse

/-- What a list of arguments asks for. Every step reads at least one argument. -/
def ofArgs (args : List String) : Request := readCommand (args.length + 1) {} args

end Request

end Stela
