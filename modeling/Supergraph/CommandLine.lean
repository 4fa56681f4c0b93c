import Supergraph.Configuration.Reader
import Supergraph.Report

/-!
The command line: it reads a configuration, builds the gateway and prints a report on it.

`Command.ofArguments` reads the arguments from left to right, so of a request for help and a wrong
argument the first decides. `CommandLine.run` leaves reading the file to its caller.

Correspondence (gateway ↔ Lean):
  `Args` ↔ `Options`, `Command`
  `main` ↔ `CommandLine.run`
-/

namespace Supergraph

structure Options where
  configFile : String
  concurrency : Option Nat
  deriving DecidableEq, Repr

inductive Command where
  | start (options : Options)
  | help
  | version
  deriving DecidableEq, Repr

/-- Why arguments cannot be understood. -/
inductive UsageError where
  | unexpected (argument : String)
  | missingValue (option : String)
  | unwantedValue (option : String)
  | invalidValue (option value : String)
  | repeated (option : String)
  deriving DecidableEq, Repr

def UsageError.message : UsageError → String
  | unexpected argument => "unexpected argument '" ++ argument ++ "' found"
  | missingValue option => "a value is required for '" ++ option ++ "' but none was supplied"
  | unwantedValue option => "unexpected value for '" ++ option ++ "' found"
  | invalidValue option value => "invalid value '" ++ value ++ "' for '" ++ option ++ "'"
  | repeated option => "the argument '" ++ option ++ "' cannot be used multiple times"

/-- The options that were given so far. -/
structure GivenOptions where
  configFile : Option String
  concurrency : Option Nat

namespace GivenOptions

def empty : GivenOptions := ⟨none, none⟩

/-- The options, with what holds where none was given. -/
def options (given : GivenOptions) : Options :=
  ⟨given.configFile.getD "gateway.yaml", given.concurrency⟩

def isOption (name : String) : Bool := name = "--config" ∨ name = "--concurrency"

def set (given : GivenOptions) (name value : String) : Except UsageError GivenOptions :=
  if name = "--config" then
    if value.isEmpty then .error (.invalidValue name value)
    else if given.configFile.isSome then .error (.repeated name)
    else .ok { given with configFile := some value }
  else
    match Text.count? value with
    | none => .error (.invalidValue name value)
    | some count =>
      if given.concurrency.isSome then .error (.repeated name)
      else .ok { given with concurrency := some count }

end GivenOptions

namespace Command

/-- An argument cut at its first equals sign, if it has one. -/
def cutValue (argument : String) : String × Option String :=
  match argument.toList.span (· ≠ '=') with
  | (name, _ :: value) => (String.ofList name, some (String.ofList value))
  | (_, []) => (argument, none)

/-- Whether an argument cannot be the value of the option before it. -/
def looksLikeOption (argument : String) : Bool :=
  argument.toList.head? = some '-' ∧ argument ≠ "-"

/-- What a single dash and a letter ask for, whatever follows the letter. -/
def short? (argument : String) : Option Command :=
  match argument.toList with
  | '-' :: 'h' :: _ => some help
  | '-' :: 'V' :: _ => some version
  | _ => none

/-- What a long name without value asks for. -/
def long? : String → Option Command
  | "--help" => some help
  | "--version" => some version
  | _ => none

/-- Reads the arguments that follow the given options. After two dashes no argument may come. -/
def ofRest (given : GivenOptions) : List String → Except UsageError Command
  | [] => .ok (start given.options)
  | "--" :: [] => .ok (start given.options)
  | "--" :: extra :: _ => .error (.unexpected extra)
  | argument :: rest =>
    match long? (cutValue argument).1, cutValue argument with
    | some command, (_, none) => .ok command
    | some _, (name, some _) => .error (.unwantedValue name)
    | none, (name, value) =>
      if GivenOptions.isOption name then
        match value, rest with
        | some value, rest =>
          match given.set name value with
          | .ok given => ofRest given rest
          | .error error => .error error
        | none, value :: rest =>
          if looksLikeOption value then .error (.missingValue name)
          else
            match given.set name value with
            | .ok given => ofRest given rest
            | .error error => .error error
        | none, [] => .error (.missingValue name)
      else
        match short? argument with
        | some command => .ok command
        | none => .error (.unexpected argument)

def ofArguments (arguments : List String) : Except UsageError Command := ofRest .empty arguments

end Command

/-- What a run leaves behind: its exit code, what it prints, and what it complains about. -/
structure Outcome where
  exitCode : Nat
  output : String
  complaint : String
  deriving DecidableEq, Repr

namespace Options

/-- The configuration in the contents of the file, changed as the options say. -/
def configure (options : Options) (contents : Option String) :
    Except ConfigError GatewayConfig := do
  let some text := contents | throw (.unreadable options.configFile)
  let config ← GatewayConfig.ofText text
  match options.concurrency with
  | none => return config
  | some concurrency =>
    let changed := { config with bootstrapConcurrency := concurrency }
    changed.validate
    return changed

/-- Starts the gateway, reports on it, and shuts it down. -/
def outcome (options : Options) (contents : Option String)
    (connect : ServiceConfig → Except TransportError Connection) : Outcome :=
  match options.configure contents with
  | .error error => ⟨1, "", error.message⟩
  | .ok config =>
    match Session.bootstrap config Schema.ofServices connect with
    | .error error => ⟨1, "", error.message⟩
    | .ok session => ⟨0, Text.ofLines session.gateway.reportLines, ""⟩

end Options

namespace CommandLine

def versionLines : List String := ["portkey-federation 0.1.0"]

def helpLines : List String :=
  ["Bootstraps the federation core against the configured subgraphs and prints which service " ++
      "owns each type and how every crossing field is delegated",
    "",
    "Usage: portkey-federation [OPTIONS]",
    "",
    "Options:",
    "      --config <CONFIG>            Gateway configuration file [default: gateway.yaml]",
    "      --concurrency <CONCURRENCY>  Overrides `bootstrapConcurrency` from the configuration " ++
      "file",
    "  -h, --help                       Print help",
    "  -V, --version                    Print version"]

/-- Runs the program, with a way to look up the contents of files and one to connect to services. -/
def run {m : Type → Type} [Monad m] (contentsOf : String → m (Option String))
    (connect : ServiceConfig → Except TransportError Connection) (arguments : List String) :
    m Outcome :=
  match Command.ofArguments arguments with
  | .error error => return ⟨2, "", error.message⟩
  | .ok .help => return ⟨0, Text.ofLines helpLines, ""⟩
  | .ok .version => return ⟨0, Text.ofLines versionLines, ""⟩
  | .ok (.start options) => do return options.outcome (← contentsOf options.configFile) connect

end CommandLine

end Supergraph
