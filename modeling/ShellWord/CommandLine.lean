import ShellWord.Config
import ShellWord.Expand.Command
import ShellWord.Json.Reader
import ShellWord.Machine.Host
import ShellWord.Word.Json

/-!
# The command line

The program reads a command and prints its arguments.  What it is asked for is read from its arguments
from left to right; the first thing that is wrong makes them unusable, and a request for help or for
the version that comes before it is granted.

## Main definitions

* `CommandLine`: what the arguments ask for
* `CommandLine.ofArguments?`: read the arguments
* `CommandLine.Failure`: why the program fails
* `CommandLine.run`: the whole program
-/

namespace ShellWord

/-- The options that have no value. -/
inductive CommandLine.Flag where
  | json
  | noglob
  | nullglob
  | extglob
  | nounset
  | debug
  deriving DecidableEq, Repr

/-- What the arguments ask for. -/
structure CommandLine where
  /-- the file that describes the session -/
  config : Option Text := none
  /-- the file that holds the command; standard input holds it when this is missing -/
  command : Option Text := none
  flags : List CommandLine.Flag := []
  /-- positional parameters -/
  params : List Text := []
  deriving DecidableEq, Repr

namespace CommandLine

/-- What the program is asked to do. -/
inductive Request where
  | expand (line : CommandLine)
  | help
  | version
  deriving DecidableEq, Repr

/-! ### Arguments -/

/-- The flag of a name. -/
def Flag.ofName? (name : Text) : Option Flag :=
  match String.ofList name with
  | "json" => some .json
  | "noglob" => some .noglob
  | "nullglob" => some .nullglob
  | "extglob" => some .extglob
  | "nounset" => some .nounset
  | "debug" => some .debug
  | _ => none

/-- Give a file to the option of a name.  An option is given once, and a path is not empty. -/
def withFile? (line : CommandLine) (name path : Text) : Option CommandLine :=
  match String.ofList name with
  | "config" =>
    if line.config.isNone && !path.isEmpty then some { line with config := some path } else none
  | "command" =>
    if line.command.isNone && !path.isEmpty then some { line with command := some path } else none
  | _ => none

/-- Turn a flag on, once. -/
def withFlag? (line : CommandLine) (flag : Flag) : Option CommandLine :=
  if line.flags.contains flag then none else some { line with flags := line.flags ++ [flag] }

/-- An argument can be the value of an option: it does not look like an option. -/
def isValue (argument : Text) : Bool :=
  argument.head? != some '-' || argument == ['-']

/-- Read arguments after those that are in `line` already. -/
def read? (line : CommandLine) : List Text → Option Request
  | [] => some (.expand line)
  | ['-', '-'] :: params => some (.expand { line with params := params })
  | ('-' :: '-' :: option) :: rest =>
    match Text.cutAt? (· == '=') option with
    | some (name, path) => (line.withFile? name path).bind fun line => read? line rest
    | none =>
      match Flag.ofName? option with
      | some flag => (line.withFlag? flag).bind fun line => read? line rest
      | none =>
        if option == "help".toList then some .help
        else if option == "version".toList then some .version
        else
          match rest with
          | path :: rest =>
            if isValue path then (line.withFile? option path).bind fun line => read? line rest
            else none
          | [] => none
  | ('-' :: 'h' :: _) :: _ => some .help
  | ('-' :: 'V' :: _) :: _ => some .version
  | _ => none

/-- Read the arguments of the program. -/
def ofArguments? (arguments : List Text) : Option Request :=
  read? {} arguments

/-- The flag is on. -/
def has (line : CommandLine) (flag : Flag) : Bool :=
  line.flags.contains flag

/-! ### Texts of the program -/

/-- The name of the program. -/
def programName : String := "shell-expand"

/-- What `--version` prints. -/
def versionText : Text :=
  (programName ++ " 0.1.0\n").toList

/-- What `--help` prints. -/
def helpText : Text :=
  ("Expand a parsed shell command into its arguments\n" ++
    "\n" ++
    "Usage: shell-expand [OPTIONS] [-- <PARAMS>...]\n" ++
    "\n" ++
    "Arguments:\n" ++
    "  [PARAMS]...  Positional parameters\n" ++
    "\n" ++
    "Options:\n" ++
    "      --config <CONFIG>    Session configuration (TOML)\n" ++
    "      --command <COMMAND>  Command to expand, as JSON; read from stdin when absent\n" ++
    "      --json               Print the arguments as a JSON array\n" ++
    "      --noglob             set -f: disable pathname expansion\n" ++
    "      --nullglob           Drop patterns that match nothing\n" ++
    "      --extglob            Enable @( ) *( ) +( ) ?( ) !( ) patterns\n" ++
    "      --nounset            set -u: fail on unset variables\n" ++
    "      --debug              Log expansion steps\n" ++
    "  -h, --help               Print help\n" ++
    "  -V, --version            Print version\n").toList

/-! ### Running -/

/-- Why the program fails. -/
inductive Failure where
  /-- the arguments cannot be used -/
  | usage
  /-- a file cannot be read -/
  | unreadable (path : Text)
  /-- the text is no configuration -/
  | badConfig
  /-- the text is no command -/
  | badCommand
  /-- the command cannot be expanded -/
  | expansion (error : ExpandError)
  deriving DecidableEq, Repr

/-- The exit status of a failure. -/
def Failure.status : Failure → Nat
  | .expansion _ => 1
  | _ => 2

/-- The wording of a failure. -/
def Failure.message : Failure → Text
  | .usage => "invalid arguments".toList
  | .unreadable path => path ++ ": cannot be read".toList
  | .badConfig => "invalid config".toList
  | .badCommand => "invalid command".toList
  | .expansion error => error.message

/-- The text of a file. -/
def readText? (m : Machine) (path : Text) : Except Failure Text :=
  match (m.readBytes? path).bind Utf8.decode? with
  | some text => .ok text
  | none => .error (.unreadable path)

/-- The configuration that a line asks for, in an environment. -/
def configuration (line : CommandLine) (environment : List (Text × Text)) (m : Machine) :
    Except Failure Config := do
  let config ← match line.config with
    | none => pure {}
    | some path =>
      match Config.ofText? (← readText? m path) with
      | some config => pure config
      | none => throw .badConfig
  let config := config.inherit environment
  let options := config.options
  let globbing := config.globbing
  return { config with
    positional := if line.params.isEmpty then config.positional else line.params
    options := { options with
      noglob := options.noglob || line.has .noglob
      nounset := options.nounset || line.has .nounset
      debug := options.debug || line.has .debug }
    globbing := { globbing with
      nullglob := globbing.nullglob || line.has .nullglob
      extglob := globbing.extglob || line.has .extglob } }

/-- The command that a line asks for, and the machine without the input that was read. -/
def readCommand (line : CommandLine) (m : Machine) : Except Failure (Command × Machine) := do
  let (text, m) ← match line.command with
    | some path => pure (← readText? m path, m)
    | none =>
      match Utf8.decode? m.input with
      | some text => pure (text, { m with input := [] })
      | none => throw (.unreadable "<stdin>".toList)
  match (Json.ofText? text).bind Command.ofJson? with
  | some command => return (command, m)
  | none => throw .badCommand

/-- The arguments as they are printed: one to a line, or as an array. -/
def print (line : CommandLine) (arguments : List Text) : Text :=
  if line.has .json then (Json.array (arguments.map .string)).render ++ ['\n']
  else arguments.flatMap (· ++ ['\n'])

/-- Expand the command that a line asks for, and finish it. -/
def expand (line : CommandLine) (environment : List (Text × Text)) (pid : Nat) (m : Machine) :
    Except Failure (List Text) × Machine :=
  let prepared := do
    let config ← line.configuration environment m
    let (command, m) ← line.readCommand m
    return (config, command, m)
  match prepared with
  | .error failure => (.error failure, m)
  | .ok (config, command, m) =>
    let host := Machine.host Machine.shellName Machine.shellName
    let (expanded, s) := Session.expand host command ⟨config.shell m.directory pid, m⟩
    match expanded.outcome with
    | .ok arguments => (.ok arguments, (s.finish host).2.world)
    | .error error => (.error (.expansion error), s.world)

/-- How the program ends: its exit status, what it wrote to standard error, and the machine that it
leaves. -/
structure Ending where
  status : Nat
  messages : Text
  machine : Machine

/-- The whole program: it writes to the standard output of the machine. -/
def run (arguments : List Text) (environment : List (Text × Text)) (pid : Nat) (m : Machine) :
    Ending :=
  let fails (failure : Failure) (m : Machine) : Ending :=
    ⟨failure.status, programName.toList ++ ": ".toList ++ failure.message ++ ['\n'], m⟩
  match ofArguments? arguments with
  | none => fails .usage m
  | some .help => ⟨0, [], m.emit (Utf8.encode helpText)⟩
  | some .version => ⟨0, [], m.emit (Utf8.encode versionText)⟩
  | some (.expand line) =>
    match line.expand environment pid m with
    | (.ok results, m) => ⟨0, [], m.emit (Utf8.encode (line.print results))⟩
    | (.error failure, m) => fails failure m

end CommandLine

end ShellWord
