import ShellWord.Files.Pathname
import ShellWord.Script.Action
import ShellWord.Script.Format

/-!
# Commands

The commands that scripts can use: those that belong to the shell, and a few programs.  A program is
found through `PATH`; the shell's own commands always are.

## Main definitions

* `Script.test`: conditions
* `Script.builtin?`: the commands of the shell
* `Script.program?`: the programs
-/

namespace ShellWord.Script

/-- A command: what it does with its arguments, and its exit status. -/
abbrev Builtin := List Text → Action Nat

/-- The status of a condition. -/
def statusOf (holds : Bool) : Nat :=
  if holds then 0 else 1

/-! ### Ending a script -/

/-- `exit`: the status is the remainder modulo 256; without an argument it is the last one. -/
def exit : Builtin
  | [] => do throw (.exit ((← status) % 256).toNat)
  | argument :: _ =>
    match Numeral.natural? 10 argument with
    | some n => throw (.exit (n % 256))
    | none => throw (.exit 2)

/-- `kill`: only the script itself can be killed.  Signal zero does nothing. -/
def kill (arguments : List Text) : Action Nat := do
  let (harmless, targets) := match arguments with
    | ['-', 's'] :: _ :: rest => (false, rest)
    | ('-' :: signal) :: rest => (signal == ['0'], rest)
    | arguments => (false, arguments)
  if targets.contains (Text.ofNat (← get).shell.pid) then
    if harmless then return 0 else throw .killed
  else return 1

/-! ### Variables and parameters -/

/-- `set`: options, and positional parameters after `--` or other arguments. -/
def setOptions : Builtin
  | [] => return 0
  | ['-', '-'] :: rest => do
    onShell ({ · with positional := rest })
    return 0
  | (sign :: letters) :: rest => do
    if (sign == '-' || sign == '+') && !letters.isEmpty then
      let on := sign == '-'
      if letters.contains 'f' then
        onShell fun sh => { sh with options := { sh.options with noglob := on } }
      if letters.contains 'u' then
        onShell fun sh => { sh with options := { sh.options with nounset := on } }
      setOptions rest
    else
      onShell ({ · with positional := (sign :: letters) :: rest })
      return 0
  | [] :: rest => do
    onShell ({ · with positional := [] :: rest })
    return 0

/-- `shift`: drop positional parameters. -/
def shift (arguments : List Text) : Action Nat := do
  let n := (arguments.head?.bind (Numeral.natural? 10)).getD 1
  if n ≤ (← get).shell.positional.length then
    onShell fun sh => { sh with positional := sh.positional.drop n }
    return 0
  else throw (.exit 2)

/-- `unset`: unset variables. -/
def unset (arguments : List Text) : Action Nat := do
  let names := arguments.filter Text.isName
  onShell fun sh => names.foldl (fun sh name => sh.unset name) sh
  return 0

/-- `export`: all variables are seen by programs, so only assignments have an effect. -/
def declare (arguments : List Text) : Action Nat := do
  let assignments := arguments.filterMap (Text.cutAt? (· == '='))
  onShell fun sh => assignments.foldl (fun sh (name, value) => sh.define name value) sh
  return 0

/-- Give values to names; the last name takes all that is left. -/
def assignFields (ifs : Ifs) : List Text → Text → Shell → Shell
  | [], _, sh => sh
  | [name], t, sh => sh.define name (t.reverse.dropWhile ifs.isSoft).reverse
  | name :: names, t, sh =>
    let field := t.takeWhile fun c => !ifs.isSeparator c
    let rest := ifs.dropDelimiter (t.dropWhile fun c => !ifs.isSeparator c)
    assignFields ifs names rest (sh.define name field)

/-- `read`: a line of input is split into variables.  The status tells whether there was a line. -/
def readLine (arguments : List Text) : Action Nat := do
  let names := arguments.filter Text.isName
  let s ← get
  let line := s.world.input.takeWhile (· != 10)
  let rest := s.world.input.dropWhile (· != 10)
  set { s with world := { s.world with input := rest.drop 1 } }
  let ifs := s.shell.ifs
  onShell (assignFields ifs names ((Utf8.decode line).dropWhile ifs.isSoft))
  return statusOf !rest.isEmpty

/-! ### Directories -/

/-- The path with `.`, `..` and empty names resolved, without a look at links. -/
def logical (path : Text) : Text :=
  let step (place : Place) (name : Text) : Place :=
    if name == [] || name == ['.'] then place
    else if name == ['.', '.'] then place.tail
    else name :: place
  FileTree.pathOf ((FileTree.names path).foldl step [])

/-- `cd`: go to a directory. -/
def changeDirectory (arguments : List Text) : Action Nat := do
  let sh := (← get).shell
  let target := match arguments with
    | [] => sh.vars.get? "HOME".toList
    | ['-'] :: _ => sh.vars.get? "OLDPWD".toList
    | path :: _ => some path
  match target with
  | none => return 2
  | some path =>
    let path := logical (Path.join sh.cwd path)
    if (← get).world.system.isDir path then
      onShell fun sh =>
        ({ sh with cwd := path }.define "OLDPWD".toList sh.cwd).define "PWD".toList path
      return 0
    else return 2

/-! ### Conditions -/

/-- A comparison of two numbers. -/
def compares? (operator : Text) (a b : Int) : Option Bool :=
  match String.ofList operator with
  | "-eq" => some (a == b)
  | "-ne" => some (a != b)
  | "-lt" => some (a < b)
  | "-le" => some (a ≤ b)
  | "-gt" => some (a > b)
  | "-ge" => some (a ≥ b)
  | _ => none

/-- A condition on one text. -/
def testOne? (sh : Shell) (m : Machine) (operator argument : Text) : Option Bool :=
  let path := Path.join sh.cwd argument
  match String.ofList operator with
  | "-n" => some !argument.isEmpty
  | "-z" => some argument.isEmpty
  | "-e" => some (m.system.reachable path)
  | "-f" => some (m.system.reachable path && !m.system.isDir path)
  | "-d" => some (m.system.isDir path)
  | "-r" => some (m.system.reachable path)
  | "-w" => some (m.system.reachable path)
  | "-x" => some (m.system.isDir path)
  | "-s" => some (m.system.isDir path || (m.readBytes? path).any fun bytes => !bytes.isEmpty)
  | "-L" => some (m.system.present path && !m.system.reachable path)
  | _ => none

/-- A condition: its truth, or nothing if it is not well formed. -/
def test (sh : Shell) (m : Machine) : List Text → Option Bool
  | [] => some false
  | [argument] => some !argument.isEmpty
  | ['!'] :: rest => (test sh m rest).map not
  | [operator, argument] => testOne? sh m operator argument
  | [a, ['='], b] => some (a == b)
  | [a, ['!', '='], b] => some (a != b)
  | [a, operator, b] =>
    match Format.number? a, Format.number? b with
    | some x, some y => compares? operator x y
    | _, _ => none
  | _ => none

/-- `test`, with the status of the condition. -/
def testStatus (arguments : List Text) : Action Nat := do
  let s ← get
  match test s.shell s.world arguments with
  | some holds => return statusOf holds
  | none => return 2

/-! ### Tables -/

/-- `printf`: the format is the first argument. -/
def formatted : Builtin
  | [] => return 2
  | format :: arguments => do
    let (bytes, good) := Format.printf format arguments
    emit bytes
    return statusOf good

/-- The commands of the shell. -/
def builtin? (name : Text) : Option Builtin :=
  match String.ofList name with
  | ":" | "true" | "wait" | "umask" => some fun _ => return 0
  | "false" => some fun _ => return 1
  | "exit" | "return" => some exit
  | "kill" => some kill
  | "echo" => some fun arguments => do emit (Format.echo arguments); return 0
  | "printf" => some formatted
  | "pwd" => some fun _ => do emit (Utf8.encode ((← get).shell.cwd ++ ['\n'])); return 0
  | "cd" => some changeDirectory
  | "test" => some testStatus
  | "[" => some fun arguments =>
      if arguments.getLast? == some [']'] then testStatus arguments.dropLast else return 2
  | "set" => some setOptions
  | "shift" => some shift
  | "unset" => some unset
  | "export" | "readonly" => some declare
  | "read" => some readLine
  | _ => none

/-- The assignments in front of these commands stay. -/
def isSpecialBuiltin (name : Text) : Bool :=
  [":", "exit", "return", "set", "shift", "unset", "export", "readonly"].any fun special =>
    name == special.toList

/-- Write the bytes of files one after the other; standard input is the file `-`. -/
def concatenate : Builtin
  | [] => return 0
  | path :: paths => do
    if path == ['-'] then
      emit (← takeInput)
      concatenate paths
    else
      match ← readFile? path with
      | some bytes =>
        emit bytes
        concatenate paths
      | none =>
        let _ ← concatenate paths
        return 1

/-- The lines of bytes. -/
def lines (bytes : List UInt8) : List Text :=
  let pieces := Text.splitAt (· == '\n') (Utf8.decode bytes)
  if pieces.getLast? == some [] then pieces.dropLast else pieces

/-- Write lines. -/
def emitLines (ls : List Text) : Action Unit :=
  emit (Utf8.encode (ls.flatMap (· ++ ['\n'])))

/-- `ls`: the names in the working directory or in another one, without the hidden ones. -/
def listDirectory (arguments : List Text) : Action Nat := do
  let path ← resolve (arguments.head?.getD ['.'])
  match (← get).world.system.entries path with
  | some names =>
    emitLines ((names.filter fun name => name.head? != some '.').mergeSort Text.le)
    return 0
  | none =>
    if (← get).world.system.reachable path then
      emitLines (arguments.take 1)
      return 0
    else return 2

/-- `tee`: copy standard input to files and to standard output. -/
def copyInput (paths : List Text) : Action Nat := do
  let bytes ← takeInput
  emit bytes
  let written ← paths.mapM fun path => writeFile path bytes
  return statusOf (written.all id)

/-- `seq`: the numbers from one to another. -/
def numbers (arguments : List Text) : Action Nat := do
  match arguments.mapM Format.number? with
  | some [last] =>
    emitLines ((List.range last.toNat).map fun n => Text.ofNat (n + 1))
    return 0
  | some [first, last] =>
    emitLines ((List.range (last - first + 1).toNat).map fun (n : Nat) => Text.ofInt (first + n))
    return 0
  | _ => return 1

/-- The programs. -/
def program? (name : Text) : Option Builtin :=
  match String.ofList name with
  | "cat" => some fun arguments => concatenate (if arguments.isEmpty then [['-']] else arguments)
  | "ls" => some listDirectory
  | "seq" => some numbers
  | "sleep" => some fun _ => return 0
  | "sort" => some fun arguments => do
      let bytes ← match arguments with
        | [] => some <$> takeInput
        | path :: _ => readFile? path
      match bytes with
      | some bytes =>
        emitLines ((lines bytes).mergeSort Text.le)
        return 0
      | none => return 2
  | "tee" => some copyInput
  | _ => none

/-- The directories that programs are in. -/
def programDirectories : List Text := ["/bin".toList, "/usr/bin".toList]

/-- Programs can be found: `PATH` is unset, or names one of their directories. -/
def findsPrograms (vars : Variables) : Bool :=
  match vars.get? "PATH".toList with
  | none => true
  | some path => (Text.splitAt (· == ':') path).any programDirectories.contains

end ShellWord.Script
