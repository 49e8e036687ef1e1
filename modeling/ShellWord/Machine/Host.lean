import ShellWord.Machine.Basic
import ShellWord.Script.Perform
import ShellWord.Word.Form

/-!
# Machines as hosts

A machine runs the commands of a session as scripts.  A command runs in a shell of its own, which
takes over the variables, the parameters and the working directory of the session; command
substitutions within the script run in copies of that shell.

The process of `<(command)` runs as soon as it is started, and its output waits in the pipe.  The
process of `>(command)` runs when the descriptor of its pipe is closed, because only then its input is
complete.

## Main definitions

* `Script.host`: the host of a script
* `Machine.startError?`: why a shell cannot be started
* `Machine.childShell`: the shell that is started for a command
* `Machine.host`: the host of a session
-/

namespace ShellWord

/-- The home directory of the user who runs the machine, `root`. -/
def Machine.home (user : Option Text) : Option Text :=
  match user with
  | none => some "/root".toList
  | some name => if name == "root".toList then some "/root".toList else none

/-- The values of the variables that change by themselves.  The clock of a machine stands still. -/
def Machine.dynamic (m : Machine) : Dynamic → Int
  | .random => m.seed / 65536
  | .seconds => 0
  | .epochSeconds => m.time

/-- The machine after such a variable was read.  Random numbers follow one another by a linear
recurrence. -/
def Machine.advance (which : Dynamic) (m : Machine) : Machine :=
  match which with
  | .random => { m with seed := (m.seed * 1103515245 + 12345) % 2147483648 }
  | _ => m

/-- The host of a script, with the depth to which its command substitutions may nest. -/
def Script.host : Nat → Host Machine
  | 0 => {
      files := Machine.system
      home := fun _ => Machine.home
      dynamic := Machine.dynamic
      advance := Machine.advance
      run := fun _ command m => (.error (.command command), m)
      start := fun _ _ m => (.ok ⟨[], [], []⟩, m)
      close := fun _ m => m
      wait := fun _ m => (false, m) }
  | depth + 1 => {
      files := Machine.system
      home := fun _ => Machine.home
      dynamic := Machine.dynamic
      advance := Machine.advance
      run := fun sh command m =>
        let m := { m with started := m.started + 1 }
        let (bytes, status, m) := Script.outcome (Script.host depth) sh command m
        (.ok ⟨Utf8.decode bytes, status.getD 1⟩, m)
      start := fun _ _ m => (.ok ⟨[], [], []⟩, m)
      close := fun _ m => m
      wait := fun _ m => (false, m) }

namespace Machine

/-! ### Starting shells -/

/-- The texts that a process is given hold a NUL. -/
def hasNul (sh : Shell) (program command : Text) : Bool :=
  let given := program :: command :: sh.name :: sh.cwd :: sh.positional ++
    sh.vars.entries.flatMap fun (name, value) => [name, value]
  given.any (·.contains '\x00')

/-- The shell that the machine has. -/
def shellName : Text := "sh".toList

/-- Why a program cannot be started in a directory: it is no shell that can be found. -/
def programError? (sh : Shell) (program : Text) (m : Machine) : Option SystemError :=
  if program.contains '/' then
    if Script.programDirectories.any fun dir => program == dir ++ '/' :: shellName then none
    else if m.system.reachable (Path.join sh.cwd program) then some .denied
    else some .noEntry
  else if program == shellName && Script.findsPrograms sh.vars then none
  else some .noEntry

/-- Why a shell cannot be started for a command. -/
def startError? (sh : Shell) (program command : Text) (m : Machine) : Option SystemError :=
  if hasNul sh program command then some .nulByte
  else (m.directoryError? sh.cwd).or (programError? sh program m)

/-- The working directory as a new shell names it: `PWD` if it leads to the same place, and otherwise
the path without links. -/
def directoryName (sh : Shell) (m : Machine) : Text :=
  let here := m.files.follow (Path.join m.directory sh.cwd)
  match sh.vars.get? "PWD".toList with
  | some pwd =>
    if Path.isAbsolute pwd && here.isSome && m.files.follow pwd == here then pwd
    else m.physical sh.cwd
  | none => m.physical sh.cwd

/-- The shell that is started for a command.  It does not take over field separators. -/
def childShell (sh : Shell) (m : Machine) : Shell :=
  let cwd := directoryName sh m
  let vars := sh.vars.entries.filter fun (name, _) => Text.isName name
  { vars := ((Variables.mk vars).erase "IFS".toList).insert "PWD".toList cwd
    positional := sh.positional
    name := sh.name
    options := {}
    globbing := {}
    cwd := cwd
    lastStatus := 0
    lastBackground := none
    pid := sh.pid + m.started + 1
    children := []
    pipes := [] }

/-- What a shell makes of a command.  Substitutions nest less deep than the command is long. -/
def runChild (sh : Shell) (command : Text) (m : Machine) : List UInt8 × Option Int × Machine :=
  Script.outcome (Script.host command.length) (childShell sh m) command
    { m with started := m.started + 1 }

/-- Run a command and wait for its output.  A process that is killed has status 1. -/
def run (program : Text) (sh : Shell) (command : Text) (m : Machine) :
    Except ExpandError Output × Machine :=
  match startError? sh program command m with
  | some error => (.error (.command (program ++ ": ".toList ++ error.message)), m)
  | none =>
    let (bytes, status, m) := runChild sh command m
    (.ok ⟨Utf8.decode bytes, status.getD 1⟩, m)

/-! ### Process substitutions -/

/-- Start the process of a substitution: its path, its process and its descriptor.  A process that
reads takes the first two free descriptors for its pipe; one that writes has an input of its own on
the first, and its pipe on the next two. -/
def startOne (sh : Shell) (substitution : Substitution) (m : Machine) :
    (Text × Nat × Nat) × Machine :=
  let descriptor := (m.freeDescriptors.drop 1).headD 3
  let pid := sh.pid + m.started + 1
  let (pipe, m) : Pipe × Machine := match substitution.flow with
    | .input =>
      let (bytes, _, after) := runChild sh substitution.command { m with input := [] }
      (⟨descriptor, bytes, none⟩, { after with input := m.input })
    | .output =>
      (⟨descriptor, [], some (sh, substitution.command)⟩, { m with started := m.started + 1 })
  ((descriptorPath descriptor, pid, descriptor),
    { m with pipes := m.pipes ++ [pipe], children := m.children ++ [pid] })

/-- Start the processes of substitutions; if one cannot be started then none is. -/
def startAll (program : Text) (sh : Shell) :
    List Substitution → Machine → Except ExpandError Started × Machine
  | [], m => (.ok ⟨[], [], []⟩, m)
  | substitution :: rest, m =>
    match startError? sh program substitution.command m with
    | some error => (.error (.process (program ++ ": ".toList ++ error.message)), m)
    | none =>
      let ((path, pid, descriptor), after) := startOne sh substitution m
      match startAll program sh rest after with
      | (.ok started, after) =>
        (.ok ⟨path :: started.paths, pid :: started.children, descriptor :: started.pipes⟩, after)
      | (.error error, _) => (.error error, m)

/-- Close a descriptor.  The command that reads from its pipe runs now. -/
def closeOne (m : Machine) (descriptor : Nat) : Machine :=
  match m.pipes.find? (·.descriptor == descriptor) with
  | none => m
  | some pipe =>
    let m := { m with pipes := m.pipes.filter (·.descriptor != descriptor) }
    match pipe.reader with
    | none => m
    | some (sh, command) =>
      let (bytes, _, after) := runChild sh command { m with input := pipe.content }
      { after with input := m.input }.emit bytes

/-- Wait for a process. -/
def wait (pid : Nat) (m : Machine) : Bool × Machine :=
  (m.children.contains pid, { m with children := m.children.filter (· != pid) })

/-- The host of a session that runs commands and substitutions with the given shell programs. -/
def host (runner substituter : Text) : Host Machine where
  files := system
  home _ := home
  dynamic := dynamic
  advance := advance
  run := run runner
  start sh command m := startAll substituter sh (command.words.filterMap Word.substitution?) m
  close descriptors m := descriptors.foldl closeOne m
  wait := wait

end Machine

end ShellWord
