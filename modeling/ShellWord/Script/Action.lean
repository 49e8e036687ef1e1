import ShellWord.Machine.Basic
import ShellWord.Session.Lookup

/-!
# Actions of scripts

The commands of a script act on a shell in its machine.  A command may end the whole script, and what
happened before that stays.

## Main definitions

* `Script.Halt`: how a script ends before its end
* `Script.Action`: what a command does
* `Script.isolated`: an action in a shell of its own
* `Script.captured`: an action together with what it writes
-/

namespace ShellWord.Script

/-- How a script ends before its end. -/
inductive Halt where
  | exit (status : Nat)
  | killed
  deriving DecidableEq, Repr

/-- What a command does. -/
abbrev Action := Run (Session Machine) Halt

/-- The exit status of the last command. -/
def status : Action Int :=
  return (← get).shell.lastStatus

/-- Set the exit status. -/
def setStatus (n : Int) : Action Unit :=
  modify fun s => s.onShell ({ · with lastStatus := n })

/-- Change the state of the shell. -/
def onShell (f : Shell → Shell) : Action Unit :=
  modify fun s => s.onShell f

/-- Write to standard output. -/
def emit (bytes : List UInt8) : Action Unit :=
  modify fun s => { s with world := s.world.emit bytes }

/-- All of standard input. -/
def takeInput : Action (List UInt8) := do
  let s ← get
  set { s with world := { s.world with input := [] } }
  return s.world.input

/-- The path that a name denotes in the directory of the shell. -/
def resolve (path : Text) : Action Text :=
  return Path.join (← get).shell.cwd path

/-- The bytes of a file. -/
def readFile? (path : Text) : Action (Option (List UInt8)) := do
  return (← get).world.readBytes? (← resolve path)

/-- Give a file new bytes; tells whether that is possible. -/
def writeFile (path : Text) (bytes : List UInt8) : Action Bool := do
  let s ← get
  match s.world.writeBytes? (← resolve path) bytes with
  | some world =>
    set { s with world := world }
    return true
  | none => return false

/-- An action in a shell of its own: it leaves only its status, and what it did to the machine. -/
def isolated (x : Action Unit) : Action Unit := fun s =>
  let leave (status : Int) (world : Machine) : Session Machine :=
    { shell := { s.shell with lastStatus := status }, world := world }
  match x.exec s with
  | (.ok (), t) => (.ok (), leave t.shell.lastStatus t.world)
  | (.error (.exit n), t) => (.ok (), leave n t.world)
  | (.error .killed, t) => (.error .killed, t)

/-- An action with an input of its own. -/
def withInput (input : List UInt8) (x : Action Unit) : Action Unit := fun s =>
  let (outcome, t) := x.exec { s with world := { s.world with input := input } }
  (outcome, { t with world := { t.world with input := s.world.input } })

/-- An action and what it writes, which does not reach standard output; what it writes before it
halts counts too. -/
def captured (x : Action Unit) (s : Session Machine) :
    Except Halt Unit × List UInt8 × Session Machine :=
  let (outcome, t) := x.exec { s with world := { s.world with output := [] } }
  (outcome, t.world.output, { t with world := { t.world with output := s.world.output } })

end ShellWord.Script
