import ShellWord.Expand.Word
import ShellWord.Script.Builtin
import ShellWord.Script.Grammar

/-!
# Running scripts

A script is run by recursion on its structure.  Words are expanded by the session of the script, and a
word that cannot be expanded ends the script.

## Main definitions

* `Script.perform`: run a script
* `Script.outcome`: what a script writes, and its exit status
-/

namespace ShellWord.Script

variable (host : Host Machine)

/-! ### Simple commands -/

/-- Do what expansion asks for; its errors end the script. -/
def expanding {α : Type} (x : Expand Machine α) : Action α :=
  Run.within id (fun t _ => t) (fun _ => .exit 2) x

/-- Set the variables of assignments, in order. -/
def assign (assignments : List (Text × Word)) : Action Unit :=
  assignments.forM fun (name, word) => do
    let value ← expanding (expandOperand host word)
    onShell (Shell.define name value.text)

/-- Give variables back the values of another shell. -/
def restore (old : Variables) (names : List Text) (sh : Shell) : Shell :=
  names.foldl
    (fun sh name =>
      match old.get? name with
      | some value => sh.define name value
      | none => sh.unset name)
    sh

/-- The command of a name.  A name with a slash is a path; nothing that can be reached is a program,
and nothing else can be found. -/
def commandOf (name : Text) (s : Session Machine) : Builtin :=
  if name.contains '/' then
    let known := programDirectories.findSome? fun dir => Text.after? (dir ++ ['/']) name
    match known.bind program? with
    | some run => run
    | none => fun _ => return if s.world.system.reachable (Path.join s.shell.cwd name) then 126 else 127
  else
    match builtin? name with
    | some run => run
    | none =>
      match if findsPrograms s.shell.vars then program? name else none with
      | some run => run
      | none => fun _ => return 127

/-- A simple command.  Without a name it only assigns, and its status is that of the last command
substitution. -/
def performSimple (assignments : List (Text × Word)) (words : List Word) : Action Unit := do
  let started := (← get).world.started
  match ← expanding (expandWords host words) with
  | [] =>
    assign host assignments
    if (← get).world.started == started then setStatus 0
  | name :: arguments =>
    let old := (← get).shell.vars
    assign host assignments
    let n ← commandOf name (← get) arguments
    setStatus n
    unless isSpecialBuiltin name do
      onShell (restore old (assignments.map (·.1)))

/-! ### Redirections -/

/-- Where output goes. -/
inductive Sink where
  | inherited
  | nowhere
  | file (path : Text) (old : List UInt8)

/-- The streams of a command: its input, and where its output and its messages go. -/
structure Streams where
  input : List UInt8
  output : Sink
  messages : Sink

/-- Open a file for writing, which empties it unless bytes are appended. -/
def openFile? (keep : Bool) (path : Text) : Action (Option Sink) := do
  let old ← if keep then readFile? path else pure none
  let old := old.getD []
  if ← writeFile path old then return some (.file path old) else return none

/-- Redirect streams; nothing if a file cannot be opened. -/
def redirect? (streams : Streams) (redirect : Redirect) : Action (Option Streams) := do
  let target := (← expanding (expandOperand host redirect.target)).text
  match redirect.kind with
  | .read =>
    match ← readFile? target with
    | some bytes => return some { streams with input := bytes }
    | none => return none
  | .duplicate =>
    let source := if target == ['1'] then streams.output
      else if target == ['2'] then streams.messages else .nowhere
    if redirect.descriptor == 1 then return some { streams with output := source }
    else if redirect.descriptor == 2 then return some { streams with messages := source }
    else return some streams
  | kind =>
    match ← openFile? (kind == .append) target with
    | some sink =>
      if redirect.descriptor == 1 then return some { streams with output := sink }
      else if redirect.descriptor == 2 then return some { streams with messages := sink }
      else return some streams
    | none => return none

/-- Redirect streams one after the other. -/
def redirectAll? (streams : Streams) : List Redirect → Action (Option Streams)
  | [] => return some streams
  | redirect :: rest => do
    match ← redirect? host streams redirect with
    | some streams => redirectAll? streams rest
    | none => return none

/-- Deliver output. -/
def deliver (sink : Sink) (bytes : List UInt8) : Action Unit :=
  match sink with
  | .inherited => emit bytes
  | .nowhere => pure ()
  | .file path old => do let _ ← writeFile path (old ++ bytes)

/-- A command with redirections. -/
def redirecting (redirects : List Redirect) (x : Action Unit) : Action Unit := do
  match ← redirectAll? host ⟨(← get).world.input, .inherited, .nowhere⟩ redirects with
  | none => setStatus 2
  | some streams =>
    let reads := redirects.any fun r => r.kind == .read
    let (outcome, bytes, s) :=
      captured (if reads then withInput streams.input x else x) (← get)
    set s
    deliver streams.output bytes
    match outcome with
    | .ok () => pure ()
    | .error halt => throw halt

/-! ### Scripts -/

/-- How often a loop runs at most. -/
def maxRounds : Nat := 100000

/-- Repeat a body as long as a condition holds, or until it does.  The status is that of the last round
of the body. -/
def repeating (awaited : Bool) (condition body : Action Unit) : (rounds : Nat) → Int → Action Unit
  | 0, last => setStatus last
  | n + 1, last => do
    condition
    if ((← status) == 0) != awaited then
      body
      repeating awaited condition body n (← status)
    else setStatus last

/-- Run a script. -/
def perform : Script → Action Unit
  | .simple assignments words => performSimple host assignments words
  | .redirected body redirects => redirecting host redirects (perform body)
  | .pipe left right => do
    let (outcome, bytes, s) := captured (isolated (perform left)) (← get)
    set s
    match outcome with
    | .ok () => withInput bytes (isolated (perform right))
    | .error halt => throw halt
  | .negated body => do
    perform body
    setStatus (if (← status) == 0 then 1 else 0)
  | .both left right => do
    perform left
    if (← status) == 0 then perform right
  | .unless left right => do
    perform left
    if (← status) != 0 then perform right
  | .seq left right => do
    perform left
    perform right
  | .subshell body => isolated (perform body)
  | .choose condition yes no => do
    perform condition
    if (← status) == 0 then perform yes else perform no
  | .loop awaited condition body => repeating awaited (perform condition) (perform body) maxRounds 0
  | .each name words body => do
    let values ← match words with
      | some words => expanding (expandWords host words)
      | none => pure (← get).shell.positional
    setStatus 0
    values.forM fun value => do
      onShell (Shell.define name value)
      perform body

/-- What a script writes, and its exit status; nothing if it is killed.  A text that is no script has
status 2. -/
def outcome (sh : Shell) (command : Text) (m : Machine) : List UInt8 × Option Int × Machine :=
  match ofText? command with
  | none => ([], some 2, m)
  | some script =>
    let (outcome, bytes, s) := captured (perform host script) ⟨sh, m⟩
    match outcome with
    | .ok () => (bytes, some s.shell.lastStatus, s.world)
    | .error (.exit n) => (bytes, some n, s.world)
    | .error .killed => (bytes, none, s.world)

end ShellWord.Script
