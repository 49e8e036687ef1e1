import ShellWord.Expand.Word

/-!
# Expanding commands

Before the words of a command are expanded, its process substitutions are started, and each of them is
replaced by the path that stands for it.  The processes and descriptors stay with the session until
the command is finished; a command that fails is finished at once.

## Main definitions

* `replaceSubstitutions`: put paths in the place of process substitutions
* `startSubstitutions`: start the process substitutions of a command
* `expandArguments`: the arguments of a command, and the command with its substitutions replaced
* `Session.finish`: close the descriptors of a command, and wait for its processes
* `Session.expand`: expand a command, and finish it if that fails
-/

namespace ShellWord

variable {World : Type}

/-- Put paths in the place of process substitutions, as long as there are paths.  A path and the text
after the substitution are one word in single quotes. -/
def replaceSubstitutions : List Text → List Word → List Word
  | _, [] => []
  | [], words => words
  | path :: paths, word :: words =>
    match word.substitution? with
    | some substitution =>
      .singleQuoted (path ++ substitution.suffix) :: replaceSubstitutions paths words
    | none => word :: replaceSubstitutions (path :: paths) words

/-- Keep the processes and descriptors of substitutions. -/
def Shell.retain (started : Started) (sh : Shell) : Shell :=
  { sh with
    children := sh.children ++ started.children
    pipes := sh.pipes ++ started.pipes }

/-- Start the process substitutions of a command, and give the command with paths in their place. -/
def startSubstitutions (host : Host World) (command : Command) : Expand World Command := fun s =>
  match host.start s.shell command s.world with
  | (.ok started, world) =>
    (.ok ⟨replaceSubstitutions started.paths command.words⟩,
      { shell := s.shell.retain started, world := world })
  | (.error error, world) => (.error error, { s with world := world })

/-- The command with its process substitutions started and replaced, if it has any. -/
def prepare (host : Host World) (command : Command) : Expand World Command :=
  if command.hasSubstitution then startSubstitutions host command else pure command

/-- What expanding a command gives: its arguments or an error, and the command as it is left, which
has its substitutions replaced once they were started. -/
structure Expanded where
  outcome : Except ExpandError (List Text)
  command : Command

/-- Expand a command. -/
def expandArguments (host : Host World) (command : Command) (s : Session World) :
    Expanded × Session World :=
  match (prepare host command).exec s with
  | (.ok prepared, s) =>
    let (outcome, s) := (expandWords host prepared.words).exec s
    (⟨outcome, prepared⟩, s)
  | (.error error, s) => (⟨.error error, command⟩, s)

namespace Session

/-- Close the descriptors of process substitutions and hand over their processes. -/
def release (host : Host World) (s : Session World) : List Nat × Session World :=
  (s.shell.children,
    { shell := { s.shell with children := [], pipes := [] }
      world := host.close s.shell.pipes s.world })

/-- Wait for processes; gives those that could be waited for. -/
def waitAll (host : Host World) : List Nat → World → List Nat × World
  | [], world => ([], world)
  | pid :: pids, world =>
    let (reaped, world) := host.wait pid world
    let (others, world) := waitAll host pids world
    (if reaped then pid :: others else others, world)

/-- Finish a command: close its descriptors and wait for its processes.  Gives the processes that
were waited for. -/
def finish (host : Host World) (s : Session World) : List Nat × Session World :=
  let (pids, s) := s.release host
  let (reaped, world) := waitAll host pids s.world
  (reaped, { s with world := world })

/-- Expand a command, and finish it if that fails. -/
def expand (host : Host World) (command : Command) (s : Session World) :
    Expanded × Session World :=
  let (expanded, s) := expandArguments host command s
  match expanded.outcome with
  | .ok _ => (expanded, s)
  | .error _ => (expanded, (s.finish host).2)

end Session

end ShellWord
