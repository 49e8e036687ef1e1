import ShellWord.Proofs.Noted

/-!
# What an expansion leaves alone

The session is threaded through every word, operand and arithmetic text of a command, and every step may
change it.  In the end little has changed, whether the expansion succeeds or fails, and at whatever place
it fails: `expandArguments_framed` lists what is as before, what only grew, and what `$?` is.

`$?` is the status of the last command that could be run.  Which one that was is known to the host alone;
so the host takes notes of what it is asked to run and what it answers (`Host.noted`), and `$?` is read off
the notes (`Shell.Framed.lastStatus`).  Variables are not mentioned here: they do change, and
`Proofs.VariableGrowth` says how.
-/

namespace ShellWord

variable {World : Type}

/-- The outputs of the commands that could be run, in order. -/
def outputs (ran : List (Text × Except ExpandError Output)) : List Output :=
  ran.filterMap fun run => run.2.toOption

theorem outputs_concat_ok (ran : List (Text × Except ExpandError Output)) (command : Text)
    (output : Output) : outputs (ran ++ [(command, .ok output)]) = outputs ran ++ [output] := by
  rw [outputs, List.filterMap_append]
  rfl

theorem outputs_concat_error (ran : List (Text × Except ExpandError Output)) (command : Text)
    (error : ExpandError) : outputs (ran ++ [(command, .error error)]) = outputs ran := by
  rw [outputs, List.filterMap_append]
  exact List.append_nil _

/-- What an expansion leaves of a shell, when `ran` is what the host was asked to run, and its answers:
everything but the variables is as before, except that processes and descriptors were added, and that the
last status is that of the last command that could be run, if there is one. -/
structure Shell.Framed (before : Shell) (ran : List (Text × Except ExpandError Output))
    (after : Shell) : Prop where
  positional : after.positional = before.positional
  name : after.name = before.name
  options : after.options = before.options
  globbing : after.globbing = before.globbing
  cwd : after.cwd = before.cwd
  lastBackground : after.lastBackground = before.lastBackground
  pid : after.pid = before.pid
  children : before.children <+: after.children
  pipes : before.pipes <+: after.pipes
  lastStatus : after.lastStatus =
    ((outputs ran).getLast?.map Output.status).getD before.lastStatus

namespace Shell.Framed

variable {before after : Shell} {ran : List (Text × Except ExpandError Output)}

theorem refl (sh : Shell) : sh.Framed [] sh :=
  ⟨rfl, rfl, rfl, rfl, rfl, rfl, rfl, List.prefix_rfl, List.prefix_rfl, rfl⟩

/-- A command that ran sets the status. -/
theorem ran_ok (h : before.Framed ran after) (command : Text) (output : Output) :
    before.Framed (ran ++ [(command, .ok output)]) { after with lastStatus := output.status } :=
  { h with lastStatus := by simp [outputs_concat_ok] }

/-- A command that could not be run does not. -/
theorem ran_error (h : before.Framed ran after) (command : Text) (error : ExpandError) :
    before.Framed (ran ++ [(command, .error error)]) after :=
  { h with lastStatus := by rw [outputs_concat_error, h.lastStatus] }

/-- Process substitutions that are started are added to those that were. -/
theorem retain (h : before.Framed ran after) (started : Started) :
    before.Framed ran (after.retain started) :=
  { h with
    children := h.children.trans (List.prefix_append _ _)
    pipes := h.pipes.trans (List.prefix_append _ _) }

end Shell.Framed

/-- The frame is kept by every step, for all commands. -/
theorem Notes.kept_framed (before : Shell) :
    Notes.Kept Prod.mk (fun _ => True) fun after ran => before.Framed ran after where
  vars _ framed := { framed with }
  ran output _ framed := framed.ran_ok _ output
  failed error _ framed := framed.ran_error _ error
  retained started framed := framed.retain started

/-- **The frame of an expansion.**  Expand a command with a host that takes notes of what it is asked to run:
the outcome and the session are those of the host itself, and with these notes the session that is left
is framed by the one before, also when the expansion fails. -/
theorem expandArguments_framed (host : Host World) (command : Command) (s : Session World) :
    ∃ ran : List (Text × Except ExpandError Output),
      expandArguments (host.noted Prod.mk) command (s.withNotes []) =
        ((expandArguments host command s).1, (expandArguments host command s).2.withNotes ran) ∧
      s.shell.Framed ran (expandArguments host command s).2.shell :=
  expandArguments_noted host (Notes.kept_framed s.shell) (fun _ _ _ _ _ _ => trivial)
    (Shell.Framed.refl s.shell)

end ShellWord
