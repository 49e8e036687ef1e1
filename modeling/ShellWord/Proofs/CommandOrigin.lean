import ShellWord.Proofs.Noted

/-!
# Only written commands are run

Expanding a command hands texts over to be run: those of command substitutions, and those of `$(…)` in
arithmetic text.  The values of variables, the positional parameters and the outputs of earlier
commands all pass through the same machinery, and arithmetic text is even rewritten with them before it
is searched for `$(`.  None of that is ever run: `expandArguments_logged` says that every text that
reaches the host is spelled out in the command (`Command.Writes`).

The log is kept by any host at all that takes notes (`Host.noted`), the note of a command being its text.
The statement is one simulation between a host and the one that takes notes, for the relation "the same
session, and notes of permitted commands"; hence it also says that writing the log changes nothing.
-/

namespace ShellWord

variable {World : Type}

/-- A note of a command that holds its text. -/
def Note.text (command : Text) (_ : Except ExpandError Output) : Text :=
  command

/-- That all the commands in the notes are permitted is kept by every step. -/
theorem Notes.kept_text (Allowed : Text → Prop) :
    Notes.Kept Note.text Allowed fun _ log => ∀ command ∈ log, Allowed command where
  vars _ within := within
  ran _ allowed within := List.forall_mem_append.2 ⟨within, List.forall_mem_singleton.2 allowed⟩
  failed _ allowed within := List.forall_mem_append.2 ⟨within, List.forall_mem_singleton.2 allowed⟩
  retained _ within := within

/-- **Only commands that are written are run.**  Expand a command with a host that writes down what it
is asked to run: the outcome and the session are those of the host itself, and every text in the log is
spelled out in the command, whatever variables, parameters and earlier outputs hold. -/
theorem expandArguments_logged (host : Host World) (command : Command) (s : Session World) :
    ∃ ran : List Text,
      expandArguments (host.noted Note.text) command (s.withNotes []) =
        ((expandArguments host command s).1, (expandArguments host command s).2.withNotes ran) ∧
      ∀ text ∈ ran, command.Writes text :=
  expandArguments_noted host (Notes.kept_text command.Writes)
    (fun word mem node inWord _ writes => ⟨word, mem, node, inWord, writes⟩)
    (List.forall_mem_nil _)

end ShellWord
