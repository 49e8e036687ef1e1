import ShellWord.Proofs.Simulation

/-!
# Hosts that take notes

What an expansion asks of the world is not part of its result.  To speak about it, let the host take notes:
`Host.noted` is any host at all, with a note of every command that it was asked to run, and of its answer,
written down beside its world.

A host is simulated by the one that takes notes, for the relation "the same session, and notes of which
something holds".  What holds may speak about the shell as well (`Notes.Kept`), so that what the shell
remembers of its commands can be compared with what the host wrote down.  `expandArguments_noted` is this
simulation for a whole command; it also says that taking notes changes nothing.
-/

namespace ShellWord

variable {World Note : Type}

/-- A host that takes a note, in order, of every command it is asked to run, and of what came of it. -/
def Host.noted (host : Host World) (note : Text → Except ExpandError Output → Note) :
    Host (World × List Note) where
  files world := host.files world.1
  home world := host.home world.1
  engine := host.engine
  dynamic world := host.dynamic world.1
  advance which world := (host.advance which world.1, world.2)
  run sh command world :=
    let (answer, after) := host.run sh command world.1
    (answer, (after, world.2 ++ [note command answer]))
  start sh command world :=
    let (outcome, after) := host.start sh command world.1
    (outcome, (after, world.2))
  close pipes world := (host.close pipes world.1, world.2)
  wait pid world :=
    let (reaped, after) := host.wait pid world.1
    (reaped, (after, world.2))

/-- A session with notes beside its world. -/
def Session.withNotes (s : Session World) (notes : List Note) : Session (World × List Note) :=
  ⟨s.shell, (s.world, notes)⟩

/-- The second session is the first one with notes, and something holds of the shell and the notes. -/
def Noted (Holds : Shell → List Note → Prop) (s : Session World) (t : Session (World × List Note)) :
    Prop :=
  ∃ notes, t = s.withNotes notes ∧ Holds s.shell notes

/-- What has to be kept by the steps of an expansion, for the commands in `Allowed`. -/
structure Notes.Kept (note : Text → Except ExpandError Output → Note) (Allowed : Text → Prop)
    (Holds : Shell → List Note → Prop) : Prop where
  vars : ∀ {sh notes} (vars : Variables), Holds sh notes → Holds { sh with vars := vars } notes
  ran : ∀ {sh notes command} (output : Output), Allowed command → Holds sh notes →
    Holds { sh with lastStatus := output.status } (notes ++ [note command (.ok output)])
  failed : ∀ {sh notes command} (error : ExpandError), Allowed command → Holds sh notes →
    Holds sh (notes ++ [note command (.error error)])
  retained : ∀ {sh notes} (started : Started), Holds sh notes → Holds (sh.retain started) notes

section

variable {note : Text → Except ExpandError Output → Note} {Allowed : Text → Prop}
  {Holds : Shell → List Note → Prop} (host : Host World)

/-- Running a command does the same with notes, and adds one. -/
theorem runCommand_noted (kept : Notes.Kept note Allowed Holds) {command : Text}
    (allowed : Allowed command) :
    Run.Related (Noted Holds) (runCommand host command) (runCommand (host.noted note) command) := by
  rintro s t ⟨notes, rfl, holds⟩
  change (runCommand host command s).1 = (runCommand (host.noted note) command (s.withNotes notes)).1 ∧
    Noted Holds (runCommand host command s).2
      (runCommand (host.noted note) command (s.withNotes notes)).2
  unfold runCommand
  rcases ran : host.run s.shell command s.world with ⟨error | output, world⟩
  all_goals simp only [Host.noted, Session.withNotes, ran]
  · exact ⟨trivial, _, rfl, kept.failed error allowed holds⟩
  · exact ⟨trivial, _, rfl, kept.ran output allowed holds⟩

/-- Starting process substitutions does the same with notes, and adds none. -/
theorem startPaths_noted (kept : Notes.Kept note Allowed Holds) (command : Command) :
    Run.Related (Noted Holds) (startPaths host command) (startPaths (host.noted note) command) := by
  rintro s t ⟨notes, rfl, holds⟩
  change (startPaths host command s).1 = (startPaths (host.noted note) command (s.withNotes notes)).1 ∧
    Noted Holds (startPaths host command s).2
      (startPaths (host.noted note) command (s.withNotes notes)).2
  unfold startPaths
  split
  · rcases answer : host.start s.shell command s.world with ⟨error | started, world⟩
    all_goals simp only [Host.noted, Session.withNotes, answer]
    · exact ⟨trivial, _, rfl, holds⟩
    · exact ⟨trivial, _, rfl, kept.retained started holds⟩
  · exact ⟨rfl, _, rfl, holds⟩

theorem expandFields_noted (fields : List Field) :
    Run.Related (Noted Holds) (expandFields host fields) (expandFields (host.noted note) fields) := by
  rintro s t ⟨notes, rfl, holds⟩
  rw [exec_expandFields, exec_expandFields]
  exact ⟨rfl, notes, rfl, holds⟩

/-- A host is simulated by the one that takes notes. -/
theorem Host.simulates_noted (kept : Notes.Kept note Allowed Holds) :
    host.Simulates (host.noted note) Allowed (Noted Holds) where
  agrees := by
    rintro s t ⟨notes, rfl, -⟩
    exact ⟨rfl, rfl, rfl, rfl, rfl, rfl, rfl, rfl⟩
  home := by
    rintro s t ⟨notes, rfl, -⟩
    rfl
  engine := rfl
  dynamic := by
    rintro s t ⟨notes, rfl, -⟩
    rfl
  advance := by
    rintro s t which ⟨notes, rfl, holds⟩
    exact ⟨notes, rfl, holds⟩
  withVars := by
    rintro s t vars ⟨notes, rfl, holds⟩
    exact ⟨notes, rfl, kept.vars vars holds⟩
  command _ allowed := runCommand_noted host kept allowed

/-- **Taking notes changes nothing, and what is kept by every step holds in the end.** -/
theorem expandArguments_noted (kept : Notes.Kept note Allowed Holds) {command : Command}
    (permitted : ∀ word ∈ command.words, Permitted Allowed word.nodes) {s : Session World}
    {notes : List Note} (holds : Holds s.shell notes) :
    ∃ notes',
      expandArguments (host.noted note) command (s.withNotes notes) =
        ((expandArguments host command s).1, (expandArguments host command s).2.withNotes notes') ∧
      Holds (expandArguments host command s).2.shell notes' := by
  obtain ⟨outcome, notes', state, holds'⟩ :=
    expandArguments_related (host.simulates_noted kept) (expandFields_noted host)
      (startPaths_noted host kept command) permitted ⟨notes, rfl, holds⟩
  exact ⟨notes', Prod.ext outcome.symm state, holds'⟩

end

end ShellWord
