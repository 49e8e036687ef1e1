import ShellWord.Proofs.Arith.Targets
import ShellWord.Proofs.Simulation

/-!
# Invariants of expansion

What does every expansion keep, and how may it fail?  A property of single runs is a coupling of a host
with itself whose second side is ignored.  `Host.Maintains` says what remains to be shown of an invariant
`I` of the session and a set `E` of errors, and `Host.Maintains.expandArguments` gives the rest: a command
of any form keeps `I`, whether it succeeds or fails, and fails with errors in `E` only.

### What is load-bearing

Variables are set in two unrelated places, by `${x=word}` and by arithmetic, which may even evaluate the
values of variables as arithmetic again.  In both only variables with proper names are set, so one
condition on an invariant is enough for them (`Host.Maintains.define`).  The world changes with every read
of a variable that changes by itself, wherever that happens (`Host.Maintains.advance`).

Expansion itself only ever fails with hard errors, so all of these have to be in `E`.  A soft one that
reaches `E` comes from the host.
-/

namespace ShellWord

variable {World : Type}

/-- What is to be shown of an invariant of sessions, and of a set of errors. -/
structure Host.Maintains (host : Host World) (I : Session World → Prop) (E : ExpandError → Prop) :
    Prop where
  hard : ∀ {e}, e.isSoft = false → E e
  define : ∀ {name}, Text.isName name = true → ∀ value s, I s →
    I (s.onShell (Shell.define name value))
  advance : ∀ which s, I s → I (s.advance host which)
  command : ∀ command, Run.Ensures I E (runCommand host command)
  start : ∀ command, Run.Ensures I E (startPaths host command)

/-! ### Asking the host -/

section

variable {host : Host World} {I : Session World → Prop} {E : ExpandError → Prop}

theorem runCommand_ensures {command : Text}
    (onOutput : ∀ {s world} {output : Output}, I s →
      I { shell := { s.shell with lastStatus := output.status }, world := world })
    (onError : ∀ {s e world}, host.run s.shell command s.world = (.error e, world) → I s →
      I { s with world := world } ∧ E e) :
    Run.Ensures I E (runCommand host command) := by
  intro s holds
  show I (runCommand host command s).2 ∧ ∀ e, (runCommand host command s).1 = .error e → E e
  unfold runCommand
  split
  · exact ⟨onOutput holds, nofun⟩
  · next answer =>
    obtain ⟨after, error⟩ := onError answer holds
    exact ⟨after, fun _ same => Except.error.inj same ▸ error⟩

theorem startPaths_ensures {command : Command}
    (onStarted : ∀ {s started world}, I s →
      I { shell := s.shell.retain started, world := world })
    (onError : ∀ {s e world}, host.start s.shell command s.world = (.error e, world) → I s →
      I { s with world := world } ∧ E e) :
    Run.Ensures I E (startPaths host command) := by
  intro s holds
  show I (startPaths host command s).2 ∧ ∀ e, (startPaths host command s).1 = .error e → E e
  unfold startPaths
  split
  · split
    · exact ⟨onStarted holds, nofun⟩
    · next answer =>
      obtain ⟨after, error⟩ := onError answer holds
      exact ⟨after, fun _ same => Except.error.inj same ▸ error⟩
  · exact ⟨holds, nofun⟩

end

/-! ### Errors of pathname expansion -/

theorem isSoft_of_expandField {globber : Globber} {globbing : Globbing} {field : Field}
    {e : ExpandError} (h : expandField globber globbing field = .error e) : e.isSoft = false := by
  unfold expandField at h
  split at h
  · cases h
  · split at h
    · split at h
      · cases h
        rfl
      · split at h <;> cases h
    · cases h

theorem isSoft_of_expandFieldList {globber : Globber} {globbing : Globbing} {fields : List Field}
    {e : ExpandError} (h : expandFieldList globber globbing fields = .error e) : e.isSoft = false := by
  induction fields with
  | nil => cases h
  | cons field fields ih =>
      rw [expandFieldList] at h
      cases first : expandField globber globbing field with
      | error e' =>
          rw [first] at h
          cases h
          exact isSoft_of_expandField first
      | ok texts =>
          rw [first] at h
          cases rest : expandFieldList globber globbing fields with
          | error e' =>
              rw [rest] at h
              cases h
              exact ih rest
          | ok more =>
              rw [rest] at h
              cases h

namespace Host.Maintains

variable {host : Host World} {I : Session World → Prop} {E : ExpandError → Prop}
  (m : host.Maintains I E)

include m

/-! ### Steps -/

theorem afterRead (name : Text) {s : Session World} (holds : I s) : I (s.afterRead host name) := by
  unfold Session.afterRead
  split
  · exact m.advance _ s holds
  · exact holds

theorem readParameter (name : Text) : Run.Ensures I E (ShellWord.readParameter host name) :=
  .total fun _ holds => m.afterRead name holds

theorem requireValue (name : Text) : Run.Ensures I E (ShellWord.requireValue host name) := by
  refine .bind (m.readParameter name) fun value => ?_
  cases value with
  | some value => exact .pure _
  | none =>
      refine .get_bind fun s holds => ?_
      split
      · exact .throw (m.hard rfl)
      · exact .pure _

theorem integer (text : Text) : Run.Ensures I (fun _ => True) (ShellWord.integer host text) :=
  Arith.evaluate_ensures (fun _ _ holds => m.afterRead _ holds) (fun isName => m.define isName) text

theorem expandFields (fields : List Field) :
    Run.Ensures I E (ShellWord.expandFields host fields) := by
  refine .get_bind fun s holds => ?_
  split
  · exact .pure _
  · split
    · exact .pure _
    · next failed => exact .throw (m.hard (isSoft_of_expandFieldList failed))

omit m in
theorem orSource (expansion : Expansion) {x : Expand World Text} (h : Run.Ensures I E x) :
    Run.Ensures I E (ShellWord.orSource expansion x) := by
  refine .tryCatch h fun e error => ?_
  split
  · exact .pure _
  · exact .throw error

/-- A coupling of the host with itself, in which the second side is ignored. -/
def coupling : host.Coupling host where
  Near s t := s = t ∧ I s
  Rel x _ := Run.Ensures I E x
  Allowed _ := True
  Named _ := True
  pure := .pure
  bind := .bind
  get_bind h := .get_bind fun s holds => h s s ⟨rfl, holds⟩
  throw isHard := .throw (m.hard isHard)
  orSource expansion _ _ := Maintains.orSource expansion
  alike := by
    rintro s _ ⟨rfl, -⟩
    exact ⟨rfl, rfl, rfl, rfl⟩
  home := by
    rintro s _ ⟨rfl, -⟩
    rfl
  engine _ := rfl
  read _ := m.readParameter _
  require _ := m.requireValue _
  define isName value := .modify (m.define isName value)
  integer _ text := .mapError (m.integer text) fun _ _ => m.hard rfl
  command _ := m.command _

theorem admits (node : Expansion) : m.coupling.Admits node :=
  ⟨fun _ _ => trivial, fun _ _ => trivial⟩

/-! ### Expansions and commands -/

/-- Soft errors of an expansion that is well formed come from the host. -/
theorem tryEvaluate {expansion : Expansion} (wellFormed : expansion.isWellFormed = true) :
    Run.Ensures I E (ShellWord.tryEvaluate host expansion) :=
  m.coupling.rel_tryEvaluate expansion wellFormed fun node _ => m.admits node

/-- **A command keeps the invariant, and fails with these errors only.** -/
theorem expandArguments (command : Command) {s : Session World} (holds : I s) :
    I (expandArguments host command s).2 ∧
      ∀ e, (expandArguments host command s).1.outcome = .error e → E e := by
  have run : Run.Ensures I E (arguments host command) :=
    m.coupling.rel_arguments m.expandFields (fun _ _ node _ => m.admits node) (m.start command)
  rw [expandArguments_eq]
  exact run holds

end Host.Maintains

end ShellWord
