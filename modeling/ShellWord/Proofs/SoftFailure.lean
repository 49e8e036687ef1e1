import ShellWord.Proofs.Invariant
import ShellWord.Proofs.Noted

/-!
# Soft failures

An expansion that is not well formed fails softly: it is replaced by its source text, and the command goes
on.  Some steps recover from a soft failure and some do not, such as a slice of the positional parameters
or the offset of a substring; what they call must not fail softly then.  `soft_failure_contained` says that
this is so.  No command fails softly, and an expansion that does has done nothing before: the session is
the same, no command was run, and the expansion stands for its source.

### What is load-bearing

Whether an expansion fails softly can be read off its own form, without its operands and without the
session: it does so if it is not well formed (`tryEvaluate_of_not_wellFormed`), and only then
(`not_isWellFormed_of_fails_softly`).  Its operands recover on their own, and everything else that expansion
does fails with hard errors.

A host that answers with a soft error would break both halves, since its command has been run by then; how
else it fails does not matter.
-/

namespace ShellWord

variable {World : Type}

/-- Commands and process substitutions do not fail softly. -/
structure Host.FailsHard (host : Host World) : Prop where
  run : ∀ sh command world text,
    (host.run sh command world).1 ≠ .error (.badSubstitution text)
  start : ∀ sh command world text,
    (host.start sh command world).1 ≠ .error (.badSubstitution text)

/-- An answer that is no bad substitution is no soft error. -/
theorem isSoft_of_ne_badSubstitution {α : Type} {answer : Except ExpandError α}
    (h : ∀ text, answer ≠ .error (.badSubstitution text)) {e : ExpandError} (failed : answer = .error e) :
    e.isSoft = false := by
  subst failed
  cases e with
  | badSubstitution text => exact absurd rfl (h text)
  | _ => rfl

namespace Host.FailsHard

variable {host : Host World} (h : host.FailsHard)

include h

/-- Failing with hard errors only is maintained, without any condition on the session. -/
theorem maintains : host.Maintains (fun _ => True) (·.isSoft = false) where
  hard := id
  define _ _ _ _ := trivial
  advance _ _ _ := trivial
  command _ := runCommand_ensures id fun answer _ =>
    ⟨trivial, isSoft_of_ne_badSubstitution (h.run _ _ _) (congrArg Prod.fst answer)⟩
  start _ := startPaths_ensures id fun answer _ =>
    ⟨trivial, isSoft_of_ne_badSubstitution (h.start _ _ _) (congrArg Prod.fst answer)⟩

/-- An expansion that fails softly is not well formed. -/
theorem not_isWellFormed_of_fails_softly {expansion : Expansion} {s s' : Session World} {text : Text}
    (fails : (tryEvaluate host expansion).exec s = (.error (.badSubstitution text), s')) :
    expansion.isWellFormed = false := by
  rw [← Bool.not_eq_true]
  intro wellFormed
  have isHard := (h.maintains.tryEvaluate wellFormed (s := s) trivial).2
  rw [fails] at isHard
  cases isHard _ rfl

end Host.FailsHard

/-- **Soft failures never escape, and leave no trace.**  Let commands and process substitutions not fail
softly.  Then no command fails softly; and where an expansion does, the session is as before, no command was
run, as the notes of the host show, and the expansion stands for its source. -/
theorem soft_failure_contained {host : Host World} (h : host.FailsHard) :
    (∀ (command : Command) (s : Session World) (text : Text),
      (expandArguments host command s).1.outcome ≠ .error (.badSubstitution text)) ∧
    ∀ (expansion : Expansion) (s s' : Session World) (text : Text),
      (tryEvaluate host expansion).exec s = (.error (.badSubstitution text), s') →
        s' = s ∧
        (∀ notes, (tryEvaluate (host.noted Prod.mk) expansion).exec (s.withNotes notes) =
          (.error (.badSubstitution text), s.withNotes notes)) ∧
        (evaluate host expansion).exec s = (.ok expansion.source, s) := by
  constructor
  · intro command s text failed
    have isHard := (h.maintains.expandArguments command (s := s) trivial).2
    cases isHard _ failed
  · intro expansion s s' text fails
    have malformed := h.not_isWellFormed_of_fails_softly fails
    -- the complaint is the same with every host, so it is also that of the host that takes notes
    obtain ⟨complaint, same⟩ := tryEvaluate_of_not_wellFormed malformed
    rw [same host, Run.exec_throw] at fails
    obtain ⟨rfl, rfl⟩ : complaint = text ∧ s = s' := by simpa using fails
    refine ⟨rfl, fun notes => ?_, ?_⟩
    · rw [same, Run.exec_throw]
    · rw [evaluate_of_not_wellFormed host malformed, Run.exec_pure]

/-- `${1x:=$(y)}`, in which the name is neither that of a variable nor a number. -/
def Expansion.malformed : Expansion :=
  .parameter ['1', 'x'] (some (.assignDefault true))
    (some (.mk [.expansion (.command ['y'] false) none] none))

theorem Host.failsHard_idle : Host.idle.FailsHard where
  run _ _ _ _ := nofun
  start _ _ _ _ := nofun

theorem tryEvaluate_malformed :
    (tryEvaluate Host.idle .malformed).exec Session.blank =
      (.error (.badSubstitution Expansion.malformed.source), Session.blank) := by
  rw [Expansion.malformed, tryEvaluate, if_neg (by decide)]
  rfl

/-- The statement at an assignment to a name that cannot be one, whose operand would run a command. -/
theorem soft_failure_contained_malformed :
    Host.idle.FailsHard ∧
      (tryEvaluate Host.idle .malformed).exec Session.blank =
        (.error (.badSubstitution Expansion.malformed.source), Session.blank) ∧
      (∀ text, (expandArguments Host.idle ⟨[.mk [.expansion .malformed none] none]⟩ .blank).1.outcome ≠
        .error (.badSubstitution text)) ∧
      (tryEvaluate (Host.idle.noted Prod.mk) .malformed).exec (Session.blank.withNotes []) =
        (.error (.badSubstitution Expansion.malformed.source), Session.blank.withNotes []) ∧
      (evaluate Host.idle .malformed).exec .blank = (.ok Expansion.malformed.source, .blank) := by
  obtain ⟨never, leaves⟩ := soft_failure_contained Host.failsHard_idle
  obtain ⟨-, silent, source⟩ := leaves _ _ _ _ tryEvaluate_malformed
  exact ⟨Host.failsHard_idle, tryEvaluate_malformed, never _ _, silent [], source⟩

end ShellWord
