import ShellWord.Proofs.Parameter
import ShellWord.Proofs.Simulation

/-!
# Unset parameters as errors

With the option `nounset` an unset parameter is an error.  The option is looked at in one more place: `$-`
shows it.  So a command that does not name `-` cannot tell whether the option is on, except by failing:
`expandArguments_nounset` says that with the option it fails with an unbound parameter, or does exactly
what it does without.

The two runs stay in step up to the first unbound parameter.  From there on they have nothing in common,
and nothing is claimed: the run with the option stops, and no handler is in its way, because the error
is not soft.  This is the relation `Run.RelatedUnless`, and the statement is one coupling of a host with
itself.

### What is load-bearing

The parameter `-` may be named in four ways: `$-`, `${-}`, an operator on it, and `${-}` within arithmetic
text, at any depth.  All of them are in `Command.Names`.  In arithmetic text `$-` without braces is *not*
the parameter, and a command that holds it there is not excluded.

A read of a variable that changes by itself changes the world (`Host.advance`), and the next read is answered
by the world that is left.  That the two runs end in the same world hence also says that they ask for the same
variables in the same order; where the world is a record of the reads, it says no more than that.
-/

namespace ShellWord

variable {World : Type}

/-- The shell with `nounset` on or off. -/
def Shell.withNounset (on : Bool) (sh : Shell) : Shell :=
  { sh with options := { sh.options with nounset := on } }

/-- The session with `nounset` on or off. -/
def Session.withNounset (on : Bool) (s : Session World) : Session World :=
  s.onShell (Shell.withNounset on)

/-- What commands and process substitutions do does not depend on `nounset`. -/
structure Host.IgnoresNounset (host : Host World) : Prop where
  run : ∀ (on : Bool) (sh : Shell) (command : Text) (world : World),
    host.run (sh.withNounset on) command world = host.run sh command world
  start : ∀ (on : Bool) (sh : Shell) (command : Command) (world : World),
    host.start (sh.withNounset on) command world = host.start sh command world

/-- The first session is the second one with `nounset` on. -/
def Strict (s t : Session World) : Prop :=
  s = t.withNounset true

/-- The errors of unset parameters. -/
def IsUnbound (e : ExpandError) : Prop :=
  ∃ name, e = .unbound name

/-- Of the special parameters only `-` shows the option. -/
theorem Shell.special?_withNounset (on : Bool) (sh : Shell) {name : Text} (h : name ≠ ['-']) :
    (sh.withNounset on).special? name = sh.special? name := by
  unfold Shell.special?
  split
  case h_7 => exact absurd rfl h
  all_goals rfl

theorem lookup_withNounset (host : Host World) (on : Bool) (s : Session World) {name : Text}
    (h : name ≠ ['-']) : (s.withNounset on).lookup host name = s.lookup host name := by
  unfold Session.lookup
  rw [Session.withNounset, Session.onShell, Shell.special?_withNounset on s.shell h]
  rfl

/-- What a read does to the world does not depend on the option at all. -/
theorem afterRead_withNounset (host : Host World) (on : Bool) (s : Session World) (name : Text) :
    (s.withNounset on).afterRead host name = (s.afterRead host name).withNounset on := by
  unfold Session.afterRead
  rw [show (s.withNounset on).asked? name = s.asked? name from rfl]
  split <;> rfl

/-! ### The steps of the two runs -/

/-- A parameter is read with the same value, and leaves the same world. -/
theorem readParameter_strict (host : Host World) {Stop : ExpandError → Prop} {name : Text} (h : name ≠ ['-']) :
    Run.RelatedUnless Stop Strict (readParameter host name) (readParameter host name) := by
  refine .total ?_
  rintro _ t rfl
  exact ⟨lookup_withNounset host true t h, afterRead_withNounset host true t name⟩

/-- A parameter is set on both sides or on neither, and where it is not, the strict side stops. -/
theorem requireValue_strict (host : Host World) {name : Text} (h : name ≠ ['-']) :
    Run.RelatedUnless IsUnbound Strict (requireValue host name) (requireValue host name) := by
  refine .bind (readParameter_strict host h) fun value => ?_
  cases value with
  | some value => exact .pure _
  | none =>
      refine .get_bind fun s t strict => ?_
      obtain rfl : s = t.withNounset true := strict
      change Run.RelatedUnless IsUnbound Strict
        (if (PositionalList.ofName? name).isNone = true then throw (.unbound name) else pure []) _
      split
      · intro _ _ _
        exact .inr ⟨.unbound name, ⟨name, rfl⟩, rfl⟩
      · next exempt =>
        simp only [exempt, Bool.and_false]
        exact .pure _

/-- Expressions read and set variables with proper names only, and `-` is none. -/
theorem integer_strict (host : Host World) (text : Text) :
    Run.Related Strict (integer host text) (integer host text) := by
  refine Arith.evaluate_related ?_ ?_ text
  · rintro name isName _ t rfl
    have named : name ≠ ['-'] := by
      rintro rfl
      cases isName
    exact ⟨lookup_withNounset host true t named, afterRead_withNounset host true t name⟩
  · rintro name isName value _ t rfl
    rfl

theorem expandFields_strict (host : Host World) (fields : List Field) :
    Run.Related Strict (expandFields host fields) (expandFields host fields) := by
  rintro _ t rfl
  rw [exec_expandFields, exec_expandFields]
  exact ⟨rfl, rfl⟩

namespace Host.IgnoresNounset

variable {host : Host World} (ignores : host.IgnoresNounset)

include ignores

theorem runCommand_strict (command : Text) :
    Run.Related Strict (runCommand host command) (runCommand host command) := by
  rintro _ t rfl
  change (runCommand host command (t.withNounset true)).1 = (runCommand host command t).1 ∧
    Strict (runCommand host command (t.withNounset true)).2 (runCommand host command t).2
  have same := ignores.run true t.shell command t.world
  unfold runCommand
  rw [Session.withNounset, Session.onShell, same]
  rcases host.run t.shell command t.world with ⟨error | output, world⟩ <;> exact ⟨rfl, rfl⟩

theorem startPaths_strict (command : Command) :
    Run.Related Strict (startPaths host command) (startPaths host command) := by
  rintro _ t rfl
  change (startPaths host command (t.withNounset true)).1 = (startPaths host command t).1 ∧
    Strict (startPaths host command (t.withNounset true)).2 (startPaths host command t).2
  have same := ignores.start true t.shell command t.world
  unfold startPaths
  split
  · rw [Session.withNounset, Session.onShell, same]
    rcases host.start t.shell command t.world with ⟨error | started, world⟩ <;> exact ⟨rfl, rfl⟩
  · exact ⟨rfl, rfl⟩

omit ignores in
/-- Stopping with an unbound parameter is not soft. -/
theorem not_isSoft_of_isUnbound : ∀ e, IsUnbound e → e.isSoft = false := by
  rintro e ⟨name, rfl⟩
  rfl

/-- A host that ignores `nounset` is coupled with itself, for all parameters but `-`. -/
def coupling : host.Coupling host where
  Near := Strict
  Rel := Run.RelatedUnless IsUnbound Strict
  Allowed _ := True
  Named name := name ≠ ['-']
  pure := .pure
  bind := .bind
  get_bind := .get_bind
  throw _ := .throw _
  orSource := orSource_relatedUnless not_isSoft_of_isUnbound
  alike := by
    rintro _ t rfl
    exact ⟨rfl, rfl, rfl, rfl⟩
  home := by
    rintro _ t rfl
    rfl
  engine _ := rfl
  read named := readParameter_strict host named
  require named := requireValue_strict host named
  define := by
    intro name _ value
    refine .modify ?_
    rintro _ t rfl
    rfl
  integer _ text := .mapError _ (Run.related_iff_relatedUnless.1 (integer_strict host text))
  command _ := (ignores.runCommand_strict _).relatedUnless

end Host.IgnoresNounset

/-- **Making unset parameters errors only adds failures.**  Let a command not name the parameter `-`, and
let the host not look at the option.  With `nounset` the command ends as without, in the same session and
so after the same reads of the world, or it fails with an unbound parameter. -/
theorem expandArguments_nounset {host : Host World} (ignores : host.IgnoresNounset) {command : Command}
    (unnamed : ¬ command.Names ['-']) (s : Session World) :
    expandArguments host command (s.withNounset true) =
        ((expandArguments host command (s.withNounset false)).1,
          (expandArguments host command (s.withNounset false)).2.withNounset true) ∨
      ∃ name,
        (expandArguments host command (s.withNounset true)).1.outcome = .error (.unbound name) := by
  have admits : ∀ word ∈ command.words, ∀ node ∈ word.nodes, ignores.coupling.Admits node := by
    intro word mem node inWord
    refine ⟨fun _ _ => trivial, ?_⟩
    rintro name named rfl
    exact unnamed ⟨word, mem, node, inWord, named⟩
  have start := ignores.startPaths_strict command
  have run := ignores.coupling.rel_arguments (fun fields => (expandFields_strict host fields).relatedUnless)
    admits start.relatedUnless
  have strict : Strict (s.withNounset true) (s.withNounset false) := rfl
  rw [expandArguments_eq, expandArguments_eq, (start strict).1]
  rcases run strict with ⟨outcome, state⟩ | ⟨e, ⟨name, rfl⟩, failed⟩
  · rw [outcome, show _ = _ from state]
    exact .inl rfl
  · exact .inr ⟨name, failed⟩

/-- A host whose world is the list of the variables that were read, and whose answers count them. -/
def Host.recording : Host (List Dynamic) where
  files _ := .none
  home _ _ := none
  dynamic reads _ := reads.length
  advance which reads := reads ++ [which]
  run _ _ world := (.ok ⟨[], 0⟩, world)
  start _ _ world := (.ok ⟨[], [], []⟩, world)
  close _ world := world
  wait _ world := (false, world)

theorem Host.ignoresNounset_recording : Host.recording.IgnoresNounset where
  run _ _ _ _ := rfl
  start _ _ _ _ := rfl

/-- `${x-$RANDOM} $((RANDOM + ${SECONDS}))`. -/
def Command.drawing : Command :=
  ⟨[.mk [.expansion (.parameter ['x'] (some (.useDefault false))
      (some (.mk [.expansion (.variable "RANDOM".toList) none] none))) none] none,
    .mk [.expansion (.arithmetic ("RANDOM + ".toList ++ braced "SECONDS".toList)) none] none]⟩

/-- A shell with nothing set, in a world where nothing has been read. -/
def Session.unread : Session (List Dynamic) :=
  ⟨Session.blank.shell, []⟩

/-- The statement at a command that draws `RANDOM` twice, and reads `SECONDS` in between, because parameters
are replaced before an expression is evaluated; the world keeps a record of the reads. -/
theorem expandArguments_nounset_drawing :
    Host.recording.IgnoresNounset ∧ ¬ Command.drawing.Names ['-'] ∧
      (expandArguments Host.recording .drawing (Session.unread.withNounset false)).2.world =
        [.random, .seconds, .random] ∧
      (expandArguments Host.recording .drawing (Session.unread.withNounset true) =
          ((expandArguments Host.recording .drawing (Session.unread.withNounset false)).1,
            (expandArguments Host.recording .drawing (Session.unread.withNounset false)).2.withNounset true) ∨
        ∃ name, (expandArguments Host.recording .drawing (Session.unread.withNounset true)).1.outcome =
          .error (.unbound name)) :=
  ⟨Host.ignoresNounset_recording, by decide +kernel, by decide +kernel,
    expandArguments_nounset Host.ignoresNounset_recording (by decide +kernel) Session.unread⟩

end ShellWord
