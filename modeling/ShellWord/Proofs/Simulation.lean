import ShellWord.Proofs.Arith.Targets
import ShellWord.Proofs.Coupling
import ShellWord.Proofs.Parameter

/-!
# Simulations between sessions

Two hosts, two sessions, one command: when does expanding it do the same on both sides?
`Host.Simulates` collects what is asked of the hosts and of the relation between the sessions.  It is a
coupling (`Host.Simulates.coupling`), and what couplings give is the answer: `wordSegments_related` for
everything up to field splitting, and `expandArguments_related` for a whole command, once starting
substitutions and looking at files are related too.

### What is load-bearing

The hosts are compared only on the commands in `Allowed`.  This is the point of the whole module: a
simulation for a *small* set of commands says that no other command is ever run, because a host that
misbehaves on all others would otherwise show.  The condition that a word stays within the set is
`Permitted Allowed word.nodes`, which reads the word and nothing else.

Files are not mentioned, and of the pattern options only `extglob` has to agree
(`Shell.Agrees`): nothing before pathname expansion looks at the others.
-/

namespace ShellWord

/-! ### What both sides have in common -/

/-- Two shells agree on all that expansion reads before it turns to files. -/
structure Shell.Agrees (a b : Shell) : Prop where
  vars : a.vars = b.vars
  positional : a.positional = b.positional
  name : a.name = b.name
  options : a.options = b.options
  extglob : a.globbing.extglob = b.globbing.extglob
  lastStatus : a.lastStatus = b.lastStatus
  lastBackground : a.lastBackground = b.lastBackground
  pid : a.pid = b.pid

namespace Shell.Agrees

variable {a b : Shell}

theorem alike (h : a.Agrees b) : a.Alike b :=
  ⟨h.vars, h.positional, h.name, h.extglob⟩

theorem special? (h : a.Agrees b) (name : Text) : a.special? name = b.special? name := by
  unfold Shell.special?
  split <;>
    simp only [h.positional, h.alike.separator, h.lastStatus, h.pid, h.lastBackground, h.options,
      h.name, Shell.positional?]

end Shell.Agrees

/-- What two hosts have to do alike, for the commands in `Allowed`, on sessions related by `R`. -/
structure Host.Simulates {World World' : Type} (host : Host World) (host' : Host World')
    (Allowed : Text → Prop) (R : Session World → Session World' → Prop) : Prop where
  agrees : ∀ ⦃s t⦄, R s t → s.shell.Agrees t.shell
  home : ∀ ⦃s t⦄, R s t → host.home s.world = host'.home t.world
  engine : host.engine = host'.engine
  dynamic : ∀ ⦃s t⦄, R s t → host.dynamic s.world = host'.dynamic t.world
  advance : ∀ ⦃s t⦄ (which : Dynamic), R s t → R (s.advance host which) (t.advance host' which)
  withVars : ∀ ⦃s t⦄ (vars : Variables), R s t →
    R (s.onShell ({ · with vars := vars })) (t.onShell ({ · with vars := vars }))
  command : ∀ ⦃command⦄, Allowed command →
    Run.Related R (runCommand host command) (runCommand host' command)

section

variable {World World' : Type} {host : Host World} {host' : Host World'} {Allowed : Text → Prop}
  {R : Session World → Session World' → Prop}

/-- What is not well formed is replaced by its source on both sides; no soft error stops the first
one. -/
theorem orSource_relatedUnless {Stop : ExpandError → Prop} (hard : ∀ e, Stop e → e.isSoft = false)
    (expansion : Expansion) {x : Expand World Text} {y : Expand World' Text}
    (h : Run.RelatedUnless Stop R x y) :
    Run.RelatedUnless Stop R (orSource expansion x) (orSource expansion y) := by
  refine .tryCatch h (fun error => ?_) fun error stop => ?_
  · split
    · exact .pure _
    · exact .throw _
  · rw [hard error stop]
    rfl

namespace Host.Simulates

theorem lookup (sim : host.Simulates host' Allowed R) {s : Session World} {t : Session World'}
    (related : R s t) : s.lookup host = t.lookup host' := by
  funext name
  have agrees := sim.agrees related
  rw [Session.lookup, Session.lookup, agrees.special? name, agrees.vars, sim.dynamic related]

/-- The worlds are asked for the same variables, and so they stay related. -/
theorem afterRead (sim : host.Simulates host' Allowed R) (name : Text) {s : Session World}
    {t : Session World'} (related : R s t) : R (s.afterRead host name) (t.afterRead host' name) := by
  have asked : s.asked? name = t.asked? name := by
    rw [Session.asked?, Session.asked?, (sim.agrees related).vars]
  unfold Session.afterRead
  rw [asked]
  split
  · exact sim.advance _ related
  · exact related

theorem read (sim : host.Simulates host' Allowed R) {ε : Type} (name : Text) :
    Run.Related R (readParameter host name : Run (Session World) ε (Option Text))
      (readParameter host' name : Run (Session World') ε (Option Text)) :=
  .total fun _ _ related => ⟨congrFun (sim.lookup related) name, sim.afterRead name related⟩

theorem requireValue (sim : host.Simulates host' Allowed R) (name : Text) :
    Run.RelatedUnless (fun _ => False) R (ShellWord.requireValue host name)
      (ShellWord.requireValue host' name) := by
  refine .bind (sim.read name).relatedUnless fun value => ?_
  cases value with
  | some value => exact .pure _
  | none =>
      refine .get_bind fun s t related => ?_
      rw [(sim.agrees related).options]
      split
      · exact .throw _
      · exact .pure _

/-- The two sides write a value into variables that were equal before. -/
theorem define (sim : host.Simulates host' Allowed R) (name value : Text) {s : Session World}
    {t : Session World'} (related : R s t) :
    R (s.onShell (Shell.define name value)) (t.onShell (Shell.define name value)) := by
  have same : t.onShell (Shell.define name value) =
      t.onShell ({ · with vars := s.shell.vars.insert name value }) := by
    rw [(sim.agrees related).vars]
    rfl
  rw [same]
  exact sim.withVars (s.shell.vars.insert name value) related

theorem integer (sim : host.Simulates host' Allowed R) (text : Text) :
    Run.RelatedUnless (fun _ => False) R (ShellWord.integer host text)
      (ShellWord.integer host' text) := by
  refine Run.Related.relatedUnless (Arith.evaluate_related ?_ ?_ text)
  · intro name _ s t related
    exact ⟨congrFun (sim.lookup related) name, sim.afterRead name related⟩
  · intro name _ value s t related
    exact sim.define name value related

/-- A simulation is a coupling, for all parameters. -/
def coupling (sim : host.Simulates host' Allowed R) : host.Coupling host' where
  Near := R
  Rel := Run.RelatedUnless (fun _ => False) R
  Allowed := Allowed
  Named _ := True
  pure := .pure
  bind := .bind
  get_bind := .get_bind
  throw _ := .throw _
  orSource := orSource_relatedUnless fun _ => False.elim
  alike related := (sim.agrees related).alike
  home related := sim.home related
  engine _ := sim.engine
  read _ := (sim.read _).relatedUnless
  require _ := sim.requireValue _
  define _ value := .modify fun _ _ related => sim.define _ value related
  integer _ text := .mapError _ (sim.integer text)
  command allowed := Run.related_iff_relatedUnless.1 (sim.command allowed)

theorem admits (sim : host.Simulates host' Allowed R) {nodes : List Expansion}
    (permitted : Permitted Allowed nodes) : ∀ node ∈ nodes, sim.coupling.Admits node :=
  fun node mem => ⟨permitted node mem, fun _ _ => trivial⟩

end Host.Simulates

/-! ### Words and commands -/

/-- **Related sessions give a word the same segments.** -/
theorem wordSegments_related (sim : host.Simulates host' Allowed R) (word : Word)
    (permitted : Permitted Allowed word.nodes) :
    Run.Related R (wordSegments host word) (wordSegments host' word) :=
  Run.related_iff_relatedUnless.2 (sim.coupling.rel_wordSegments (sim.admits permitted))

theorem expandWords_related (sim : host.Simulates host' Allowed R)
    (onFields : ∀ fields, Run.Related R (expandFields host fields) (expandFields host' fields))
    (words : List Word) (permitted : ∀ word ∈ words, Permitted Allowed word.nodes) :
    Run.Related R (expandWords host words) (expandWords host' words) :=
  Run.related_iff_relatedUnless.2 <|
    sim.coupling.rel_expandWords (fun fields => Run.related_iff_relatedUnless.1 (onFields fields))
      fun word mem => sim.admits (permitted word mem)

/-- **Related sessions give a command the same arguments**, and leave the same command. -/
theorem expandArguments_related (sim : host.Simulates host' Allowed R)
    (onFields : ∀ fields, Run.Related R (expandFields host fields) (expandFields host' fields))
    {command : Command} (onStart : Run.Related R (startPaths host command) (startPaths host' command))
    (permitted : ∀ word ∈ command.words, Permitted Allowed word.nodes) {s : Session World}
    {t : Session World'} (related : R s t) :
    (expandArguments host command s).1 = (expandArguments host' command t).1 ∧
      R (expandArguments host command s).2 (expandArguments host' command t).2 := by
  have run : Run.Related R (arguments host command) (arguments host' command) :=
    .bind onStart fun paths => expandWords_related sim onFields _ <|
      forall_nodes_replaceSubstitutions permitted paths
  rw [expandArguments_eq, expandArguments_eq, (run related).1, (onStart related).1]
  exact ⟨rfl, (run related).2⟩

end

/-! ### Parameters that are set -/

section

variable {World : Type} {host : Host World} {s s' : Session World} {name value : Text}

theorem exec_requireValue_of_lookup (set : s.lookup host name = some value) :
    (requireValue host name).exec s = (.ok value, s.afterRead host name) := by
  rw [requireValue, readParameter, Run.exec_bind, Run.exec_total]
  dsimp only
  rw [set]
  rfl

theorem exec_expandVariable_of_lookup (named : isParameter name = true)
    (set : s.lookup host name = some value) :
    (expandVariable host name).exec s = (.ok value, s.afterRead host name) := by
  rw [expandVariable, if_pos named]
  exact exec_requireValue_of_lookup set

/-- An expansion that succeeds does not give its source. -/
theorem exec_orSource_of_ok {x : Expand World Text} (ran : x.exec s = (.ok value, s'))
    (expansion : Expansion) : (orSource expansion x).exec s = (.ok value, s') := by
  rw [orSource, Run.exec_tryCatch, ran]

end

/-! ### Pathname expansion -/

/-- A host is known by what it answers while words are expanded into segments; how it starts process substitutions, and
which files it shows, is not noticed there. -/
theorem Host.simulates_of_eq {World : Type} {host host' : Host World} (home : host.home = host'.home)
    (engine : host.engine = host'.engine) (dynamic : host.dynamic = host'.dynamic)
    (advance : host.advance = host'.advance) (run : host.run = host'.run) :
    host.Simulates host' (fun _ => True) Eq where
  agrees := by
    rintro s t rfl
    exact ⟨rfl, rfl, rfl, rfl, rfl, rfl, rfl, rfl⟩
  home := by
    rintro s t rfl
    rw [home]
  engine := engine
  dynamic := by
    rintro s t rfl
    rw [dynamic]
  advance := by
    rintro s t which rfl
    rw [Session.advance, Session.advance, advance]
  withVars := by
    rintro s t vars rfl
    rfl
  command := by
    rintro command - s t rfl
    have same : runCommand host command = runCommand host' command := by
      unfold runCommand
      rw [run]
    rw [same]
    exact ⟨rfl, rfl⟩

/-- Other files are not noticed before pathname expansion. -/
theorem Host.simulates_files {World : Type} (host : Host World) (files : World → FileSystem) :
    host.Simulates { host with files := files } (fun _ => True) Eq :=
  Host.simulates_of_eq rfl rfl rfl rfl rfl

/-- Pathname expansion looks at files, and changes nothing. -/
theorem exec_expandFields {World : Type} (host : Host World) (fields : List Field)
    (s : Session World) :
    (expandFields host fields).exec s =
      (if s.shell.options.noglob then .ok (fields.map Literal.text)
        else expandFieldList (s.globber host) s.shell.globbing fields, s) := by
  unfold expandFields
  rw [Run.exec_bind, Run.exec_get]
  dsimp only
  split
  · rfl
  · split
    · next found => rw [Run.exec_pure, found]
    · next found => rw [Run.exec_throw, found]

end ShellWord
