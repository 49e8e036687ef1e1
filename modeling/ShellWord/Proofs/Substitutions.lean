import ShellWord.Proofs.Simulation

/-!
# What becomes of process substitutions

A process substitution outlives the expansion that started it.  Its process and its descriptor stay with the
session while the command runs, and several commands may be expanded before one of them is finished; an
expansion may also fail after its substitutions were started, at any of its words.  `children_balance` says
that through all of this no process is lost, and none is waited for twice.

What is started and what is waited for is known to the host alone, so the host keeps a ledger of both
(`Host.withLedger`).  A host is simulated by the one with a ledger, for the relation "the same session, and
a ledger that balances" (`Audited`); this is one request (`Audited.serve`), and any number of them follow.

### What is load-bearing

A failed expansion gives back its processes by finishing the command, and not by undoing what it did: the
ledger shows them as started and as waited for.  The command itself is not restored
(`command_expand_eq_iff`).  Whether the expansion failed plays no part in that; a substitution whose path was
put in stays replaced, although the descriptor behind the path is closed by then.
-/

namespace ShellWord

variable {World : Type}

/-! ### Keeping a ledger -/

/-- What a host did for process substitutions, in order. -/
structure Ledger where
  /-- the processes that it started -/
  started : List Nat
  /-- the processes that it was asked to wait for -/
  awaited : List Nat
  deriving DecidableEq, Repr

namespace Ledger

/-- A ledger without entries. -/
def empty : Ledger := ⟨[], []⟩

/-- Enter what came of starting substitutions. -/
def enter (ledger : Ledger) : Except ExpandError Started → Ledger
  | .ok started => { ledger with started := ledger.started ++ started.children }
  | .error _ => ledger

/-- Enter processes that are waited for. -/
def settle (ledger : Ledger) (pids : List Nat) : Ledger :=
  { ledger with awaited := ledger.awaited ++ pids }

theorem settle_nil (ledger : Ledger) : ledger.settle [] = ledger := by
  rw [settle, List.append_nil]

theorem settle_settle (ledger : Ledger) (pids more : List Nat) :
    (ledger.settle pids).settle more = ledger.settle (pids ++ more) := by
  rw [settle, settle, settle, List.append_assoc]

/-- The processes that were `held` at first, and then those that were started, are those that were waited
for, and then those that the shell holds. -/
def Balances (ledger : Ledger) (held : List Nat) (sh : Shell) : Prop :=
  held ++ ledger.started = ledger.awaited ++ sh.children

variable {ledger : Ledger} {held : List Nat} {sh : Shell}

theorem balances_empty (sh : Shell) : empty.Balances sh.children sh :=
  List.append_nil _

/-- What is started is held. -/
theorem Balances.retain (h : ledger.Balances held sh) (started : Started) :
    (ledger.enter (.ok started)).Balances held (sh.retain started) := by
  calc held ++ (ledger.started ++ started.children)
      = (held ++ ledger.started) ++ started.children := (List.append_assoc _ _ _).symm
    _ = (ledger.awaited ++ sh.children) ++ started.children := by rw [h]
    _ = ledger.awaited ++ (sh.children ++ started.children) := List.append_assoc _ _ _

/-- What is held is waited for, all of it, and then nothing is held. -/
theorem Balances.release (h : ledger.Balances held sh) :
    (ledger.settle sh.children).Balances held { sh with children := [], pipes := [] } :=
  h.trans (List.append_nil _).symm

end Ledger

/-- A host that keeps a ledger. -/
def Host.withLedger (host : Host World) : Host (World × Ledger) where
  files world := host.files world.1
  home world := host.home world.1
  engine := host.engine
  dynamic world := host.dynamic world.1
  advance which world := (host.advance which world.1, world.2)
  run sh command world :=
    let (answer, after) := host.run sh command world.1
    (answer, (after, world.2))
  start sh command world :=
    let (answer, after) := host.start sh command world.1
    (answer, (after, world.2.enter answer))
  close pipes world := (host.close pipes world.1, world.2)
  wait pid world :=
    let (reaped, after) := host.wait pid world.1
    (reaped, (after, world.2.settle [pid]))

/-- A session with a ledger beside its world. -/
def Session.withLedger (s : Session World) (ledger : Ledger) : Session (World × Ledger) :=
  ⟨s.shell, (s.world, ledger)⟩

/-- The second session is the first one with a ledger that balances. -/
def Audited (held : List Nat) (s : Session World) (t : Session (World × Ledger)) : Prop :=
  ∃ ledger, t = s.withLedger ledger ∧ ledger.Balances held s.shell

/-! ### Expanding and finishing with a ledger -/

section

variable (host : Host World) (held : List Nat)

theorem runCommand_audited (command : Text) :
    Run.Related (Audited held) (runCommand host command) (runCommand host.withLedger command) := by
  rintro s t ⟨ledger, rfl, balances⟩
  show (runCommand host command s).1 = (runCommand host.withLedger command (s.withLedger ledger)).1 ∧
    Audited held (runCommand host command s).2
      (runCommand host.withLedger command (s.withLedger ledger)).2
  unfold runCommand
  rcases ran : host.run s.shell command s.world with ⟨error | output, world⟩
  all_goals
    simp only [Host.withLedger, Session.withLedger, ran]
    exact ⟨trivial, ledger, rfl, balances⟩

/-- The processes that are started are entered, and held. -/
theorem startPaths_audited (command : Command) :
    Run.Related (Audited held) (startPaths host command) (startPaths host.withLedger command) := by
  rintro s t ⟨ledger, rfl, balances⟩
  show (startPaths host command s).1 = (startPaths host.withLedger command (s.withLedger ledger)).1 ∧
    Audited held (startPaths host command s).2
      (startPaths host.withLedger command (s.withLedger ledger)).2
  unfold startPaths
  split
  · rcases answer : host.start s.shell command s.world with ⟨error | started, world⟩
    all_goals simp only [Host.withLedger, Session.withLedger, answer]
    · exact ⟨trivial, ledger, rfl, balances⟩
    · exact ⟨trivial, ledger.enter (.ok started), rfl, balances.retain started⟩
  · exact ⟨rfl, ledger, rfl, balances⟩

theorem expandFields_audited (fields : List Field) :
    Run.Related (Audited held) (expandFields host fields) (expandFields host.withLedger fields) := by
  rintro s t ⟨ledger, rfl, balances⟩
  rw [exec_expandFields, exec_expandFields]
  exact ⟨rfl, ledger, rfl, balances⟩

/-- A host is simulated by the one with a ledger, for all commands. -/
theorem Host.simulates_withLedger :
    host.Simulates host.withLedger (fun _ => True) (Audited held) where
  agrees := by
    rintro s t ⟨ledger, rfl, -⟩
    exact ⟨rfl, rfl, rfl, rfl, rfl, rfl, rfl, rfl⟩
  home := by
    rintro s t ⟨ledger, rfl, -⟩
    rfl
  engine := rfl
  dynamic := by
    rintro s t ⟨ledger, rfl, -⟩
    rfl
  advance := by
    rintro s t which ⟨ledger, rfl, balances⟩
    exact ⟨ledger, rfl, balances⟩
  withVars := by
    rintro s t vars ⟨ledger, rfl, balances⟩
    exact ⟨ledger, rfl, balances⟩
  command _ _ := runCommand_audited host held _

/-- Waiting for processes enters them, whether or not they could be waited for. -/
theorem Session.waitAll_withLedger (pids : List Nat) (world : World) (ledger : Ledger) :
    waitAll host.withLedger pids (world, ledger) =
      ((waitAll host pids world).1, ((waitAll host pids world).2, ledger.settle pids)) := by
  induction pids generalizing world ledger with
  | nil => rw [waitAll, waitAll, Ledger.settle_nil]
  | cons pid pids ih =>
      have asked : host.withLedger.wait pid (world, ledger) =
          ((host.wait pid world).1, ((host.wait pid world).2, ledger.settle [pid])) := rfl
      simp only [waitAll, asked, ih, Ledger.settle_settle, List.singleton_append]

variable {host held}

/-- **Finishing a command settles all that the shell holds.** -/
theorem Audited.finish {s : Session World} {t : Session (World × Ledger)}
    (audited : Audited held s t) : Audited held (s.finish host).2 (t.finish host.withLedger).2 := by
  obtain ⟨ledger, rfl, balances⟩ := audited
  have waits := Session.waitAll_withLedger host s.shell.children (host.close s.shell.pipes s.world) ledger
  refine ⟨ledger.settle s.shell.children, ?_, balances.release⟩
  show Session.mk _ (Session.waitAll host.withLedger s.shell.children
    (host.close s.shell.pipes s.world, ledger)).2 = _
  rw [waits]
  rfl

/-- **Expanding a command keeps the balance**, also where it fails and the command is finished. -/
theorem Audited.expand {s : Session World} {t : Session (World × Ledger)}
    (audited : Audited held s t) (command : Command) :
    Audited held (s.expand host command).2 (t.expand host.withLedger command).2 := by
  obtain ⟨sameOutcome, after⟩ := expandArguments_related (host.simulates_withLedger held)
    (expandFields_audited host held) (startPaths_audited host held command)
    (fun _ _ _ _ _ _ => trivial) audited
  unfold Session.expand
  dsimp only
  rw [← sameOutcome]
  cases (expandArguments host command s).1.outcome with
  | ok args => exact after
  | error e => exact after.finish

end

/-! ### Sequences of requests -/

/-- What a session is asked to do. -/
inductive Request where
  | expand (command : Command)
  | finish

section

variable (host : Host World)

/-- The session after a request. -/
def Session.serve (s : Session World) : Request → Session World
  | .expand command => (s.expand host command).2
  | .finish => (s.finish host).2

/-- The session after requests, from left to right. -/
def Session.serveAll (s : Session World) (requests : List Request) : Session World :=
  requests.foldl (serve host) s

/-- The request ends the commands that were expanded before it: it finishes them, or it is an expansion that
fails. -/
def Request.Ends (s : Session World) : Request → Prop
  | .expand command => ∃ e, (s.expand host command).1.outcome = .error e
  | .finish => True

theorem Audited.serve {held : List Nat} {s : Session World} {t : Session (World × Ledger)}
    (audited : Audited held s t) (request : Request) :
    Audited held (s.serve host request) (t.serve host.withLedger request) := by
  cases request with
  | expand command => exact audited.expand command
  | finish => exact audited.finish

theorem Audited.serveAll {held : List Nat} {s : Session World} {t : Session (World × Ledger)}
    (audited : Audited held s t) (requests : List Request) :
    Audited held (s.serveAll host requests) (t.serveAll host.withLedger requests) := by
  induction requests generalizing s t with
  | nil => exact audited
  | cons request requests ih => exact ih (audited.serve host request)

variable {host}

/-- An expansion that fails is finished. -/
theorem Session.expand_of_error {command : Command} {s : Session World} {e : ExpandError}
    (failed : (s.expand host command).1.outcome = .error e) :
    (s.expand host command).2 = ((expandArguments host command s).2.finish host).2 := by
  unfold Session.expand at failed ⊢
  dsimp only at failed ⊢
  split at failed
  · next succeeded =>
    rw [succeeded] at failed
    cases failed
  · rfl

theorem Session.serve_of_ends {s : Session World} {request : Request} (ends : request.Ends host s) :
    ∃ t : Session World, s.serve host request = (t.finish host).2 := by
  cases request with
  | expand command =>
      obtain ⟨e, failed⟩ := ends
      exact ⟨_, Session.expand_of_error failed⟩
  | finish => exact ⟨s, rfl⟩

variable (host)

/-- **No process is lost, and none is waited for twice.**  Let a host keep a ledger, and ask a session to
expand and to finish commands, in any order.  The session is that of the host without a ledger; at every
point the processes it held at first and those that were started since, in order, are those that were waited
for, followed by those that it holds; and it holds no process and no descriptor after a request that
finishes the commands before it, or fails to expand one. -/
theorem children_balance (s : Session World) (requests : List Request) :
    ∃ ledger : Ledger,
      (s.withLedger .empty).serveAll host.withLedger requests =
        (s.serveAll host requests).withLedger ledger ∧
      s.shell.children ++ ledger.started =
        ledger.awaited ++ (s.serveAll host requests).shell.children ∧
      ∀ request : Request, request.Ends host (s.serveAll host requests) →
        ((s.serveAll host requests).serve host request).shell.children = [] ∧
          ((s.serveAll host requests).serve host request).shell.pipes = [] := by
  have fresh : Audited s.shell.children s (s.withLedger .empty) :=
    ⟨.empty, rfl, Ledger.balances_empty s.shell⟩
  obtain ⟨ledger, same, balances⟩ := fresh.serveAll host requests
  refine ⟨ledger, same, balances, fun request ends => ?_⟩
  obtain ⟨t, finished⟩ := Session.serve_of_ends ends
  rw [finished]
  exact ⟨rfl, rfl⟩

end

/-! ### The command that is left -/

/-- Putting paths in changes the words, unless there is no path or no substitution. -/
theorem replaceSubstitutions_eq_self_iff {paths : List Text} {words : List Word} :
    replaceSubstitutions paths words = words ↔
      paths = [] ∨ ∀ word ∈ words, word.substitution? = none := by
  fun_induction replaceSubstitutions paths words with
  | case1 => simp
  | case2 words => simp
  | case3 path paths word words substitution found ih =>
      -- what is put in is no substitution, so it is not the word that was there
      refine iff_of_false (fun same => ?_) ?_
      · rw [← (List.cons.inj same).1] at found
        cases found
      · rintro (noPath | noSubstitution)
        · cases noPath
        · rw [noSubstitution word List.mem_cons_self] at found
          cases found
  | case4 path paths word words other ih => simp [ih, other]

/-- **Failing does not bring a command back.**  Whether or not its expansion succeeds, a command is left as it
was exactly if none of its substitutions was given a path: it has none, or they could not be started, or
there was no path for any of them. -/
theorem command_expand_eq_iff (host : Host World) (command : Command) (s : Session World) :
    (s.expand host command).1.command = command ↔
      (command.hasSubstitution = true → ∀ started : Started,
        (host.start s.shell command s.world).1 = .ok started → started.paths = []) := by
  have left : (s.expand host command).1.command = command.left (startPaths host command s).1 := by
    unfold Session.expand
    dsimp only
    rw [expandArguments_eq]
    split <;> rfl
  rw [left, startPaths]
  cases has : command.hasSubstitution with
  | false => simp [Command.left, replaceSubstitutions_nil]
  | true =>
      obtain ⟨word, mem, isSubstitution⟩ := List.any_eq_true.1 has
      have present : ¬ ∀ word ∈ command.words, word.substitution? = none := by
        intro noSubstitution
        rw [noSubstitution word mem] at isSubstitution
        cases isSubstitution
      rcases host.start s.shell command s.world with ⟨error | started, world⟩
      · simp [Command.left]
      · have same : command.left (.ok started.paths) = command ↔
            replaceSubstitutions started.paths command.words = command.words :=
          ⟨fun same => congrArg Command.words same, congrArg Command.mk⟩
        have replaced : replaceSubstitutions started.paths command.words = command.words ↔
            started.paths = [] := replaceSubstitutions_eq_self_iff.trans (or_iff_left present)
        show command.left (.ok started.paths) = command ↔ _
        rw [same, replaced]
        simp

/-- `<(a) $x` where unset parameters are errors: the expansion fails, and a path is left in the place of the
first word. -/
example :
    (Session.expand { Host.idle with start := fun _ _ world => (.ok ⟨[['p']], [1], [3]⟩, world) }
      ⟨[.ofText ['<', '(', 'a', ')'], .mk [.expansion (.variable ['x']) none] none]⟩
      (Session.blank.onShell ({ · with options := { nounset := true } }))).1 =
    ⟨.error (.unbound ['x']),
      ⟨[.singleQuoted ['p'], .mk [.expansion (.variable ['x']) none] none]⟩⟩ := by
  rfl

end ShellWord
