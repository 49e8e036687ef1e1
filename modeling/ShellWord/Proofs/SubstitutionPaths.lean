import ShellWord.Proofs.Substitutions

/-!
# Paths in the place of process substitutions

A host that starts the process substitutions of a command answers with a list of paths, and which path belongs to
which word is known from the order alone.  `Paired` says what should come of it: a substitution with so many others in
front of it (`turn`) becomes the path with that number, and every other word stays as it is.

`substitutions_become_paths` says that this is what happens, and that a path that was put in is nothing but text from
then on.  The argument that a word contributes is read off `contributions`, which keeps the arguments of different
words apart (`exec_expandWords`).

### What is load-bearing

The path stands in single quotes, and such a word is expanded without a look at the session or at the host
(`expandWord_singleQuoted`).  So the same paths come out wherever and however often the command is expanded again.
That the host is not asked to start anything then follows from the words that are left, none of which is a
substitution: a host with any other way of starting them does the same (`expandWords_withStart`).
-/

namespace ShellWord

/-! ### Pairing words with paths -/

/-- The number of process substitutions among words. -/
def substitutionCount (words : List Word) : Nat :=
  words.countP (·.substitution?.isSome)

/-- The number of process substitutions in front of a position. -/
def turn (words : List Word) (i : Nat) : Nat :=
  substitutionCount (words.take i)

section

variable {word : Word} {words : List Word} {substitution : Substitution}

theorem substitutionCount_cons_of_some (found : word.substitution? = some substitution) :
    substitutionCount (word :: words) = substitutionCount words + 1 :=
  List.countP_cons_of_pos (by rw [found]; rfl)

theorem substitutionCount_cons_of_none (other : word.substitution? = none) :
    substitutionCount (word :: words) = substitutionCount words :=
  List.countP_cons_of_neg (by rw [other]; exact Bool.false_ne_true)

theorem turn_succ_of_some (found : word.substitution? = some substitution) (i : Nat) :
    turn (word :: words) (i + 1) = turn words i + 1 :=
  substitutionCount_cons_of_some found

theorem turn_succ_of_none (other : word.substitution? = none) (i : Nat) :
    turn (word :: words) (i + 1) = turn words i :=
  substitutionCount_cons_of_none other

end

/-- Every process substitution has its path, and what is made of the path and of the text behind the substitution is
in its place. -/
def Carries {α : Type} (form : Text → α) (paths : List Text) (words : List Word) (after : List α) : Prop :=
  ∀ (i : Nat) (word : Word) substitution, words[i]? = some word → word.substitution? = some substitution →
    ∃ path, paths[turn words i]? = some path ∧ after[i]? = some (form (path ++ substitution.suffix))

/-- The words `after` are the words `before` with the process substitutions replaced by paths, in order. -/
structure Paired (paths : List Text) (before after : List Word) : Prop where
  length_eq : after.length = before.length
  replaced : Carries Word.singleQuoted paths before after
  kept : ∀ (i : Nat) (word : Word), before[i]? = some word → word.substitution? = none → after[i]? = some word

namespace Paired

variable {path : Text} {paths : List Text} {word : Word} {before after : List Word}

theorem nil : Paired paths [] [] where
  length_eq := rfl
  replaced i word substitution at_i := by cases at_i
  kept i word at_i := by cases at_i

/-- A substitution takes the first path. -/
theorem cons_of_some {substitution : Substitution} (found : word.substitution? = some substitution)
    (h : Paired paths before after) :
    Paired (path :: paths) (word :: before) (.singleQuoted (path ++ substitution.suffix) :: after) where
  length_eq := congrArg Nat.succ h.length_eq
  replaced i other substitution' at_i found' := by
    cases i with
    | zero =>
        obtain rfl : word = other := by simpa using at_i
        obtain rfl : substitution = substitution' := Option.some.inj (found.symm.trans found')
        exact ⟨path, rfl, rfl⟩
    | succ i =>
        rw [turn_succ_of_some found]
        exact h.replaced i other substitution' at_i found'
  kept i other at_i noSubstitution := by
    cases i with
    | zero =>
        obtain rfl : word = other := by simpa using at_i
        rw [found] at noSubstitution
        cases noSubstitution
    | succ i => exact h.kept i other at_i noSubstitution

/-- Any other word takes none. -/
theorem cons_of_none (other : word.substitution? = none) (h : Paired paths before after) :
    Paired paths (word :: before) (word :: after) where
  length_eq := congrArg Nat.succ h.length_eq
  replaced i word' substitution at_i found := by
    cases i with
    | zero =>
        obtain rfl : word = word' := by simpa using at_i
        rw [other] at found
        cases found
    | succ i =>
        rw [turn_succ_of_none other]
        exact h.replaced i word' substitution at_i found
  kept i word' at_i noSubstitution := by
    cases i with
    | zero => exact at_i
    | succ i => exact h.kept i word' at_i noSubstitution

end Paired

/-- **Words and paths are paired in order**, if there are enough paths. -/
theorem paired_replaceSubstitutions {paths : List Text} {words : List Word}
    (enough : substitutionCount words ≤ paths.length) :
    Paired paths words (replaceSubstitutions paths words) := by
  induction words generalizing paths with
  | nil =>
      rw [show replaceSubstitutions paths [] = [] by cases paths <;> rfl]
      exact .nil
  | cons word words ih =>
      cases found : word.substitution? with
      | none =>
          rw [substitutionCount_cons_of_none found] at enough
          have step : replaceSubstitutions paths (word :: words) = word :: replaceSubstitutions paths words := by
            cases paths with
            | nil => rw [replaceSubstitutions_nil, replaceSubstitutions_nil]
            | cons path paths => simp only [replaceSubstitutions, found]
          rw [step]
          exact (ih enough).cons_of_none found
      | some substitution =>
          rw [substitutionCount_cons_of_some found] at enough
          cases paths with
          | nil => cases enough
          | cons path paths =>
              simp only [replaceSubstitutions, found]
              exact (ih (Nat.le_of_succ_le_succ enough)).cons_of_some found

/-- Among paired words no substitution is left. -/
theorem Paired.hasSubstitution_eq_false {paths : List Text} {before : List Word} {left : Command}
    (paired : Paired paths before left.words) : left.hasSubstitution = false := by
  rw [Command.hasSubstitution, List.any_eq_false]
  intro word mem
  obtain ⟨i, at_i⟩ := List.mem_iff_getElem?.1 mem
  have inside : i < before.length := by
    rw [← paired.length_eq]
    exact (List.getElem?_eq_some_iff.1 at_i).1
  have before_i : before[i]? = some before[i] := List.getElem?_eq_getElem inside
  cases found : before[i].substitution? with
  | none =>
      obtain rfl : before[i] = word := Option.some.inj ((paired.kept i _ before_i found).symm.trans at_i)
      simp [found]
  | some substitution =>
      obtain ⟨path, -, replaced⟩ := paired.replaced i _ _ before_i found
      obtain rfl := Option.some.inj (replaced.symm.trans at_i)
      simp [Word.singleQuoted, Word.substitution?]

/-! ### What each word contributes -/

variable {World : Type} (host : Host World)

/-- The arguments of words, from left to right and word by word. -/
def contributions : List Word → Expand World (List (List Text))
  | [] => return []
  | word :: words => do
    let first ← expandWord host word
    let rest ← contributions words
    return first :: rest

/-- The arguments of words are those that the words contribute, one after the other. -/
theorem exec_expandWords (words : List Word) (s : Session World) :
    (expandWords host words).exec s =
      (((contributions host words).exec s).1.map List.flatten, ((contributions host words).exec s).2) := by
  induction words generalizing s with
  | nil => rfl
  | cons word words ih =>
      rw [expandWords, contributions, Run.exec_bind, Run.exec_bind]
      rcases (expandWord host word).exec s with ⟨error | first, s'⟩
      · rfl
      · dsimp only
        rw [Run.exec_bind, Run.exec_bind, ih]
        rcases (contributions host words).exec s' with ⟨error | rest, s''⟩ <;> rfl

theorem expandWord_singleQuoted (text : Text) :
    expandWord host (.singleQuoted text) = pure [text] := by
  have source : (Word.singleQuoted text).source = text := List.append_nil text
  rw [expandWord, source]
  rfl

/-- A word that is expanded to the same arguments in every session contributes them. -/
theorem getElem?_contributions {words : List Word} {s s' : Session World} {lists : List (List Text)}
    (ran : (contributions host words).exec s = (.ok lists, s')) {i : Nat} {word : Word}
    (at_i : words[i]? = some word) {args : List Text} (fixed : expandWord host word = pure args) :
    lists[i]? = some args := by
  induction words generalizing s s' lists i with
  | nil => cases at_i
  | cons first words ih =>
      rw [contributions, Run.exec_bind_eq_ok_iff] at ran
      obtain ⟨own, t, expanded, rest⟩ := ran
      rw [Run.exec_bind_eq_ok_iff] at rest
      obtain ⟨others, u, ran, done⟩ := rest
      obtain rfl : own :: others = lists := Except.ok.inj (congrArg Prod.fst done)
      cases i with
      | zero =>
          obtain rfl : first = word := by simpa using at_i
          rw [fixed, Run.exec_pure] at expanded
          obtain rfl : args = own := by simpa using congrArg Prod.fst expanded
          rfl
      | succ i => exact ih ran at_i

/-- Where paths were put in, each word contributes its path and what was behind the substitution. -/
theorem Paired.carries_contributions {paths : List Text} {before after : List Word}
    (paired : Paired paths before after) {s s' : Session World} {lists : List (List Text)}
    (ran : (contributions host after).exec s = (.ok lists, s')) :
    Carries (fun argument => [argument]) paths before lists := by
  intro i word substitution at_i found
  obtain ⟨path, at_turn, replaced⟩ := paired.replaced i word substitution at_i found
  exact ⟨path, at_turn, getElem?_contributions host ran replaced (expandWord_singleQuoted host _)⟩

/-! ### Commands without substitutions -/

/-- A command without substitutions has its words expanded, and stays as it is. -/
theorem expandArguments_of_not_hasSubstitution {command : Command}
    (noSubstitution : command.hasSubstitution = false) (s : Session World) :
    expandArguments host command s =
      (⟨((expandWords host command.words).exec s).1, command⟩, ((expandWords host command.words).exec s).2) := by
  rw [expandArguments, prepare, if_neg (ne_true_of_eq_false noSubstitution), Run.exec_pure]

/-- How a host starts substitutions is not noticed in words. -/
theorem expandWords_withStart (start : Shell → Command → World → Except ExpandError Started × World)
    (words : List Word) :
    expandWords { host with start := start } words = expandWords host words := by
  have sim : Host.Simulates { host with start := start } host (fun _ => True) Eq :=
    Host.simulates_of_eq rfl rfl rfl rfl rfl
  have onFields (fields : List Field) :
      Run.Related Eq (expandFields { host with start := start } fields) (expandFields host fields) := by
    rintro s t rfl
    rw [exec_expandFields, exec_expandFields]
    exact ⟨rfl, rfl⟩
  exact (expandWords_related sim onFields words fun _ _ _ _ _ _ => trivial).eq

/-- If the host starts the substitutions of a command, then the command is prepared with the paths put in, also where
it had no substitution to start. -/
theorem exec_prepare_of_start {command : Command} {s : Session World} {started : Started} {world : World}
    (answer : host.start s.shell command s.world = (.ok started, world)) :
    ((prepare host command).exec s).1 = .ok ⟨replaceSubstitutions started.paths command.words⟩ := by
  rw [exec_prepare]
  change (startPaths host command s).1.map _ = _
  rw [startPaths]
  split
  · rw [answer]
    rfl
  · next noSubstitution =>
    have kept : ∀ word ∈ command.words, word.substitution? = none := by
      simpa [Command.hasSubstitution] using noSubstitution
    rw [replaceSubstitutions_eq_self_iff.2 (.inr kept)]
    simp [Except.map, replaceSubstitutions_nil]

/-! ### The result -/

/-- **Process substitutions become paths, in order, and then they are text.**  Let the host start the substitutions of
a command, and answer with a path for each of them at least.  Then the command that is left has the paths in place of
the substitutions, each with the text that was behind its own, and its other words as they were; its arguments are
what its words contribute.  Expanding that command once more, in whichever session and for whichever host, leaves it
alone and starts nothing, and every word that was a substitution contributes one argument, its path and the text
behind it.  If the host cannot start the substitutions, then the command and the shell are as they were. -/
theorem substitutions_become_paths (command : Command) (s : Session World) :
    (∀ started world, host.start s.shell command s.world = (.ok started, world) →
      substitutionCount command.words ≤ started.paths.length →
      ∃ left : Command, (expandArguments host command s).1.command = left ∧
        Paired started.paths command.words left.words ∧ left.hasSubstitution = false ∧
        (expandArguments host command s).1.outcome =
          ((contributions host left.words).exec ((prepare host command).exec s).2).1.map List.flatten ∧
        ∀ {World' : Type} (host' : Host World') (t : Session World'),
          expandArguments host' left t =
            (⟨((contributions host' left.words).exec t).1.map List.flatten, left⟩,
              ((contributions host' left.words).exec t).2) ∧
          (∀ lists, ((contributions host' left.words).exec t).1 = .ok lists →
            Carries (fun argument => [argument]) started.paths command.words lists) ∧
          ∀ start, expandArguments { host' with start := start } left t = expandArguments host' left t) ∧
    ∀ error world, command.hasSubstitution = true → host.start s.shell command s.world = (.error error, world) →
      expandArguments host command s = (⟨.error error, command⟩, { s with world := world }) := by
  refine ⟨fun started world answer enough => ?_, fun error world has answer => ?_⟩
  · obtain ⟨left, prepared, paired⟩ : ∃ left : Command, ((prepare host command).exec s).1 = .ok left ∧
        Paired started.paths command.words left.words :=
      ⟨_, exec_prepare_of_start host answer, paired_replaceSubstitutions enough⟩
    have noneLeft := paired.hasSubstitution_eq_false
    obtain ⟨s', ran⟩ : ∃ s', (prepare host command).exec s = (.ok left, s') := ⟨_, Prod.ext prepared rfl⟩
    refine ⟨left, ?_, paired, noneLeft, ?_, fun host' t => ⟨?_, fun lists ran => ?_, fun start => ?_⟩⟩
    · rw [expandArguments, ran]
    · rw [expandArguments, ran]
      exact congrArg Prod.fst (exec_expandWords host left.words s')
    · rw [expandArguments_of_not_hasSubstitution host' noneLeft, exec_expandWords]
    · exact paired.carries_contributions host' (Prod.ext ran rfl)
    · rw [expandArguments_of_not_hasSubstitution _ noneLeft, expandArguments_of_not_hasSubstitution _ noneLeft,
        expandWords_withStart]
  · rw [expandArguments, prepare, if_pos has]
    change (match startSubstitutions host command s with | (.ok _, _) => _ | (.error _, _) => _) = _
    rw [startSubstitutions, answer]

/-- A host that gives the same answer whenever it is to start process substitutions. -/
def Host.answering (answer : Except ExpandError Started) : Host Unit :=
  { Host.idle with start := fun _ _ world => (answer, world) }

/-- `<(a)b "<(c)" >(d) <(e`: the first word and the third are process substitutions. -/
def Command.twoSubstitutions : Command :=
  ⟨[.ofText ['<', '(', 'a', ')', 'b'], .mk [.literal ['<', '(', 'c', ')'] (some .double)] (some .double),
    .mk [.expansion (.process .output ['d']) none] none, .ofText ['<', '(', 'e']]⟩

/-- Three paths for two substitutions, and a host that cannot start them. -/
theorem twoSubstitutions_become_paths :
    (substitutionCount Command.twoSubstitutions.words ≤ [['p'], ['q'], ['r']].length ∧
      ∃ left : Command,
        (expandArguments (.answering (.ok ⟨[['p'], ['q'], ['r']], [], []⟩)) .twoSubstitutions .blank).1.command = left ∧
        Paired [['p'], ['q'], ['r']] Command.twoSubstitutions.words left.words ∧ left.hasSubstitution = false ∧
        ∀ answer, expandArguments (.answering answer) left .blank = expandArguments .idle left .blank) ∧
    Command.twoSubstitutions.hasSubstitution = true ∧
      expandArguments (.answering (.error (.process ['n', 'o']))) .twoSubstitutions .blank =
        (⟨.error (.process ['n', 'o']), .twoSubstitutions⟩, .blank) := by
  have enough : substitutionCount Command.twoSubstitutions.words ≤ [['p'], ['q'], ['r']].length := by decide
  have has : Command.twoSubstitutions.hasSubstitution = true := by decide
  obtain ⟨left, command_eq, paired, noneLeft, -, again⟩ :=
    (substitutions_become_paths (.answering (.ok ⟨[['p'], ['q'], ['r']], [], []⟩)) .twoSubstitutions .blank).1
      _ _ rfl enough
  exact ⟨⟨enough, left, command_eq, paired, noneLeft, fun _ => (again .idle .blank).2.2 _⟩, has,
    (substitutions_become_paths _ _ _).2 _ _ has rfl⟩

end ShellWord
