import ShellWord.Proofs.Named
import ShellWord.Proofs.Run

/-!
# Couplings

Expanding a command goes down through words, parts, expansions, operators, operands and arithmetic text,
and does very few things on the way: it reads the session, runs commands, sets variables, and fails.
A `Host.Coupling` is a relation between computations that these few things respect.  The recursion is
done here, once: `Coupling.rel_evaluate`, `Coupling.rel_expandWords` and `Coupling.rel_arguments` say
that such a relation holds of everything that is built from them.

The relation compares computations over two hosts.  That the two sides end alike is the obvious one;
a property of single computations is another, which ignores its second side.

### What is load-bearing

A coupling only speaks about the commands in `Allowed` and about the parameters in `Named`.  A word has
to stay within both, which is `Coupling.Admits` for each of its expansions, and reads the word and nothing
else.

An expansion that is not well formed never reaches the relation as a failure: it is replaced by its
source on the spot (`evaluate_of_not_wellFormed`).  So a coupling only has to respect hard errors, and
"fails with hard errors only" is itself a coupling.
-/

namespace ShellWord

/-- Two shells look alike to everything before pathname expansion, special parameters apart. -/
structure Shell.Alike (a b : Shell) : Prop where
  vars : a.vars = b.vars
  positional : a.positional = b.positional
  name : a.name = b.name
  extglob : a.globbing.extglob = b.globbing.extglob

namespace Shell.Alike

variable {a b : Shell}

theorem ifs (h : a.Alike b) : a.ifs = b.ifs := by
  rw [Shell.ifs, Shell.ifs, h.vars]

theorem separator (h : a.Alike b) : a.separator = b.separator := by
  rw [Shell.separator, Shell.separator, h.ifs]

end Shell.Alike

/-- A relation between the computations of two hosts that is respected by all that expansion does. -/
structure Host.Coupling {World World' : Type} (host : Host World) (host' : Host World') where
  /-- the sessions that are compared -/
  Near : Session World → Session World' → Prop
  /-- the computations that are compared -/
  Rel : {α : Type} → Expand World α → Expand World' α → Prop
  /-- the commands that may be run -/
  Allowed : Text → Prop
  /-- the parameters that may be read -/
  Named : Text → Prop
  pure : ∀ {α : Type} (a : α), Rel (Pure.pure a) (Pure.pure a)
  bind : ∀ {α β : Type} {x : Expand World α} {y : Expand World' α} {f : α → Expand World β}
    {g : α → Expand World' β}, Rel x y → (∀ a, Rel (f a) (g a)) → Rel (x >>= f) (y >>= g)
  get_bind : ∀ {β : Type} {f : Session World → Expand World β} {g : Session World' → Expand World' β},
    (∀ s t, Near s t → Rel (f s) (g t)) → Rel (get >>= f) (get >>= g)
  throw : ∀ {α : Type} {e : ExpandError}, e.isSoft = false →
    Rel (throw e : Expand World α) (throw e : Expand World' α)
  orSource : ∀ (expansion : Expansion) {x : Expand World Text} {y : Expand World' Text}, Rel x y →
    Rel (orSource expansion x) (orSource expansion y)
  alike : ∀ {s t}, Near s t → s.shell.Alike t.shell
  home : ∀ {s t}, Near s t → host.home s.world = host'.home t.world
  engine : ∀ {s t}, Near s t → host.engine = host'.engine
  read : ∀ {name}, Named name →
    Rel (readParameter host name : Expand World (Option Text))
      (readParameter host' name : Expand World' (Option Text))
  require : ∀ {name}, Named name → Rel (requireValue host name) (requireValue host' name)
  define : ∀ {name}, Text.isName name = true → ∀ value,
    Rel (modify (Session.onShell (Shell.define name value)) : Expand World PUnit)
      (modify (Session.onShell (Shell.define name value)) : Expand World' PUnit)
  integer : ∀ source text,
    Rel (Run.within id (fun s _ => s) (ExpandError.arithmetic source) (integer host text))
      (Run.within id (fun s _ => s) (ExpandError.arithmetic source) (integer host' text))
  command : ∀ {command}, Allowed command →
    Rel (runCommand host command) (runCommand host' command)

/-! ### Steps that all couplings share -/

/-- An expansion that is not well formed fails, with any host, before anything else happens. -/
theorem tryEvaluate_of_not_wellFormed :
    ∀ {expansion : Expansion}, expansion.isWellFormed = false →
      ∃ text, ∀ {World : Type} (host : Host World),
        tryEvaluate host expansion = throw (.badSubstitution text)
  | .variable name, unknown => by
      refine ⟨braced name, fun host => ?_⟩
      rw [Expansion.isWellFormed] at unknown
      rw [tryEvaluate, expandVariable, unknown]
      rfl
  | .parameter name none word, unknown => by
      refine ⟨Expansion.source (.parameter name none word), fun host => ?_⟩
      rw [Expansion.isWellFormed] at unknown
      rw [tryEvaluate, unknown]
      rfl
  | .parameter name (some operator) word, unknown => by
      refine ⟨Expansion.source (.parameter name (some operator) word), fun host => ?_⟩
      rw [Expansion.isWellFormed] at unknown
      rw [tryEvaluate, unknown]
      rfl
  | .process flow command, _ => by
      refine ⟨Expansion.source (.process flow command), fun host => ?_⟩
      rw [tryEvaluate]

/-- An expansion that is not well formed stands for its source, and nothing happens. -/
theorem evaluate_of_not_wellFormed {World : Type} (host : Host World) {expansion : Expansion}
    (h : expansion.isWellFormed = false) : evaluate host expansion = pure expansion.source := by
  obtain ⟨text, fails⟩ := tryEvaluate_of_not_wellFormed h
  rw [evaluate, fails]
  rfl

/-! ### Commands as computations

`expandArguments` gives the arguments of a command and the command as it is left.  The arguments are the
value of one computation (`arguments`), and the command is left as the first step of that computation
says (`expandArguments_eq`). -/

section

variable {World : Type} (host : Host World)

/-- Start the process substitutions of a command, if it has any, and give their paths. -/
def startPaths (command : Command) : Expand World (List Text) := fun s =>
  if command.hasSubstitution then
    match host.start s.shell command s.world with
    | (.ok started, world) =>
      (.ok started.paths, { shell := s.shell.retain started, world := world })
    | (.error error, world) => (.error error, { s with world := world })
  else (.ok [], s)

/-- The arguments of a command. -/
def arguments (command : Command) : Expand World (List Text) := do
  let paths ← startPaths host command
  expandWords host (replaceSubstitutions paths command.words)

/-- The command that is left once its process substitutions were started, or could not be. -/
def Command.left (command : Command) : Except ExpandError (List Text) → Command
  | .ok paths => ⟨replaceSubstitutions paths command.words⟩
  | .error _ => command

theorem replaceSubstitutions_nil (words : List Word) : replaceSubstitutions [] words = words := by
  cases words <;> rfl

/-- What is prepared is the command with the paths put in. -/
theorem exec_prepare (command : Command) (s : Session World) :
    (prepare host command).exec s =
      (((startPaths host command).exec s).1.map fun paths =>
          ⟨replaceSubstitutions paths command.words⟩,
        ((startPaths host command).exec s).2) := by
  change prepare host command s = ((startPaths host command s).1.map _, (startPaths host command s).2)
  unfold prepare startPaths
  split
  · unfold startSubstitutions
    rcases host.start s.shell command s.world with ⟨error | started, world⟩ <;> rfl
  · simp only [Except.map, replaceSubstitutions_nil]
    rfl

/-- **Expanding a command is one computation.**  Its outcome and the session after it are those of
`arguments`. -/
theorem expandArguments_eq (command : Command) (s : Session World) :
    expandArguments host command s =
      (⟨((arguments host command).exec s).1, command.left ((startPaths host command).exec s).1⟩,
        ((arguments host command).exec s).2) := by
  unfold expandArguments arguments
  rw [exec_prepare, Run.exec_bind]
  rcases (startPaths host command).exec s with ⟨error | paths, s'⟩ <;> rfl

end

namespace Host.Coupling

variable {World World' : Type} {host : Host World} {host' : Host World'} (c : host.Coupling host')

/-- An expansion stays within what a coupling speaks about. -/
def Admits (node : Expansion) : Prop :=
  (∀ command, node.Writes command → c.Allowed command) ∧ ∀ name, node.Names name → c.Named name

/-! ### Parameters -/

theorem rel_given? {name : Text} (named : c.Named name) (colon : Bool) :
    c.Rel (given? host name colon) (given? host' name colon) := by
  exact c.bind (c.read named) fun _ => c.pure _

/-- Reading parameters one after the other. -/
theorem rel_mapM_readParameter {names : List Text} (named : ∀ name ∈ names, c.Named name) :
    c.Rel (names.mapM (readParameter host) : Expand World (List (Option Text)))
      (names.mapM (readParameter host') : Expand World' (List (Option Text))) := by
  induction names with
  | nil => exact c.pure _
  | cons name names ih =>
      rw [List.forall_mem_cons] at named
      rw [List.mapM_cons, List.mapM_cons]
      exact c.bind (c.read named.1) fun _ => c.bind (ih named.2) fun _ => c.pure _

theorem rel_expandVariable {name : Text} (known : isParameter name = true) (named : c.Named name) :
    c.Rel (expandVariable host name) (expandVariable host' name) := by
  rw [expandVariable, expandVariable, if_pos known, if_pos known]
  exact c.require named

theorem rel_expandLength {name : Text} (named : c.Named name) :
    c.Rel (expandLength host name) (expandLength host' name) := by
  unfold expandLength
  split
  · refine c.get_bind fun s t near => ?_
    rw [(c.alike near).positional]
    exact c.pure _
  · exact c.bind (c.require named) fun _ => c.pure _

/-! ### Arithmetic

The substitutions of arithmetic text are replaced after its parameters; that they still stand in the
text as it was written, whatever was read, is `Dollar.source_infix_of_mem_pieces_fill`. -/

/-- Assembling pieces is related if it is so for every span among them. -/
theorem rel_assemble {onSpan : Span → Expand World Text} {onSpan' : Span → Expand World' Text}
    {pieces : List Span.Piece}
    (h : ∀ span, .span span ∈ pieces → c.Rel (onSpan span) (onSpan' span)) :
    c.Rel (Span.assemble onSpan pieces) (Span.assemble onSpan' pieces) := by
  induction pieces with
  | nil => exact c.pure _
  | cons piece pieces ih =>
      have rest := ih fun span mem => h span (List.mem_cons_of_mem _ mem)
      cases piece with
      | char ch => exact c.bind rest fun _ => c.pure _
      | span s => exact c.bind (h s List.mem_cons_self) fun _ => c.bind rest fun _ => c.pure _

theorem rel_arithmeticAt (depth : Nat) {text : Text}
    (allowed : ∀ command, '$' :: '(' :: (command ++ [')']) <:+: text → c.Allowed command)
    (named : ∀ name, Dollar.Names text name → c.Named name) :
    c.Rel (arithmeticAt host depth text) (arithmeticAt host' depth text) := by
  induction depth generalizing text with
  | zero => exact c.pure _
  | succ depth ih =>
      have read := c.rel_mapM_readParameter fun name mem => named name (Dollar.names_of_mem_parameters mem)
      refine c.bind read fun values => c.bind (c.rel_assemble fun span mem => ?_) fun plain =>
        c.integer text plain
      have written := Dollar.source_infix_of_mem_pieces_fill _ _ mem
      cases span with
      | arithmetic body =>
          -- the body stands between `$((` and `))` in the text, and so does all that it writes and names
          have inner : body <:+: text := List.IsInfix.trans ⟨['$', '(', '('], [')', ')'], rfl⟩ written
          exact c.bind (ih (fun command stands => allowed command (stands.trans inner))
            fun name inBody => named name (inBody.mono inner)) fun _ => c.pure _
      | command body => exact c.bind (c.command (allowed body written)) fun _ => c.pure _

theorem rel_arithmetic {node : Expansion} (admits : c.Admits node) {text : Text}
    (mem : text ∈ node.arithmeticTexts) : c.Rel (arithmetic host text) (arithmetic host' text) :=
  c.rel_arithmeticAt _ (fun command written => admits.1 command (.inr ⟨text, mem, written⟩))
    fun name named => admits.2 name (.inr ⟨text, mem, named⟩)

/-! ### Slices -/

section Slices

variable {name offset : Text} {length : Option Text} {word : Option Word}

theorem rel_arithmeticOption
    (admits : c.Admits (.parameter name (some (.substring offset length)) word)) :
    c.Rel (arithmeticOption host length) (arithmeticOption host' length) := by
  cases length with
  | none => exact c.pure _
  | some text =>
      refine c.bind (c.rel_arithmetic admits ?_) fun _ => c.pure _
      simp [Expansion.arithmeticTexts]

theorem rel_slicePositional
    (admits : c.Admits (.parameter name (some (.substring offset length)) word)) :
    c.Rel (slicePositional host offset length) (slicePositional host' offset length) := by
  refine c.bind (c.rel_arithmetic admits List.mem_cons_self) fun start => ?_
  refine c.bind (c.rel_arithmeticOption admits) fun count => ?_
  refine c.get_bind fun s t near => ?_
  rw [(c.alike near).name, (c.alike near).positional]
  split
  · exact c.pure _
  · exact c.throw rfl

theorem rel_expandSubstring
    (admits : c.Admits (.parameter name (some (.substring offset length)) word)) :
    c.Rel (expandSubstring host name offset length) (expandSubstring host' name offset length) := by
  unfold expandSubstring
  split
  · next list _ =>
    refine c.bind (c.rel_slicePositional admits) fun params => ?_
    refine c.get_bind fun s t near => ?_
    have separators : list.separator s.shell = list.separator t.shell := by
      rcases list with _ | _
      · rfl
      · exact (c.alike near).separator
    rw [separators]
    exact c.pure _
  · refine c.bind (c.require (admits.2 name (.inl rfl))) fun value => ?_
    refine c.bind (c.rel_arithmetic admits List.mem_cons_self) fun start => ?_
    refine c.bind (c.rel_arithmeticOption admits) fun count => ?_
    split
    · exact c.pure _
    · exact c.throw rfl

theorem rel_positionalSlice? {expansion : Expansion} (admits : c.Admits expansion) :
    c.Rel (positionalSlice? host expansion) (positionalSlice? host' expansion) := by
  unfold positionalSlice?
  split
  · split
    · exact c.bind (c.rel_slicePositional admits) fun _ => c.pure _
    · exact c.pure _
  · exact c.pure _

end Slices

/-! ### Operands -/

theorem rel_text {operand : Operand World} {operand' : Operand World'} (h : c.Rel operand operand') :
    c.Rel operand.text operand'.text :=
  c.bind h fun _ => c.pure _

theorem rel_pattern? {operand : Operand World} {operand' : Operand World'}
    (h : c.Rel operand operand') : c.Rel (operand.pattern? host) (operand'.pattern? host') := by
  refine c.bind h fun found => ?_
  cases found with
  | none => exact c.pure _
  | some literal =>
      dsimp only
      split
      · exact c.pure _
      · refine c.get_bind fun s t near => ?_
        rw [(c.alike near).extglob, c.engine near]
        exact c.pure _

theorem tildePrefix?_eq {s : Session World} {t : Session World'} (near : c.Near s t) :
    s.tildePrefix? host = t.tildePrefix? host' := by
  have directories : s.tildeDirectory? host = t.tildeDirectory? host' := by
    funext name
    unfold Session.tildeDirectory?
    rw [(c.alike near).vars, c.home near]
  funext text continues
  unfold Session.tildePrefix?
  rw [directories]

/-- A parameter that is not special is a variable. -/
theorem isName_of_isParameter {name : Text} (known : isParameter name = true)
    (ordinary : isSpecial name = false) : Text.isName name = true := by
  simpa [isParameter, ordinary] using known

/-- An operator is related on both sides if its operand and its replacement are. -/
theorem rel_applyOperator {name : Text} (known : isParameter name = true) {operand : Operand World}
    {operand' : Operand World'} {operator : Operator} {word : Option Word}
    (admits : c.Admits (.parameter name (some operator) word)) (onOperand : c.Rel operand operand')
    (onReplacement : ∀ all anchor replacement, operator = .replace all anchor replacement →
      c.Rel (expandOperandOption host replacement) (expandOperandOption host' replacement)) :
    c.Rel (applyOperator host name operand operator) (applyOperator host' name operand' operator) := by
  have named : c.Named name := admits.2 name (.inl rfl)
  have onText := c.rel_text onOperand
  have onPattern := c.rel_pattern? onOperand
  cases operator with
  | useDefault colon =>
      rw [applyOperator, applyOperator]
      refine c.bind (c.rel_given? named colon) fun given => ?_
      cases given with
      | some value => exact c.pure _
      | none => exact onText
  | assignDefault colon =>
      rw [applyOperator, applyOperator]
      refine c.bind (c.rel_given? named colon) fun given => ?_
      cases given with
      | some value => exact c.pure _
      | none =>
          dsimp only
          split
          · exact c.throw rfl
          · next ordinary =>
            have isName := isName_of_isParameter known (by simpa using ordinary)
            exact c.bind onText fun value => c.bind (c.define isName value) fun _ => c.pure _
  | errorIfUnset colon =>
      rw [applyOperator, applyOperator]
      refine c.bind (c.rel_given? named colon) fun given => ?_
      cases given with
      | some value => exact c.pure _
      | none => exact c.bind onText fun _ => c.throw rfl
  | useAlternative colon =>
      rw [applyOperator, applyOperator]
      refine c.bind (c.rel_given? named colon) fun given => ?_
      cases given with
      | some value => exact onText
      | none => exact c.pure _
  | length =>
      rw [applyOperator, applyOperator]
      exact c.rel_expandLength named
  | trimFront longest =>
      rw [applyOperator, applyOperator]
      refine c.bind (c.require named) fun value => c.bind onPattern fun pattern => ?_
      cases pattern with
      | some pattern => exact c.pure _
      | none => exact c.pure _
  | trimBack longest =>
      rw [applyOperator, applyOperator]
      refine c.bind (c.require named) fun value => c.bind onPattern fun pattern => ?_
      cases pattern with
      | some pattern => exact c.pure _
      | none => exact c.pure _
  | replace all anchor replacement =>
      rw [applyOperator, applyOperator]
      refine c.bind (c.require named) fun value => c.bind onPattern fun pattern => ?_
      cases pattern with
      | some pattern => exact c.bind (c.rel_text (onReplacement _ _ _ rfl)) fun _ => c.pure _
      | none => exact c.pure _
  | substring offset length =>
      rw [applyOperator, applyOperator]
      exact c.rel_expandSubstring admits
  | changeCase direction all =>
      rw [applyOperator, applyOperator]
      refine c.bind (c.require named) fun value => c.bind onPattern fun pattern => ?_
      cases pattern with
      | some pattern => exact c.pure _
      | none => exact c.pure _

/-! ### Expansions

The induction is on the structure of words; the operand of an operator, and its replacement, are the
words inside it. -/

/-- An expansion is related if it is so where it is well formed. -/
theorem rel_orSource {expansion : Expansion}
    (h : expansion.isWellFormed = true →
      c.Rel (tryEvaluate host expansion) (tryEvaluate host' expansion)) :
    c.Rel (evaluate host expansion) (evaluate host' expansion) := by
  cases wellFormed : expansion.isWellFormed with
  | true => exact c.orSource expansion (h wellFormed)
  | false =>
      rw [evaluate_of_not_wellFormed host wellFormed, evaluate_of_not_wellFormed host' wellFormed]
      exact c.pure _

mutual

theorem rel_expandOperand : ∀ word : Word, (∀ node ∈ word.nodes, c.Admits node) →
    c.Rel (expandOperand host word) (expandOperand host' word)
  | .mk parts quote, admits => by
      rw [Word.nodes] at admits
      rw [expandOperand, expandOperand]
      split
      · exact c.pure _
      · exact rel_expandOperandParts quote _ _ parts admits

theorem rel_expandOperandParts (quote : Option Quote) (continues leading : Bool) :
    ∀ parts : List Part, (∀ node ∈ partsNodes parts, c.Admits node) →
      c.Rel (expandOperandParts host quote continues leading parts)
        (expandOperandParts host' quote continues leading parts)
  | [], _ => by
      rw [expandOperandParts, expandOperandParts]
      exact c.pure _
  | part :: parts, admits => by
      rw [partsNodes, List.forall_mem_append] at admits
      rw [expandOperandParts, expandOperandParts]
      refine c.bind (rel_expandOperandPart quote continues leading part admits.1) fun first => ?_
      exact c.bind (rel_expandOperandParts quote continues false parts admits.2) fun rest => c.pure _

theorem rel_expandOperandPart (quote : Option Quote) (continues leading : Bool) :
    ∀ part : Part, (∀ node ∈ part.nodes, c.Admits node) →
      c.Rel (expandOperandPart host quote continues leading part)
        (expandOperandPart host' quote continues leading part)
  | .literal text own, _ => by
      rw [expandOperandPart, expandOperandPart]
      refine c.get_bind fun s t near => ?_
      unfold operandLiteral
      rw [c.tildePrefix?_eq near]
      exact c.pure _
  | .expansion expansion own, admits => by
      rw [Part.nodes] at admits
      rw [expandOperandPart, expandOperandPart]
      exact c.bind (c.rel_orSource fun wellFormed => rel_tryEvaluate expansion wellFormed admits)
        fun _ => c.pure _

theorem rel_expandOperandOption :
    ∀ word : Option Word, (∀ node ∈ wordNodes word, c.Admits node) →
      c.Rel (expandOperandOption host word) (expandOperandOption host' word)
  | none, _ => by
      rw [expandOperandOption, expandOperandOption]
      exact c.pure _
  | some word, admits => by
      rw [wordNodes] at admits
      rw [expandOperandOption, expandOperandOption]
      exact c.bind (rel_expandOperand word admits) fun _ => c.pure _

theorem rel_tryEvaluate : ∀ expansion : Expansion, expansion.isWellFormed = true →
    (∀ node ∈ expansion.nodes, c.Admits node) →
      c.Rel (tryEvaluate host expansion) (tryEvaluate host' expansion)
  | .variable name, known, admits => by
      rw [Expansion.isWellFormed] at known
      rw [Expansion.nodes, List.forall_mem_singleton] at admits
      rw [tryEvaluate, tryEvaluate]
      exact c.rel_expandVariable known (admits.2 name (.inl rfl))
  | .parameter name none word, known, admits => by
      rw [Expansion.isWellFormed] at known
      rw [Expansion.nodes, List.forall_mem_cons] at admits
      rw [tryEvaluate, tryEvaluate, if_pos known, if_pos known]
      exact c.rel_expandVariable known (admits.1.2 name (.inl rfl))
  | .parameter name (some operator) word, known, admits => by
      rw [Expansion.isWellFormed] at known
      rw [Expansion.nodes, List.forall_mem_cons, List.forall_mem_append] at admits
      rw [tryEvaluate, tryEvaluate, if_pos known, if_pos known]
      exact c.rel_applyOperator known admits.1 (rel_expandOperandOption word admits.2.2)
        (rel_replacement operator admits.2.1)
  | .command command backtick, _, admits => by
      rw [Expansion.nodes, List.forall_mem_singleton] at admits
      rw [tryEvaluate, tryEvaluate]
      exact c.command (admits.1 _ (.inl rfl))
  | .arithmetic expression, _, admits => by
      rw [Expansion.nodes, List.forall_mem_singleton] at admits
      rw [tryEvaluate, tryEvaluate]
      exact c.bind (c.rel_arithmetic admits List.mem_cons_self) fun _ => c.pure _

theorem rel_replacement : ∀ operator : Operator, (∀ node ∈ operator.nodes, c.Admits node) →
    ∀ all anchor replacement, operator = .replace all anchor replacement →
      c.Rel (expandOperandOption host replacement) (expandOperandOption host' replacement)
  | .replace _ _ replacement, admits, _, _, _, rfl => by
      rw [Operator.nodes] at admits
      exact rel_expandOperandOption replacement admits

end

theorem rel_evaluate {expansion : Expansion} (admits : ∀ node ∈ expansion.nodes, c.Admits node) :
    c.Rel (evaluate host expansion) (evaluate host' expansion) :=
  c.rel_orSource fun wellFormed => c.rel_tryEvaluate expansion wellFormed admits

/-! ### Segments -/

theorem rel_positionalValues? {expansion : Expansion} (admits : c.Admits expansion) :
    c.Rel (positionalValues? host expansion) (positionalValues? host' expansion) := by
  unfold positionalValues?
  split
  · refine c.get_bind fun s t near => ?_
    rw [(c.alike near).positional]
    exact c.pure _
  · exact c.rel_positionalSlice? admits

theorem rel_partSegments (quote : Option Quote) (continues leading : Bool) {part : Part}
    (admits : ∀ node ∈ part.nodes, c.Admits node) :
    c.Rel (partSegments host quote continues leading part)
      (partSegments host' quote continues leading part) := by
  cases part with
  | literal text own =>
      refine c.get_bind fun s t near => ?_
      unfold literalSegments
      rw [c.tildePrefix?_eq near]
      exact c.pure _
  | expansion expansion own =>
      rw [Part.nodes] at admits
      have self := admits expansion expansion.mem_nodes
      refine c.bind (c.rel_positionalValues? self) fun values => ?_
      cases values with
      | some values =>
          refine c.get_bind fun s t near => ?_
          rw [(c.alike near).separator]
          exact c.pure _
      | none => exact c.bind (c.rel_evaluate admits) fun _ => c.pure _

theorem rel_partsSegments (quote : Option Quote) (continues leading : Bool) {parts : List Part}
    (admits : ∀ node ∈ partsNodes parts, c.Admits node) :
    c.Rel (partsSegments host quote continues leading parts)
      (partsSegments host' quote continues leading parts) := by
  induction parts generalizing leading with
  | nil => exact c.pure _
  | cons part parts ih =>
      rw [partsNodes, List.forall_mem_append] at admits
      refine c.bind (c.rel_partSegments quote continues leading admits.1) fun first => ?_
      exact c.bind (ih false admits.2) fun rest => c.pure _

theorem rel_wordSegments {word : Word} (admits : ∀ node ∈ word.nodes, c.Admits node) :
    c.Rel (wordSegments host word) (wordSegments host' word) := by
  cases word with
  | mk parts quote =>
      rw [Word.nodes] at admits
      exact c.rel_partsSegments quote _ true admits

/-! ### Words

Pathname expansion is the one step that looks at files; whether it is related is asked for. -/

section Words

variable (onFields : ∀ fields, c.Rel (expandFields host fields) (expandFields host' fields))

include onFields

theorem rel_expandWord {word : Word} (admits : ∀ node ∈ word.nodes, c.Admits node) :
    c.Rel (expandWord host word) (expandWord host' word) := by
  have segments := c.rel_wordSegments admits
  unfold expandWord
  split
  · split
    · exact c.pure _
    · exact c.bind segments fun _ => c.pure _
  · refine c.bind segments fun segments => c.get_bind fun s t near => ?_
    rw [(c.alike near).ifs]
    exact onFields _

theorem rel_expandWords {words : List Word}
    (admits : ∀ word ∈ words, ∀ node ∈ word.nodes, c.Admits node) :
    c.Rel (expandWords host words) (expandWords host' words) := by
  induction words with
  | nil => exact c.pure _
  | cons word words ih =>
      rw [List.forall_mem_cons] at admits
      refine c.bind (c.rel_expandWord onFields admits.1) fun first => ?_
      exact c.bind (ih admits.2) fun rest => c.pure _

theorem rel_arguments {command : Command}
    (admits : ∀ word ∈ command.words, ∀ node ∈ word.nodes, c.Admits node)
    (onStart : c.Rel (startPaths host command) (startPaths host' command)) :
    c.Rel (arguments host command) (arguments host' command) :=
  c.bind onStart fun paths =>
    c.rel_expandWords onFields (forall_nodes_replaceSubstitutions admits paths)

end Words

end Host.Coupling

end ShellWord
