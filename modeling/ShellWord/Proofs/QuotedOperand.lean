import ShellWord.Proofs.Pattern.Literal
import ShellWord.Proofs.Simulation

/-!
# Quoted operands are plain strings

In `${v#"$x"}` the value of `x` should be taken off the front of the value of `v`, whatever characters it has.  On the
way it is expanded, escaped, rewritten into an expression, escaped again, and matched against parts of the value by the
engine.  Any character that means something to one of these steps and was not made harmless by the one before would
show.

`TreatsAsString` lists what an operator should do with a string as its operand, for each of the operators that
take a pattern off a value or replace it, and mentions no pattern.  `evaluate_quotedOperand` says that this is
what happens, for every two values, every standard engine, and with groups switched on or off.  The replacement is
expanded like any other operand, and its text is put in as it is.

An empty operand is special.  As a pattern it matches at every place, but the operators do not get to
see it, and the value stays as it is; the replacement is then not even expanded.
-/

namespace ShellWord

variable {World : Type} {host : Host World} {s s' : Session World}

/-! ### What is expected -/

/-- The operand of an operator is expanded to a text. -/
def OperandGives (host : Host World) (s : Session World) (word : Option Word) (text : Text)
    (s' : Session World) : Prop :=
  (Operand.text (expandOperandOption host word)).exec s = (.ok text, s')

/-- What the operators do to `value` where their operand stands for the string `str`, in a session `s` in which both
have been read.  Here `outcome` gives, for each operator, the text and the session it ends in. -/
structure TreatsAsString (host : Host World) (s : Session World) (str value : Text)
    (outcome : Operator → Except ExpandError Text × Session World) : Prop where
  /-- `#` and `##` take the string off the front, if it is there -/
  front : ∀ longest rest, value = str ++ rest → outcome (.trimFront longest) = (.ok rest, s)
  front_missing : ∀ longest, ¬ str <+: value → outcome (.trimFront longest) = (.ok value, s)
  /-- `%` and `%%` take it off the back -/
  back : ∀ longest rest, value = rest ++ str → outcome (.trimBack longest) = (.ok rest, s)
  back_missing : ∀ longest, ¬ str <:+ value → outcome (.trimBack longest) = (.ok value, s)
  /-- `//` puts the replacement in the place of every leftmost occurrence -/
  all : str ≠ [] → ∃ texts, IsSplitAt str texts ∧ value = List.intercalate str texts ∧
    ∀ word r s', OperandGives host s word r s' →
      outcome (.replace true none word) = (.ok (List.intercalate r texts), s')
  /-- `/` puts it in the place of the first one -/
  first : str ≠ [] → str <:+: value → ∃ u v, value = u ++ (str ++ v) ∧ ¬ BeginsWithin str u (str ++ v) ∧
    ∀ word r s', OperandGives host s word r s' →
      outcome (.replace false none word) = (.ok (u ++ (r ++ v)), s')
  first_missing : ¬ str <:+: value → ∀ word r s', OperandGives host s word r s' →
    outcome (.replace false none word) = (.ok value, s')
  /-- `/#` puts it in the place of the string at the front -/
  start : str ≠ [] → ∀ rest, value = str ++ rest → ∀ all word r s', OperandGives host s word r s' →
    outcome (.replace all (some .start) word) = (.ok (r ++ rest), s')
  start_missing : ¬ str <+: value → ∀ all word r s', OperandGives host s word r s' →
    outcome (.replace all (some .start) word) = (.ok value, s')
  /-- `/%` puts it in the place of the string at the back -/
  finish : str ≠ [] → ∀ rest, value = rest ++ str → ∀ all word r s', OperandGives host s word r s' →
    outcome (.replace all (some .finish) word) = (.ok (rest ++ r), s')
  finish_missing : ¬ str <:+ value → ∀ all word r s', OperandGives host s word r s' →
    outcome (.replace all (some .finish) word) = (.ok value, s')
  /-- an empty string changes nothing -/
  empty : str = [] → (∀ longest, outcome (.trimFront longest) = (.ok value, s)) ∧
    (∀ longest, outcome (.trimBack longest) = (.ok value, s)) ∧
    ∀ all anchor word, outcome (.replace all anchor word) = (.ok value, s)

/-- The word is `"$x"` or `"${x}"`, with the quotes around the word or around its only part. -/
inductive Word.IsQuotedParameter (x : Text) : Word → Prop where
  | variable {quote own : Option Quote} (quotes : quote.or own = some .double) :
      IsQuotedParameter x (.mk [.expansion (.variable x) own] quote)
  | braced {quote own : Option Quote} {word : Option Word} (quotes : quote.or own = some .double) :
      IsQuotedParameter x (.mk [.expansion (.parameter x none word) own] quote)

/-! ### Expanding the operand -/

/-- An operand with one part, which is an expansion in double quotes, is the value of this expansion, quoted. -/
theorem exec_expandOperand_quoted {expansion : Expansion} {quote own : Option Quote} {value : Text}
    (quotes : quote.or own = some .double) (ran : (tryEvaluate host expansion).exec s = (.ok value, s')) :
    (expandOperand host (.mk [.expansion expansion own] quote)).exec s = (.ok (Literal.quoted value), s') := by
  have expanded : quote.any Quote.isLiteral = false := by
    cases quote with
    | none => rfl
    | some quote =>
        obtain rfl := Option.some.inj quotes
        rfl
  have part : (expandOperandPart host quote false true (.expansion expansion own)).exec s =
      (.ok (Literal.quoted value), s') := by
    rw [expandOperandPart, Run.exec_bind_of_ok (exec_orSource_of_ok ran expansion), quotes]
    rfl
  have whole : Literal.quoted value ++ Literal.empty = Literal.quoted value := by
    show Literal.mk (value ++ []) (Pattern.escape value ++ []) = _
    rw [List.append_nil, List.append_nil]
    rfl
  rw [expandOperand, expanded, if_neg (by decide), expandOperandParts]
  refine (Run.exec_bind_of_ok part).trans ?_
  rw [expandOperandParts, pure_bind, whole]
  rfl

theorem Word.IsQuotedParameter.exec_expandOperand {x str : Text} {operand : Word}
    (quoted : operand.IsQuotedParameter x) (named : isParameter x = true)
    (set : s.lookup host x = some str) :
    (expandOperand host operand).exec s = (.ok (Literal.quoted str), s.afterRead host x) := by
  have value := exec_expandVariable_of_lookup named set
  cases quoted with
  | «variable» quotes =>
      apply exec_expandOperand_quoted quotes
      rwa [tryEvaluate]
  | braced quotes =>
      apply exec_expandOperand_quoted quotes
      rwa [tryEvaluate, if_pos named]

/-! ### Reading it as a pattern -/

/-- Quoted text is no pattern if it is empty. -/
theorem exec_pattern?_empty {operand : Operand World}
    (ran : operand.exec s = (.ok (some (Literal.quoted [])), s')) :
    (operand.pattern? host).exec s = (.ok none, s') := by
  rw [Operand.pattern?, Run.exec_bind_of_ok ran]
  rfl

theorem escape_ne_nil {str : Text} (ne : str ≠ []) : Pattern.escape str ≠ [] := by
  obtain ⟨c, rest, rfl⟩ := List.exists_cons_of_ne_nil ne
  rw [Pattern.escape_cons, Pattern.escapeChar]
  split <;> simp

/-- Otherwise it is the pattern that matches this text only. -/
theorem exec_pattern?_quoted {admits : Text → Prop} (standard : host.engine.Standard admits)
    {operand : Operand World} {str : Text} (ne : str ≠ [])
    (ran : operand.exec s = (.ok (some (Literal.quoted str)), s'))
    (admitted : admits (Pattern.expression s'.shell.globbing.extglob .anything (Pattern.escape str))) :
    ∃ pattern : Pattern, (operand.pattern? host).exec s = (.ok (some pattern), s') ∧
      pattern.accepts = Matcher.only str := by
  obtain ⟨pattern, read, only⟩ :=
    Pattern.accepts_escape standard s'.shell.globbing.extglob str admitted
  refine ⟨pattern, ?_, only⟩
  have filled : (Literal.quoted str).pattern.isEmpty = false :=
    List.isEmpty_eq_false_iff.2 (escape_ne_nil ne)
  rw [Operand.pattern?, Run.exec_bind_of_ok ran]
  dsimp only
  rw [filled, if_neg (by decide), Run.exec_bind, Run.exec_get]
  dsimp only
  rw [Literal.quoted, read]
  rfl

/-! ### Applying the operators -/

/-- Without a pattern the operators leave the value as it is. -/
theorem exec_applyOperator_of_none {name value : Text} {operand : Operand World}
    (set : s.lookup host name = some value)
    (unread : (operand.pattern? host).exec (s.afterRead host name) = (.ok none, s')) :
    (∀ longest, (applyOperator host name operand (.trimFront longest)).exec s = (.ok value, s')) ∧
    (∀ longest, (applyOperator host name operand (.trimBack longest)).exec s = (.ok value, s')) ∧
    ∀ all anchor word,
      (applyOperator host name operand (.replace all anchor word)).exec s = (.ok value, s') := by
  have held := exec_requireValue_of_lookup set
  refine ⟨fun longest => ?_, fun longest => ?_, fun all anchor word => ?_⟩
  all_goals
    rw [applyOperator, Run.exec_bind_of_ok held, Run.exec_bind_of_ok unread]
    rfl

/-- With a pattern they trim the value, or replace what is matched by the text of the replacement. -/
theorem exec_applyOperator_of_some {name value : Text} {operand : Operand World} {pattern : Pattern}
    (set : s.lookup host name = some value)
    (read : (operand.pattern? host).exec (s.afterRead host name) = (.ok (some pattern), s')) :
    (∀ longest, (applyOperator host name operand (.trimFront longest)).exec s =
      (.ok (trimFront pattern.accepts longest value), s')) ∧
    (∀ longest, (applyOperator host name operand (.trimBack longest)).exec s =
      (.ok (trimBack pattern.accepts longest value), s')) ∧
    ∀ all anchor word r s'', OperandGives host s' word r s'' →
      (applyOperator host name operand (.replace all anchor word)).exec s =
        (.ok (replaceMatches pattern.accepts all anchor r value), s'') := by
  have held := exec_requireValue_of_lookup set
  refine ⟨fun longest => ?_, fun longest => ?_, fun all anchor word r s'' given => ?_⟩
  all_goals rw [applyOperator, Run.exec_bind_of_ok held, Run.exec_bind_of_ok read]
  · rfl
  · rfl
  · exact (Run.exec_bind_of_ok given).trans rfl

/-- If they leave the value as it is for an empty string, and trim and replace by the matcher of any other, then the
operators treat their operand as a string. -/
theorem TreatsAsString.of_only {str value : Text} {outcome : Operator → Except ExpandError Text × Session World}
    (empty : str = [] → (∀ longest, outcome (.trimFront longest) = (.ok value, s)) ∧
      (∀ longest, outcome (.trimBack longest) = (.ok value, s)) ∧
      ∀ all anchor word, outcome (.replace all anchor word) = (.ok value, s))
    (only : str ≠ [] →
      (∀ longest, outcome (.trimFront longest) = (.ok (trimFront (Matcher.only str) longest value), s)) ∧
      (∀ longest, outcome (.trimBack longest) = (.ok (trimBack (Matcher.only str) longest value), s)) ∧
      ∀ all anchor word r s', OperandGives host s word r s' → outcome (.replace all anchor word) =
        (.ok (replaceMatches (Matcher.only str) all anchor r value), s')) :
    TreatsAsString host s str value outcome where
  front longest rest parts := by
    by_cases none : str = []
    · rw [(empty none).1, parts, none, List.nil_append]
    · rw [(only none).1, parts, trimFront, frontMatch?_only]
  front_missing longest missing := by
    have ne : str ≠ [] := fun none => missing (none ▸ List.nil_prefix)
    rw [(only ne).1, trimFront, frontMatch?_only_eq_none longest missing]
  back longest rest parts := by
    by_cases none : str = []
    · rw [(empty none).2.1, parts, none, List.append_nil]
    · rw [(only none).2.1, parts, trimBack, backMatch?_only]
  back_missing longest missing := by
    have ne : str ≠ [] := fun none => missing (none ▸ List.nil_suffix)
    rw [(only ne).2.1, trimBack, backMatch?_only_eq_none longest missing]
  all ne := by
    obtain ⟨texts, split, source, replaced⟩ := replaceMatches_all_only ne value
    refine ⟨texts, split, source, fun word r s' given => ?_⟩
    rw [(only ne).2.2 true none word r s' given, replaced r]
  first ne occurs := by
    obtain ⟨u, v, parts, before, replaced⟩ := replaceMatches_first_only ne occurs
    refine ⟨u, v, parts, before, fun word r s' given => ?_⟩
    rw [(only ne).2.2 false none word r s' given, replaced r]
  first_missing missing word r s' given := by
    have ne : str ≠ [] := fun none => missing (none ▸ List.nil_infix)
    rw [(only ne).2.2 false none word r s' given, replaceMatches_first_only_eq_self missing r]
  start ne rest parts all word r s' given := by
    rw [(only ne).2.2 all (some .start) word r s' given, replaceMatches, replaceFront_eq, parts,
      frontMatch?_only]
  start_missing missing all word r s' given := by
    have ne : str ≠ [] := fun none => missing (none ▸ List.nil_prefix)
    rw [(only ne).2.2 all (some .start) word r s' given, replaceMatches, replaceFront_eq,
      frontMatch?_only_eq_none true missing]
  finish ne rest parts all word r s' given := by
    rw [(only ne).2.2 all (some .finish) word r s' given, replaceMatches, replaceBack_eq, parts,
      backMatch?_only]
  finish_missing missing all word r s' given := by
    have ne : str ≠ [] := fun none => missing (none ▸ List.nil_suffix)
    rw [(only ne).2.2 all (some .finish) word r s' given, replaceMatches, replaceBack_eq,
      backMatch?_only_eq_none true missing]
  empty := empty

/-- **Quoted operands are plain strings.**  Let `v` and `x` be set, to any two texts.  Then the operators that trim and
replace treat the operand `"$x"` as the string that `x` holds, with groups switched on or off, and put the text of the
replacement in as it is.  The engine of the host has to be a standard one and to have no limit for the expression of
the string. -/
theorem evaluate_quotedOperand {admits : Text → Prop} (standard : host.engine.Standard admits)
    {v x value str : Text} {operand : Word} (named : isParameter v = true)
    (set : s.lookup host v = some value) (quoted : operand.IsQuotedParameter x)
    (named' : isParameter x = true) (set' : (s.afterRead host v).lookup host x = some str)
    (admitted : admits (Pattern.expression s.shell.globbing.extglob .anything (Pattern.escape str))) :
    TreatsAsString host ((s.afterRead host v).afterRead host x) str value fun operator =>
      (evaluate host (.parameter v (some operator) (some operand))).exec s := by
  have expanded : (expandOperandOption host (some operand)).exec (s.afterRead host v) =
      (.ok (some (Literal.quoted str)), (s.afterRead host v).afterRead host x) := by
    rw [expandOperandOption, Run.exec_bind_of_ok (quoted.exec_expandOperand named' set')]
    rfl
  have evaluated {operator : Operator} {text : Text} {s' : Session World}
      (ran : (applyOperator host v (expandOperandOption host (some operand)) operator).exec s = (.ok text, s')) :
      (evaluate host (.parameter v (some operator) (some operand))).exec s = (.ok text, s') := by
    apply exec_orSource_of_ok
    rwa [tryEvaluate, if_pos named]
  refine .of_only (fun none => ?_) fun ne => ?_
  · subst none
    obtain ⟨front, back, replaced⟩ := exec_applyOperator_of_none set (exec_pattern?_empty expanded)
    exact ⟨fun longest => evaluated (front longest), fun longest => evaluated (back longest),
      fun all anchor word => evaluated (replaced all anchor word)⟩
  · obtain ⟨pattern, read, only⟩ := exec_pattern?_quoted standard ne expanded (by simpa using admitted)
    obtain ⟨front, back, replaced⟩ := exec_applyOperator_of_some set read
    rw [only] at front back replaced
    exact ⟨fun longest => evaluated (front longest), fun longest => evaluated (back longest),
      fun all anchor word r s' given => evaluated (replaced all anchor word r s' given)⟩

/-! ### An operand that would be a group -/

/-- A session where `v` holds `!(a)b` and `x` holds `!(a)`, with groups switched on. -/
def Session.groupLike : Session Unit :=
  (Session.blank.onShell ({ · with globbing := { extglob := true } })).onShell fun sh =>
    (sh.define ['v'] "!(a)b".toList).define ['x'] "!(a)".toList

/-- The word `"$x"`. -/
def Word.quotedX : Word :=
  .mk [.expansion (.variable ['x']) (some .double)] none

/-- The statement in this session: as a pattern, `!(a)` would match all of the value and most parts of it. -/
theorem evaluate_quotedOperand_groupLike :
    (evaluate Host.idle (.parameter ['v'] (some (.trimFront true)) (some .quotedX))).exec .groupLike =
      (.ok ['b'], .groupLike) ∧
    (evaluate Host.idle (.parameter ['v'] (some (.trimBack true)) (some .quotedX))).exec .groupLike =
      (.ok "!(a)b".toList, .groupLike) ∧
    (evaluate Host.idle (.parameter ['v'] (some (.replace true (some .start) (some (.ofText "x".toList))))
      (some .quotedX))).exec .groupLike = (.ok "xb".toList, .groupLike) := by
  have unchanged (name : Text) (h : name = ['v'] ∨ name = ['x']) :
      Session.groupLike.afterRead Host.idle name = .groupLike := by
    rcases h with rfl | rfl <;> rfl
  have treated : TreatsAsString Host.idle ((Session.groupLike.afterRead Host.idle ['v']).afterRead Host.idle ['x'])
      "!(a)".toList "!(a)b".toList fun operator =>
        (evaluate Host.idle (.parameter ['v'] (some operator) (some .quotedX))).exec .groupLike :=
    evaluate_quotedOperand Regex.standard_engine rfl rfl (.variable rfl) rfl rfl
      (Pattern.isWithinLimit_escape true .anything _)
  rw [unchanged _ (.inl rfl), unchanged _ (.inr rfl)] at treated
  have given : OperandGives Host.idle .groupLike (some (.ofText "x".toList)) "x".toList .groupLike := rfl
  exact ⟨treated.front true ['b'] rfl, treated.back_missing true (by decide),
    treated.start (by decide) ['b'] rfl true _ _ _ given⟩

end ShellWord
