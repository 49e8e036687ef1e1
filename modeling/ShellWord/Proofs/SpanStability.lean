import ShellWord.Proofs.CommandOrigin
import ShellWord.Proofs.SpanReplacement

/-!
# Substitutions do not depend on data

Arithmetic text goes through two passes.  The first puts numbers in the place of parameters, and decides on the way which
substitutions it leaves alone; the second looks for substitutions in what came out.  `arithmetic_substitutions_stable`
says that the two agree: the substitutions that the second pass calls on are the same for all values of parameters,
and each of them stands in the text as it was written.

A substitution is shorter than the text around it.  So evaluating arithmetic text, whose definition is cut off at a depth,
is never cut off: it satisfies the equation that one would write without a depth (`arithmetic_eq`).

### What is load-bearing

The first pass copies what it does not replace up to the same parenthesis at which the second pass closes it, since the
text behind the parenthesis does not matter (`Paren.close?_eq_some_iff`).  Where it gives up, at a parenthesis or a brace
that is never closed, all the rest is copied, and no parameter is replaced in it.
-/

namespace ShellWord

/-- What stands in a text stands in its bytes. -/
theorem Text.utf8_infix {s t : Text} (within : s <:+: t) : Text.utf8 s <:+: Text.utf8 t := by
  obtain ⟨before, after, rfl⟩ := within
  exact ⟨Text.utf8 before, Text.utf8 after, by rw [Text.utf8_append, Text.utf8_append]⟩

namespace Span

/-- The body of a substitution. -/
def body : Span → Text
  | .arithmetic body => body
  | .command body => body

/-- The substitution that a piece is. -/
def Piece.span? : Piece → Option Span
  | .char _ => none
  | .span s => some s

/-- The substitutions found in a text, from left to right. -/
def found (t : Text) : List Span :=
  (pieces t).filterMap Piece.span?

theorem mem_found {t : Text} {span : Span} : span ∈ found t ↔ .span span ∈ pieces t := by
  rw [found, List.mem_filterMap]
  constructor
  · rintro ⟨piece, mem, same⟩
    cases piece with
    | char c => cases same
    | span s => exact Option.some.inj same ▸ mem
  · exact fun mem => ⟨_, mem, rfl⟩

theorem filterMap_layout (items : List Item) (last : Text) :
    (layout items last).filterMap Piece.span? = items.map Item.span := by
  have plain (t : Text) : (t.map Piece.char).filterMap Piece.span? = [] := by
    rw [List.filterMap_map]
    exact List.filterMap_eq_nil_iff.2 fun _ _ => rfl
  induction items with
  | nil => exact plain last
  | cons item items ih =>
      rw [layout, List.filterMap_append, plain, List.nil_append]
      exact congrArg (item.span :: ·) ih

theorem Decomposition.spans_eq {text : Text} (d : Decomposition text) : d.spans = found text := by
  rw [found, ← d.layout_eq, filterMap_layout]
  rfl

theorem found_cons_of_not_open {c : Char} {t : Text} (h : ¬ (c = '$' ∧ t.head? = some '(')) :
    found (c :: t) = found t := by
  rw [found, pieces_cons_of_not_open h]
  rfl

theorem found_cons_of_open? {t rest : Text} {span : Span} (h : open? t = some (span, rest)) :
    found ('$' :: t) = span :: found rest := by
  rw [found, pieces_cons_of_open? h]
  rfl

/-- Text without dollar signs has no substitution in it, and none that begins in it. -/
theorem found_append {a : Text} (h : '$' ∉ a) (t : Text) : found (a ++ t) = found t := by
  induction a with
  | nil => rfl
  | cons c a ih =>
      obtain ⟨first, rest⟩ : '$' ≠ c ∧ '$' ∉ a := by simpa using h
      rw [List.cons_append, found_cons_of_not_open fun opens => first opens.1.symm, ih rest]

/-- The body of a substitution stands in its source, behind a dollar sign. -/
theorem exists_source_eq (span : Span) : ∃ before after, span.source = '$' :: (before ++ span.body ++ after) := by
  cases span with
  | arithmetic body => exact ⟨['(', '('], [')', ')'], rfl⟩
  | command body => exact ⟨['('], [')'], rfl⟩

theorem body_infix_source (span : Span) : span.body <:+: span.source := by
  obtain ⟨before, after, same⟩ := span.exists_source_eq
  rw [same]
  exact ⟨'$' :: before, after, rfl⟩

theorem length_body_lt (span : Span) : span.body.length < span.source.length := by
  obtain ⟨before, after, same⟩ := span.exists_source_eq
  rw [same, List.length_cons, List.length_append, List.length_append]
  omega

theorem utf8Size_body_lt (span : Span) : Text.utf8Size span.body < Text.utf8Size span.source := by
  obtain ⟨before, after, same⟩ := span.exists_source_eq
  have dollar := Char.utf8Size_pos '$'
  rw [same, Text.utf8Size_cons, Text.utf8Size_append, Text.utf8Size_append]
  omega

end Span

namespace Dollar

/-- **The substitutions found after replacing parameters are the same, whatever values are put in.** -/
theorem found_fill_eq (values values' : List (Option Text)) (t : Text) :
    Span.found (fill (pieces t) values) = Span.found (fill (pieces t) values') := by
  fun_induction pieces t generalizing values values' with
  | case1 => rfl
  | case2 c => rw [fill_plain, fill_plain]
  | case3 c d rest notDollar ih =>
      have ne : c ≠ '$' := by simpa using notDollar
      rw [fill, fill, List.singleton_append, List.singleton_append,
        Span.found_cons_of_not_open fun opens => ne opens.1,
        Span.found_cons_of_not_open fun opens => ne opens.1, ih]
  | case4 c d rest isDollar paren body after closed _ ih =>
      obtain rfl : d = '(' := by simpa using paren
      obtain ⟨span, opens, source⟩ := Span.open?_of_close? closed
      -- what is copied is the same substitution, whatever the text behind it has become
      have first (text : Text) :
          Span.found ('$' :: '(' :: (body ++ [')']) ++ text) = span :: Span.found text := by
        refine Span.found_cons_of_open? (Span.open?_of_proper (Span.proper_of_open? opens) ?_)
        rw [source]
        simp
      rw [fill, fill, first, first, ih]
  | case5 => rw [fill_plain, fill_plain]
  | case6 c d rest isDollar notParen brace name after closed _ ih =>
      rw [fill, fill, Span.found_append (dollar_not_mem_numeric _),
        Span.found_append (dollar_not_mem_numeric _), ih]
  | case7 => rw [fill_plain, fill_plain]
  | case8 c d rest isDollar notParen notBrace isName ih =>
      rw [fill, fill, Span.found_append (dollar_not_mem_numeric _),
        Span.found_append (dollar_not_mem_numeric _), ih]
  | case9 c d rest isDollar notParen notBrace notName special ih =>
      rw [fill, fill, Span.found_append (dollar_not_mem_numeric _),
        Span.found_append (dollar_not_mem_numeric _), ih]
  | case10 c d rest isDollar notParen notBrace notName notSpecial ih =>
      -- a second dollar sign would be the special parameter, so `d` is copied as it is
      have notDollar : d ≠ '$' := by
        rintro rfl
        exact notSpecial (by decide)
      have plain (values : List (Option Text)) :
          ¬ ('$' = '$' ∧ (fill (pieces (d :: rest)) values).head? = some '(') := by
        rw [head?_fill notDollar]
        simpa using notParen
      rw [fill, fill, List.singleton_append, List.singleton_append,
        Span.found_cons_of_not_open (plain values), Span.found_cons_of_not_open (plain values'), ih]

end Dollar

/-! ### Evaluating arithmetic text ends -/

theorem Span.assemble_congr {m : Type → Type} [Monad m] {onSpan onSpan' : Span → m Text} {pieces : List Piece}
    (h : ∀ span, .span span ∈ pieces → onSpan span = onSpan' span) :
    assemble onSpan pieces = assemble onSpan' pieces := by
  induction pieces with
  | nil => rfl
  | cons piece pieces ih =>
      have rest := ih fun span mem => h span (List.mem_cons_of_mem _ mem)
      cases piece with
      | char c => rw [assemble, rest, assemble]
      | span s => rw [assemble, rest, h s List.mem_cons_self, assemble]

section

variable {World : Type} (host : Host World)

/-- What a substitution is replaced by, where `value` evaluates arithmetic text. -/
def substituted (value : Text → Expand World Int64) : Span → Expand World Text
  | .arithmetic body => do
    let number ← value body
    return Numeral.ofInt64 number
  | .command body => do
    let output ← runCommand host body
    return if output.isEmpty then ['0'] else output

/-- Evaluate arithmetic text, where `value` evaluates that of its substitutions. -/
def arithmeticStep (value : Text → Expand World Int64) (text : Text) : Expand World Int64 := do
  let values ← (Dollar.parameters text).mapM (readParameter host)
  let plain ← Span.replace (substituted host value) (Dollar.fill (Dollar.pieces text) values)
  Run.within id (fun s _ => s) (ExpandError.arithmetic text) (integer host plain)

theorem arithmeticAt_succ (depth : Nat) (text : Text) :
    arithmeticAt host (depth + 1) text = arithmeticStep host (arithmeticAt host depth) text := by
  rw [arithmeticAt, arithmeticStep]
  refine bind_congr fun s => congrArg (· >>= _) (Span.assemble_congr fun span _ => ?_)
  cases span <;> rfl

variable {host}

/-- The texts that are evaluated on the way are shorter. -/
theorem arithmeticStep_congr {value value' : Text → Expand World Int64} {text : Text}
    (h : ∀ body : Text, body.length < text.length → value body = value' body) :
    arithmeticStep host value text = arithmeticStep host value' text := by
  refine bind_congr fun values => ?_
  have replaced : Span.replace (substituted host value) (Dollar.fill (Dollar.pieces text) values) =
      Span.replace (substituted host value') (Dollar.fill (Dollar.pieces text) values) := by
    refine Span.assemble_congr fun span mem => ?_
    have written := (Dollar.source_infix_of_mem_pieces_fill _ _ mem).length_le
    have shorter := span.length_body_lt
    cases span with
    | arithmetic body => rw [substituted, h body (Nat.lt_of_lt_of_le shorter written), substituted]
    | command body => rfl
  exact congrArg (· >>= _) replaced

/-- A depth beyond the length of the text makes no difference. -/
theorem arithmeticAt_eq {depth depth' : Nat} {text : Text} (deep : text.length < depth)
    (deep' : text.length < depth') : arithmeticAt host depth text = arithmeticAt host depth' text := by
  induction depth generalizing depth' text with
  | zero => exact absurd deep (Nat.not_lt_zero _)
  | succ depth ih =>
      obtain ⟨depth', rfl⟩ := Nat.exists_eq_succ_of_ne_zero (Nat.ne_zero_of_lt deep')
      rw [arithmeticAt_succ, Nat.succ_eq_add_one, arithmeticAt_succ]
      exact arithmeticStep_congr fun body shorter => ih (by omega) (by omega)

variable (host) in
/-- **Evaluating is not cut off.** -/
theorem arithmetic_eq (text : Text) : arithmetic host text = arithmeticStep host (arithmetic host) text := by
  rw [arithmetic, arithmeticAt_succ]
  exact arithmeticStep_congr fun body shorter => arithmeticAt_eq shorter (Nat.lt_succ_self _)

/-- There is only one way to evaluate arithmetic text step by step. -/
theorem eq_arithmetic {value : Text → Expand World Int64} (steps : ∀ text, value text = arithmeticStep host value text) :
    value = arithmetic host := by
  have upTo (n : Nat) : ∀ text : Text, text.length < n → value text = arithmetic host text := by
    induction n with
    | zero => exact fun text short => absurd short (Nat.not_lt_zero _)
    | succ n ih =>
        intro text short
        rw [steps, arithmetic_eq]
        exact arithmeticStep_congr fun body shorter => ih body (by omega)
  exact funext fun text => upTo _ text (Nat.lt_succ_self _)

variable (host) in
/-- Every command that evaluating arithmetic text runs is spelled out in the text. -/
theorem arithmetic_logged (text : Text) (s : Session World) :
    ∃ ran : List Text,
      (arithmetic (host.noted Note.text) text).exec (s.withNotes []) =
        (((arithmetic host text).exec s).1, ((arithmetic host text).exec s).2.withNotes ran) ∧
      ∀ command ∈ ran, '$' :: '(' :: (command ++ [')']) <:+: text := by
  have sim := host.simulates_noted (Notes.kept_text fun command => '$' :: '(' :: (command ++ [')']) <:+: text)
  have related := sim.coupling.rel_arithmeticAt (text.length + 1) (fun _ written => written) fun _ _ => trivial
  have start : Noted (fun _ log => ∀ command ∈ log, '$' :: '(' :: (command ++ [')']) <:+: text) s
      (s.withNotes []) := ⟨[], rfl, List.forall_mem_nil _⟩
  obtain ⟨outcome, ran, state, within⟩ := Run.related_iff_relatedUnless.2 related start
  exact ⟨ran, Prod.ext outcome.symm state, within⟩

end

/-- Calls that all succeed give a result for each substitution. -/
theorem Span.exists_exec_mapM {σ ε : Type} {onSpan : Span → Run σ ε Text}
    (succeeds : ∀ span s, ∃ result s', (onSpan span).exec s = (.ok result, s')) (spans : List Span) (s : σ) :
    ∃ results s', (spans.mapM onSpan).exec s = (.ok results, s') := by
  induction spans generalizing s with
  | nil => exact ⟨[], s, rfl⟩
  | cons span spans ih =>
      obtain ⟨result, t, first⟩ := succeeds span s
      obtain ⟨results, u, rest⟩ := ih t
      refine ⟨result :: results, u, ?_⟩
      rw [List.mapM_cons, Run.exec_bind_of_ok first, Run.exec_bind_of_ok rest]
      rfl

/-- **The two passes agree on the substitutions, whatever the parameters hold.**  For every text there is one list of
substitutions that are called on, in order, after the parameters have been replaced, for all values that they are read
with, one by one, and all calls that succeed.  The body of each stands in the text, byte for byte, and is shorter.  So evaluating the text
satisfies the equation that has no bound on the depth, nothing else does, and every command that is
run is one that the text spells out. -/
theorem arithmetic_substitutions_stable (text : Text) :
    (∃ spans : List Span,
      (∀ (values : List (Option Text)) {σ ε : Type} (onSpan : Span → Run σ ε Text),
        (∀ span s, ∃ result s', (onSpan span).exec s = (.ok result, s')) → ∀ s, ∃ result s',
          (Span.replace (Span.noting onSpan) (Dollar.fill (Dollar.pieces text) values)).exec (s, []) =
            (.ok result, (s', spans))) ∧
      ∀ span ∈ spans, span.body <:+: text ∧ Text.utf8 span.body <:+: Text.utf8 text ∧
        Text.utf8Size span.body < Text.utf8Size text) ∧
    ∀ {World : Type} (host : Host World),
      arithmetic host text = arithmeticStep host (arithmetic host) text ∧
      (∀ value : Text → Expand World Int64, (∀ text, value text = arithmeticStep host value text) →
        value text = arithmetic host text) ∧
      ∀ s : Session World, ∃ ran : List Text,
        (arithmetic (host.noted Note.text) text).exec (s.withNotes []) =
          (((arithmetic host text).exec s).1, ((arithmetic host text).exec s).2.withNotes ran) ∧
        ∀ command ∈ ran, '$' :: '(' :: (command ++ [')']) <:+: text := by
  refine ⟨⟨Span.found (Dollar.fill (Dollar.pieces text) []), ?_, ?_⟩, fun host => ⟨arithmetic_eq host text, ?_, ?_⟩⟩
  · intro values σ ε onSpan succeeds s
    let d := Span.Decomposition.ofText (Dollar.fill (Dollar.pieces text) values)
    obtain ⟨results, s', ran⟩ := Span.exists_exec_mapM succeeds d.spans s
    refine ⟨d.fill results, s', ?_⟩
    rw [d.replace_eq, Run.exec_bind_of_ok (Span.exec_mapM_noting ran []), Run.exec_pure, List.nil_append, d.spans_eq,
      Dollar.found_fill_eq values []]
  · intro span mem
    have written := Dollar.source_infix_of_mem_pieces_fill _ _ (Span.mem_found.1 mem)
    have within : span.body <:+: text := span.body_infix_source.trans written
    have size := (Text.utf8_infix written).length_le
    rw [Text.length_utf8, Text.length_utf8] at size
    exact ⟨within, Text.utf8_infix within, Nat.lt_of_lt_of_le span.utf8Size_body_lt size⟩
  · exact fun value steps => congrFun (eq_arithmetic steps) text
  · exact arithmetic_logged host text

/-- The statement for two parameters that are numbers, `x` and the `$$` before a parenthesis, and a brace that is never
closed: called on are the same substitutions as where no parameter is set. -/
theorem arithmetic_substitutions_stable_unclosed :
    ∃ result, (Span.replace (Span.noting fun _ => (pure ['1'] : Run Unit Unit Text))
        (Dollar.fill (Dollar.pieces "$x+$$(a)$((b))$\x7bc $(d)".toList) [some ['7'], some ['8']])).exec ((), []) =
      (.ok result, ((), [.arithmetic ['b'], .command ['d']])) := by
  obtain ⟨⟨spans, called, -⟩, -⟩ := arithmetic_substitutions_stable "$x+$$(a)$((b))$\x7bc $(d)".toList
  have succeeds (_ : Span) (s : Unit) :
      ∃ result s', (pure ['1'] : Run Unit Unit Text).exec s = (.ok result, s') := ⟨['1'], s, rfl⟩
  obtain ⟨_, _, unset⟩ := called [] _ succeeds ()
  obtain ⟨result, _, set⟩ := called [some ['7'], some ['8']] _ succeeds ()
  have same : [.arithmetic ['b'], .command ['d']] = spans :=
    Eq.trans (by decide +kernel) (congrArg (fun outcome => outcome.2.2) unset)
  exact ⟨result, same ▸ set⟩

end ShellWord
