import ShellWord.Proofs.Balanced
import ShellWord.Proofs.Run

/-!
# Replacing substitutions

The substitutions of arithmetic text are replaced from left to right.  What this does to the text around them can be
said without saying how they are found: the text is cut into substitutions, each with the plain text in front of it,
and what stands behind the last one.  No substitution opens in plain text; a text between `$(` and `)` is balanced, and
where it is read as a command it cannot be read as arithmetic; and what stands behind the last substitution
may contain a `$(` that is never closed.

`Span.Decomposition` is such a cut, with the proof that it is one.  There is exactly one for every text, and
replacing is: call on the substitutions in order, then fill the results in (`Span.replace_eq_decomposition`).

### What is load-bearing

A cut can be laid out as pieces, and read back from them (`collect_layout`).  So that a cut is unique comes down
to `Cut.pieces_written`: the pieces that the program makes of the text of a cut are that cut, laid out.  The plain
text in front of a substitution may end in a dollar sign, as in `$$(…)`, but the character behind it is another
dollar sign, so nothing opens across the border.
-/

namespace ShellWord.Span

/-! ### Cuts -/

/-- No substitution opens in a text. -/
def OpensNone (t : Text) : Prop :=
  ¬ ['$', '('] <:+: t

/-- Behind a dollar sign, a parenthesis opens that is never closed. -/
def Unclosed (afterDollar : Text) : Prop :=
  ∃ rest, afterDollar = '(' :: rest ∧ ∀ body after, rest = body ++ ')' :: after → ¬ Paren.Balanced body

/-- The body of a substitution is balanced, and that of a command is not a pair of parentheses around a balanced text:
such a substitution is arithmetic. -/
def Proper : Span → Prop
  | .arithmetic body => Paren.Balanced body
  | .command body => Paren.Balanced body ∧ ∀ inner, Paren.Balanced inner → body ≠ '(' :: (inner ++ [')'])

/-- A substitution, and the plain text in front of it. -/
structure Item where
  front : Text
  span : Span
  deriving DecidableEq, Repr

/-- The text that substitutions and plain text make up. -/
def written (items : List Item) (last : Text) : Text :=
  items.flatMap (fun item => item.front ++ item.span.source) ++ last

/-- The text with results in the place of the substitutions. -/
def fill : List Item → (results : List Text) → (last : Text) → Text
  | item :: items, result :: results, last => item.front ++ (result ++ fill items results last)
  | _, _, last => last

/-- The items are substitutions with plain text in front of them, and `last` is what stands behind them. -/
inductive Cut : List Item → (last : Text) → Prop
  | plain {last : Text} : OpensNone last → Cut [] last
  | unclosed {front rest : Text} : OpensNone front → Unclosed rest → Cut [] (front ++ '$' :: rest)
  | next {item : Item} {items : List Item} {last : Text} : OpensNone item.front → item.span.Proper →
      Cut items last → Cut (item :: items) last

/-- A text cut into its substitutions and the plain text around them. -/
@[ext] structure Decomposition (text : Text) where
  items : List Item
  last : Text
  cut : Cut items last
  written_eq : written items last = text

namespace Decomposition

variable {text : Text}

/-- The substitutions of a text, from left to right. -/
def spans (d : Decomposition text) : List Span :=
  d.items.map Item.span

/-- The text with results in the place of its substitutions. -/
def fill (d : Decomposition text) (results : List Text) : Text :=
  Span.fill d.items results d.last

end Decomposition

/-! ### Pieces and cuts -/

/-- Plain text and substitutions, one piece after the other. -/
def layout : List Item → (last : Text) → List Piece
  | [], last => last.map .char
  | item :: items, last => item.front.map .char ++ .span item.span :: layout items last

/-- Put a character in front of a cut. -/
def prepend (c : Char) : List Item × Text → List Item × Text
  | ([], last) => ([], c :: last)
  | (item :: items, last) => ({ item with front := c :: item.front } :: items, last)

/-- Collect the plain characters of pieces in front of the substitutions. -/
def collect : List Piece → List Item × Text
  | [] => ([], [])
  | .char c :: pieces => prepend c (collect pieces)
  | .span s :: pieces => (⟨[], s⟩ :: (collect pieces).1, (collect pieces).2)

theorem collect_layout (items : List Item) (last : Text) : collect (layout items last) = (items, last) := by
  induction items with
  | nil =>
      induction last with
      | nil => rfl
      | cons c last ih =>
          change prepend c (collect (layout [] last)) = _
          rw [ih]
          rfl
  | cons item items ih =>
      obtain ⟨front, span⟩ := item
      induction front with
      | nil =>
          change (_ :: (collect (layout items last)).1, (collect (layout items last)).2) = _
          rw [ih]
      | cons c front inner =>
          change prepend c (collect (layout (⟨front, span⟩ :: items) last)) = _
          rw [inner]
          rfl

theorem written_nil (last : Text) : written [] last = last := rfl

theorem written_cons (item : Item) (items : List Item) (last : Text) :
    written (item :: items) last = item.front ++ (item.span.source ++ written items last) := by
  simp [written]

theorem written_prepend (c : Char) (cut : List Item × Text) :
    written (prepend c cut).1 (prepend c cut).2 = c :: written cut.1 cut.2 := by
  obtain ⟨items, last⟩ := cut
  cases items with
  | nil => rfl
  | cons item items =>
      rw [prepend, written_cons, written_cons]
      rfl

theorem written_collect (pieces : List Piece) :
    written (collect pieces).1 (collect pieces).2 = pieces.flatMap Piece.source := by
  induction pieces with
  | nil => rfl
  | cons piece pieces ih =>
      cases piece with
      | char c => rw [collect, written_prepend, ih, List.flatMap_cons, Piece.source, List.singleton_append]
      | span s => rw [collect, written_cons, ih, List.flatMap_cons, Piece.source, List.nil_append]

/-! ### The pieces of a cut -/

theorem opensNone_nil : OpensNone [] := by
  rintro ⟨a, b, parts⟩
  simp at parts

/-- Nothing opens in a text if nothing opens at its first character and nothing in the rest. -/
theorem opensNone_cons {c : Char} {t : Text} :
    OpensNone (c :: t) ↔ ¬ (c = '$' ∧ t.head? = some '(') ∧ OpensNone t := by
  unfold OpensNone
  rw [List.infix_cons_iff, not_or]
  refine and_congr_left fun _ => not_congr ?_
  cases t with
  | nil => simp
  | cons d t => simp [List.cons_prefix_cons, eq_comm]

/-- Text in which nothing opens is plain, if nothing opens at its border either. -/
theorem pieces_append_of_opensNone {front rest : Text} (plain : OpensNone front) (border : rest.head? ≠ some '(') :
    pieces (front ++ rest) = front.map .char ++ pieces rest := by
  induction front with
  | nil => rfl
  | cons c front ih =>
      obtain ⟨here, later⟩ := opensNone_cons.1 plain
      have notOpen : ¬ (c = '$' ∧ (front ++ rest).head? = some '(') := by
        rintro ⟨dollar, paren⟩
        cases front with
        | nil => exact border paren
        | cons d front => exact here ⟨dollar, paren⟩
      rw [List.cons_append, pieces_cons_of_not_open notOpen, ih later, List.map_cons, List.cons_append]

theorem pieces_of_opensNone {t : Text} (plain : OpensNone t) : pieces t = t.map .char := by
  have border : ([] : Text).head? ≠ some '(' := by simp
  have laidOut := pieces_append_of_opensNone plain border
  rwa [List.append_nil, pieces, List.append_nil] at laidOut

/-- A parenthesis that is never closed opens no substitution. -/
theorem open?_eq_none_iff {t : Text} : open? t = none ↔ Paren.close? t = none := by
  constructor
  · intro none
    cases closed : Paren.close? t with
    | none => rfl
    | some found =>
        obtain ⟨span, opens, -⟩ := open?_of_close? closed
        rw [none] at opens
        cases opens
  · intro none
    cases pair : Paren.closePair? t with
    | none => simp only [open?, pair, none]
    | some found =>
        rw [Paren.close?_of_closePair? pair] at none
        cases none

theorem close?_eq_none_of_unclosed {t : Text} (unclosed : Unclosed t) : Paren.close? t = none := by
  obtain ⟨rest, rfl, never⟩ := unclosed
  cases closed : Paren.close? ('(' :: rest) with
  | none => rfl
  | some found =>
      obtain ⟨balanced, parts⟩ := Paren.close?_eq_some_iff_balanced.1 closed
      exact absurd balanced (never _ _ (List.cons.inj parts).2)

theorem pieces_of_unclosed {t : Text} (unclosed : Unclosed t) : pieces ('$' :: t) = ('$' :: t).map .char := by
  have none := open?_eq_none_iff.2 (close?_eq_none_of_unclosed unclosed)
  obtain ⟨rest, rfl, -⟩ := unclosed
  rw [pieces, if_pos (by simp)]
  split
  · next found => rw [none] at found; cases found
  · rfl

/-- A substitution is found as it is written, whatever follows it. -/
theorem open?_of_proper {span : Span} (proper : span.Proper) {t rest : Text}
    (written : '$' :: t = span.source ++ rest) : open? t = some (span, rest) := by
  cases span with
  | arithmetic body =>
      obtain rfl : t = '(' :: '(' :: (body ++ ')' :: ')' :: rest) := by simpa [source] using written
      have pair : Paren.closePair? ('(' :: '(' :: (body ++ ')' :: ')' :: rest)) = some (body, rest) :=
        Paren.closePair?_eq_some_iff_balanced.2 ⟨proper, rfl⟩
      simp only [open?, pair]
  | command body =>
      obtain ⟨balanced, notPair⟩ := proper
      obtain rfl : t = '(' :: (body ++ ')' :: rest) := by simpa [source] using written
      have closed : Paren.close? ('(' :: (body ++ ')' :: rest)) = some (body, rest) :=
        Paren.close?_eq_some_iff_balanced.2 ⟨balanced, rfl⟩
      cases pair : Paren.closePair? ('(' :: (body ++ ')' :: rest)) with
      | none => simp only [open?, pair, closed]
      | some found =>
          -- a pair would close at the same place, with its own parentheses in the body
          have outer := Paren.close?_of_closePair? pair
          rw [closed] at outer
          obtain ⟨inner, -⟩ := Paren.closePair?_eq_some_iff_balanced.1 pair
          exact absurd (Prod.mk.inj (Option.some.inj outer)).1 (notPair _ inner)

theorem exists_cons_of_source (span : Span) (rest : Text) :
    ∃ t, span.source ++ rest = '$' :: t := by
  cases span <;> exact ⟨_, rfl⟩

theorem pieces_of_proper {span : Span} (proper : span.Proper) (rest : Text) :
    pieces (span.source ++ rest) = .span span :: pieces rest := by
  obtain ⟨t, begins⟩ := exists_cons_of_source span rest
  rw [begins, pieces_cons_of_open? (open?_of_proper proper begins.symm)]

/-- **The pieces of a text are its cut, laid out.** -/
theorem Cut.pieces_written {items : List Item} {last : Text} (cut : Cut items last) :
    pieces (written items last) = layout items last := by
  induction cut with
  | plain plain => exact pieces_of_opensNone plain
  | unclosed plain unclosed =>
      rw [written_nil, pieces_append_of_opensNone plain (by simp), pieces_of_unclosed unclosed, layout, List.map_append]
  | @next item items last plain proper _ ih =>
      obtain ⟨t, begins⟩ := exists_cons_of_source item.span (written items last)
      have border : (item.span.source ++ written items last).head? ≠ some '(' := by simp [begins]
      rw [written_cons, pieces_append_of_opensNone plain border, pieces_of_proper proper, ih, layout]

/-! ### Exactly one cut -/

theorem Cut.prepend {c : Char} {items : List Item} {last : Text} (cut : Cut items last)
    (notOpen : ¬ (c = '$' ∧ (written items last).head? = some '(')) :
    Cut (prepend c (items, last)).1 (prepend c (items, last)).2 := by
  -- the character behind `c` is that of the plain text, unless this is empty and a dollar sign follows
  have keep {front rest : Text} (plain : OpensNone front) (same : ¬ (c = '$' ∧ (front ++ rest).head? = some '(')) :
      OpensNone (c :: front) := by
    refine opensNone_cons.2 ⟨?_, plain⟩
    rintro ⟨dollar, paren⟩
    cases front with
    | nil => cases paren
    | cons d front => exact same ⟨dollar, paren⟩
  cases cut with
  | plain plain =>
      rw [written_nil, ← List.append_nil last] at notOpen
      exact .plain (keep plain notOpen)
  | unclosed plain unclosed => exact .unclosed (keep plain notOpen) unclosed
  | @next item items last plain proper rest =>
      rw [written_cons] at notOpen
      exact .next (keep plain notOpen) proper rest

theorem unclosed_of_close? {t : Text} (begins : t.head? = some '(') (none : Paren.close? t = none) : Unclosed t := by
  obtain ⟨rest, rfl⟩ := List.head?_eq_some_iff.1 begins
  refine ⟨rest, rfl, ?_⟩
  rintro body after rfl balanced
  rw [Paren.close?_eq_some_iff_balanced.2 ⟨balanced, rfl⟩] at none
  cases none

/-- What is found is a substitution. -/
theorem proper_of_open? {t rest : Text} {span : Span} (opens : open? t = some (span, rest)) : span.Proper := by
  unfold open? at opens
  split at opens
  · next found =>
    obtain ⟨rfl, -⟩ := Prod.mk.inj (Option.some.inj opens)
    exact (Paren.closePair?_eq_some_iff_balanced.1 found).1
  · next none =>
    split at opens
    · next body after found =>
      obtain ⟨rfl, -⟩ := Prod.mk.inj (Option.some.inj opens)
      obtain ⟨balanced, rfl⟩ := Paren.close?_eq_some_iff_balanced.1 found
      refine ⟨balanced, ?_⟩
      rintro inner within rfl
      have pair : Paren.closePair? ('(' :: ('(' :: (inner ++ [')']) ++ ')' :: after)) = some (inner, after) :=
        Paren.closePair?_eq_some_iff_balanced.2 ⟨within, by simp⟩
      rw [none] at pair
      cases pair
    · cases opens

/-- The pieces of every text are a cut. -/
theorem cut_collect_pieces (t : Text) : Cut (collect (pieces t)).1 (collect (pieces t)).2 := by
  fun_induction pieces t with
  | case1 => exact .plain opensNone_nil
  | case2 c t opens span rest found _ ih => exact .next opensNone_nil (proper_of_open? found) ih
  | case3 c t opens none =>
      obtain ⟨rfl, paren⟩ : c = '$' ∧ t.head? = some '(' := by simpa using opens
      have unclosed := unclosed_of_close? paren (open?_eq_none_iff.1 none)
      have laidOut : collect (.char '$' :: t.map .char) = ([], '$' :: t) := collect_layout [] ('$' :: t)
      rw [laidOut]
      exact .unclosed opensNone_nil unclosed
  | case4 c t notOpen ih =>
      refine ih.prepend ?_
      rw [written_collect, flatMap_source_pieces]
      simpa using notOpen

namespace Decomposition

variable {text : Text}

/-- The cut that the program makes. -/
def ofText (text : Text) : Decomposition text where
  items := (collect (pieces text)).1
  last := (collect (pieces text)).2
  cut := cut_collect_pieces text
  written_eq := by rw [written_collect, flatMap_source_pieces]

theorem layout_eq (d : Decomposition text) : layout d.items d.last = pieces text := by
  rw [← d.cut.pieces_written, d.written_eq]

/-- There is only one cut. -/
theorem unique (d d' : Decomposition text) : d = d' := by
  have same := collect_layout d.items d.last
  rw [d.layout_eq, ← d'.layout_eq, collect_layout] at same
  obtain ⟨items, last⟩ := Prod.mk.inj same
  exact Decomposition.ext items.symm last.symm

end Decomposition

/-! ### Replacing -/

section

variable {m : Type → Type} [Monad m] [LawfulMonad m] (onSpan : Span → m Text)

theorem assemble_append_plain (front : Text) (pieces : List Piece) :
    assemble onSpan (front.map .char ++ pieces) = (front ++ ·) <$> assemble onSpan pieces := by
  induction front with
  | nil => simp
  | cons c front ih =>
      rw [List.map_cons, List.cons_append, assemble, ih]
      simp

/-- Assembling a cut calls on the substitutions in order, and then fills the results in. -/
theorem assemble_layout (items : List Item) (last : Text) :
    assemble onSpan (layout items last) = do
      let results ← (items.map Item.span).mapM onSpan
      return fill items results last := by
  induction items with
  | nil =>
      have assembled := assemble_append_plain onSpan last []
      rw [List.append_nil, assemble] at assembled
      simp [layout, assembled, fill]
  | cons item items ih =>
      rw [layout, assemble_append_plain, assemble, ih, List.map_cons, List.mapM_cons]
      simp [fill]

theorem Decomposition.replace_eq {text : Text} (d : Decomposition text) :
    replace onSpan text = do
      let results ← d.spans.mapM onSpan
      return d.fill results := by
  rw [replace, ← d.layout_eq, assemble_layout]
  rfl

end

theorem fill_source (items : List Item) (last : Text) :
    fill items (items.map fun item => item.span.source) last = written items last := by
  induction items with
  | nil => rfl
  | cons item items ih => rw [List.map_cons, fill, ih, written_cons]

/-- Where every substitution is replaced by its own source, the text is left as it is. -/
theorem replace_source {m : Type → Type} [Monad m] [LawfulMonad m] (text : Text) :
    replace (fun span => (pure span.source : m Text)) text = pure text := by
  have d := Decomposition.ofText text
  rw [d.replace_eq, List.mapM_pure, pure_bind, Decomposition.fill, Decomposition.spans, List.map_map]
  exact congrArg pure ((fill_source d.items d.last).trans d.written_eq)

/-! ### What is called on -/

section

variable {σ ε : Type} {onSpan : Span → Run σ ε Text} {s s' : σ} {results : List Text}

/-- Write down every substitution that is called on. -/
def noting (onSpan : Span → Run σ ε Text) (span : Span) : Run (σ × List Span) ε Text := fun s =>
  let (outcome, after) := (onSpan span).exec s.1
  (outcome, (after, s.2 ++ [span]))

theorem exec_noting {span : Span} {outcome : Except ε Text} (ran : (onSpan span).exec s = (outcome, s'))
    (notes : List Span) : (noting onSpan span).exec (s, notes) = (outcome, (s', notes ++ [span])) := by
  change noting onSpan span (s, notes) = _
  rw [noting, ran]

/-- Calls that all succeed are all written down, and do what they did before. -/
theorem exec_mapM_noting {spans : List Span} (ran : (spans.mapM onSpan).exec s = (.ok results, s'))
    (notes : List Span) : (spans.mapM (noting onSpan)).exec (s, notes) = (.ok results, (s', notes ++ spans)) := by
  induction spans generalizing s results notes with
  | nil =>
      rw [List.mapM_nil, Run.exec_pure] at ran ⊢
      obtain ⟨rfl, rfl⟩ : [] = results ∧ s = s' := by simpa using ran
      rw [List.append_nil]
  | cons span spans ih =>
      rw [List.mapM_cons] at ran ⊢
      obtain ⟨result, t, first, rest⟩ := Run.exec_bind_eq_ok_iff.1 ran
      obtain ⟨others, u, later, last⟩ := Run.exec_bind_eq_ok_iff.1 rest
      obtain ⟨rfl, rfl⟩ : result :: others = results ∧ u = s' := by simpa using last
      rw [Run.exec_bind_of_ok (exec_noting first notes), Run.exec_bind_of_ok (ih later _), Run.exec_pure,
        List.append_assoc]
      rfl

/-- The first call that fails is the last one. -/
theorem exec_mapM_noting_of_error {front back : List Span} {span : Span} {t u : σ} {error : ε}
    (ran : (front.mapM onSpan).exec s = (.ok results, t)) (failed : (onSpan span).exec t = (.error error, u))
    (notes : List Span) :
    ((front ++ span :: back).mapM (noting onSpan)).exec (s, notes) = (.error error, (u, notes ++ (front ++ [span]))) := by
  rw [List.mapM_append, List.mapM_cons, Run.exec_bind_of_ok (exec_mapM_noting ran notes)]
  refine Run.exec_bind_of_error ?_
  rw [Run.exec_bind_of_error (exec_noting failed _), List.append_assoc]

end

/-- **Replacing keeps everything outside of the substitutions.**  A text has exactly one cut into substitutions and
plain text.  With the sources of the substitutions in their place it is the text again; with any other results it is
the same cut with these filled in, in order, so that a `$(` that is never closed and all behind it stay.  If every call
succeeds, the substitutions are called on one after the other; if one fails, its error is returned, and exactly those up to
it have been called on. -/
theorem replace_eq_decomposition (text : Text) :
    ∃ d : Decomposition text, (∀ d' : Decomposition text, d' = d) ∧
      (∀ {m : Type → Type} [Monad m] [LawfulMonad m],
        replace (fun span => (pure span.source : m Text)) text = pure text) ∧
      (∀ {m : Type → Type} [Monad m] [LawfulMonad m] (onSpan : Span → m Text),
        replace onSpan text = do
          let results ← d.spans.mapM onSpan
          return d.fill results) ∧
      ∀ {σ ε : Type} (onSpan : Span → Run σ ε Text) (s : σ),
        (∀ results s', (d.spans.mapM onSpan).exec s = (.ok results, s') →
          (replace (noting onSpan) text).exec (s, []) = (.ok (d.fill results), (s', d.spans))) ∧
        ∀ front span back results t error u, d.spans = front ++ span :: back →
          (front.mapM onSpan).exec s = (.ok results, t) → (onSpan span).exec t = (.error error, u) →
          (replace (noting onSpan) text).exec (s, []) = (.error error, (u, front ++ [span])) := by
  refine ⟨.ofText text, fun d' => d'.unique _, replace_source text, fun onSpan => Decomposition.replace_eq onSpan _,
    fun onSpan s => ⟨fun results s' ran => ?_, fun front span back results t error u parts ran failed => ?_⟩⟩
  · rw [(Decomposition.ofText text).replace_eq, Run.exec_bind_of_ok (exec_mapM_noting ran []), Run.exec_pure,
      List.nil_append]
  · rw [(Decomposition.ofText text).replace_eq, parts]
    refine Run.exec_bind_of_error ?_
    rw [exec_mapM_noting_of_error ran failed, List.nil_append]

/-- Commands are left as they are, and arithmetic fails. -/
def refuseArithmetic : Span → Run Unit Text Text
  | .command body => pure body
  | .arithmetic body => throw body

/-- The text `$((a) (b))+$((1))$(c` cut: what looks like arithmetic is a command, and the last parenthesis is never
closed. -/
def Decomposition.subshell : Decomposition "$((a) (b))+$((1))$(c".toList where
  items := [⟨[], .command "(a) (b)".toList⟩, ⟨['+'], .arithmetic ['1']⟩]
  last := "$(c".toList
  cut := by
    have command : open? "((a) (b))".toList = some (.command "(a) (b)".toList, []) := by decide
    have arithmetic : open? "((1))".toList = some (.arithmetic ['1'], []) := by decide
    have plain : OpensNone ['+'] := by
      unfold OpensNone
      decide
    refine .next opensNone_nil (proper_of_open? command) (.next plain (proper_of_open? arithmetic) ?_)
    exact .unclosed opensNone_nil (unclosed_of_close? rfl (by decide))
  written_eq := by decide

/-- The statement where the second call fails, and where it is given the source. -/
theorem replace_subshell :
    replace (fun span => (pure span.source : Id Text)) "$((a) (b))+$((1))$(c".toList = "$((a) (b))+$((1))$(c".toList ∧
    (replace (noting refuseArithmetic) "$((a) (b))+$((1))$(c".toList).exec ((), []) =
      (.error ['1'], ((), [.command "(a) (b)".toList, .arithmetic ['1']])) := by
  obtain ⟨d, unique, sources, -, calls⟩ := replace_eq_decomposition "$((a) (b))+$((1))$(c".toList
  obtain rfl := unique .subshell
  refine ⟨sources, ?_⟩
  exact (calls refuseArithmetic ()).2 [.command "(a) (b)".toList] (.arithmetic ['1']) [] _ () ['1'] () rfl rfl rfl

end ShellWord.Span
