import ShellWord.Arith.Dollar
import ShellWord.Arith.Span

/-!
# Substitutions keep their text

Arithmetic text goes through two passes before it is evaluated: `Dollar.fill` puts numbers in the
place of parameters, and `Span.pieces` then looks for `$(…)` and `$((…))` in what came out.  The second
pass reads a text that the first one has rewritten with data.  `source_infix_of_mem_pieces_fill`
says that this makes no difference: whatever values are put in, every substitution found stands,
character by character, in the text before the rewriting.

### What is load-bearing

`Paren.Body mode depth body` says, without a scan, that `body` runs up to the parenthesis that closes
`depth + 1` open ones.  The scan finds exactly the bodies (`Body.of_scan`, `Body.scan_append`), so what
it finds does not depend on the text after the closing parenthesis; this is why a substitution that the
first pass copied is found again, whatever the first pass made of the text after it.

No replacement can begin a substitution, because numerals have no dollar sign (`dollar_not_mem_numeric`),
and a dollar sign that the first pass leaves alone is never followed by a parenthesis that was not
there before (`head?_fill`).
-/

namespace ShellWord.Paren

/-! ### Bodies of parentheses -/

/-- The texts that lead from inside a parenthesis, with `depth` more of them open and in the quotes
`mode`, to the place right before the parenthesis that closes it. -/
inductive Body : Mode → Nat → Text → Prop
  | done : Body .plain 0 []
  | single {depth : Nat} {t : Text} (c : Char) :
      Body (if c == '\x27' then .plain else .single) depth t → Body .single depth (c :: t)
  | doubleEscape {depth : Nat} {t : Text} (c : Char) :
      Body .double depth t → Body .double depth ('\\' :: c :: t)
  | double {depth : Nat} {t : Text} (c : Char) : c ≠ '\\' →
      Body (if c == '\x22' then .plain else .double) depth t → Body .double depth (c :: t)
  | escape {depth : Nat} {t : Text} (c : Char) :
      Body .plain depth t → Body .plain depth ('\\' :: c :: t)
  | opening {depth : Nat} {t : Text} :
      Body .plain (depth + 1) t → Body .plain depth ('(' :: t)
  | closing {depth : Nat} {t : Text} :
      Body .plain depth t → Body .plain (depth + 1) (')' :: t)
  | plain {depth : Nat} {t : Text} (c : Char) : c ≠ '\\' → c ≠ '(' → c ≠ ')' →
      Body (if c == '\x27' then .single else if c == '\x22' then .double else .plain) depth t →
      Body .plain depth (c :: t)

private theorem scan_nil (mode : Mode) (depth : Nat) : scan mode depth [] = none := by
  cases mode <;> rfl

/-- What the scan finds is a body, with the parenthesis and the rest after it. -/
theorem Body.of_scan {mode : Mode} {depth : Nat} {t body rest : Text}
    (h : scan mode depth t = some (body, rest)) :
    Body mode depth body ∧ t = body ++ ')' :: rest := by
  fun_induction scan mode depth t generalizing body with
  | case1 => simp at h
  | case2 depth c t ih =>
      obtain ⟨inner, found, rfl⟩ := Text.extend_eq_some_iff.1 h
      exact ⟨.single c (ih found).1, congrArg (c :: ·) (ih found).2⟩
  | case3 depth c t ih =>
      obtain ⟨_, outer, rfl⟩ := Text.extend_eq_some_iff.1 h
      obtain ⟨inner, found, rfl⟩ := Text.extend_eq_some_iff.1 outer
      exact ⟨.doubleEscape c (ih found).1, congrArg ('\\' :: c :: ·) (ih found).2⟩
  | case4 depth c t lone ih =>
      obtain ⟨inner, found, rfl⟩ := Text.extend_eq_some_iff.1 h
      -- a backslash here would be the last character, and nothing closes after it
      have notEscape : c ≠ '\\' := by
        rintro rfl
        rcases t with _ | ⟨d, t⟩
        · simp [scan_nil] at found
        · exact lone d t rfl rfl
      exact ⟨.double c notEscape (ih found).1, congrArg (c :: ·) (ih found).2⟩
  | case5 depth c t ih =>
      obtain ⟨_, outer, rfl⟩ := Text.extend_eq_some_iff.1 h
      obtain ⟨inner, found, rfl⟩ := Text.extend_eq_some_iff.1 outer
      exact ⟨.escape c (ih found).1, congrArg ('\\' :: c :: ·) (ih found).2⟩
  | case6 depth t ih =>
      obtain ⟨inner, found, rfl⟩ := Text.extend_eq_some_iff.1 h
      exact ⟨.opening (ih found).1, congrArg ('(' :: ·) (ih found).2⟩
  | case7 t =>
      simp only [Option.some.injEq, Prod.mk.injEq] at h
      obtain ⟨rfl, rfl⟩ := h
      exact ⟨.done, rfl⟩
  | case8 depth t ih =>
      obtain ⟨inner, found, rfl⟩ := Text.extend_eq_some_iff.1 h
      exact ⟨.closing (ih found).1, congrArg (')' :: ·) (ih found).2⟩
  | case9 depth c t lone notOpening notLast notClose ih =>
      obtain ⟨inner, found, rfl⟩ := Text.extend_eq_some_iff.1 h
      have notEscape : c ≠ '\\' := by
        rintro rfl
        rcases t with _ | ⟨d, t⟩
        · simp [scan_nil] at found
        · exact lone d t rfl rfl
      have notClosing : c ≠ ')' := by
        rintro rfl
        cases depth with
        | zero => exact notLast rfl rfl
        | succ depth => exact notClose depth rfl rfl
      exact ⟨.plain c notEscape notOpening notClosing (ih found).1, congrArg (c :: ·) (ih found).2⟩

/-- A body is found by the scan, whatever stands after its parenthesis. -/
theorem Body.scan_append {mode : Mode} {depth : Nat} {body : Text} (h : Body mode depth body)
    (rest : Text) : scan mode depth (body ++ ')' :: rest) = some (body, rest) := by
  induction h with
  | done => simp [scan]
  | single c _ ih => simp only [List.cons_append, scan, ih, Text.extend]
  | doubleEscape c _ ih => simp only [List.cons_append, scan, ih, Text.extend]
  | double c notEscape _ ih =>
      rw [List.cons_append, scan, ih, Text.extend]
      exact fun _ _ isEscape => absurd isEscape notEscape
  | escape c _ ih => simp only [List.cons_append, scan, ih, Text.extend]
  | opening _ ih => simp only [List.cons_append, scan, ih, Text.extend]
  | closing _ ih => simp only [List.cons_append, scan, ih, Text.extend]
  | plain c notEscape notOpening notClosing _ ih =>
      rw [List.cons_append, scan, ih, Text.extend] <;> simp_all

/-- The parenthesis after a body belongs to the body of the next one out. -/
theorem Body.snoc {mode : Mode} {depth : Nat} {body : Text} (h : Body mode depth body) :
    Body mode (depth + 1) (body ++ [')']) := by
  induction h with
  | done => exact .closing .done
  | single c _ ih => exact .single c ih
  | doubleEscape c _ ih => exact .doubleEscape c ih
  | double c notEscape _ ih => exact .double c notEscape ih
  | escape c _ ih => exact .escape c ih
  | opening _ ih => exact .opening ih
  | closing _ ih => exact .closing ih
  | plain c notEscape notOpening notClosing _ ih =>
      exact .plain c notEscape notOpening notClosing ih

theorem close?_eq_some_iff {t body rest : Text} :
    close? t = some (body, rest) ↔ Body .plain 0 body ∧ t = '(' :: (body ++ ')' :: rest) := by
  constructor
  · intro h
    unfold close? at h
    split at h
    · obtain ⟨isBody, rfl⟩ := Body.of_scan h
      exact ⟨isBody, rfl⟩
    · simp at h
  · rintro ⟨isBody, rfl⟩
    exact isBody.scan_append rest

theorem closePair?_eq_some_iff {t body rest : Text} :
    closePair? t = some (body, rest) ↔
      Body .plain 0 body ∧ t = '(' :: '(' :: (body ++ ')' :: ')' :: rest) := by
  constructor
  · intro h
    unfold closePair? at h
    split at h
    · split at h
      · next _ _ found =>
        simp only [Option.some.injEq, Prod.mk.injEq] at h
        obtain ⟨rfl, rfl⟩ := h
        obtain ⟨isBody, rfl⟩ := close?_eq_some_iff.1 found
        exact ⟨isBody, rfl⟩
      · simp at h
    · simp at h
  · rintro ⟨isBody, rfl⟩
    have inner : close? ('(' :: (body ++ ')' :: ')' :: rest)) = some (body, ')' :: rest) :=
      close?_eq_some_iff.2 ⟨isBody, rfl⟩
    simp only [closePair?, inner]

/-- A pair that closes is a parenthesis that closes, with the inner parentheses in its body. -/
theorem close?_of_closePair? {t body rest : Text} (h : closePair? t = some (body, rest)) :
    close? t = some ('(' :: (body ++ [')']), rest) := by
  obtain ⟨isBody, rfl⟩ := closePair?_eq_some_iff.1 h
  exact close?_eq_some_iff.2 ⟨.opening isBody.snoc, by simp⟩

end ShellWord.Paren

namespace ShellWord.Span

/-! ### The decomposition into pieces -/

/-- A span that opens a text is written in front of what follows it. -/
theorem dollar_cons_eq_source_append {t rest : Text} {span : Span}
    (h : open? t = some (span, rest)) : '$' :: t = span.source ++ rest := by
  unfold open? at h
  split at h
  · next found =>
    simp only [Option.some.injEq, Prod.mk.injEq] at h
    obtain ⟨rfl, rfl⟩ := h
    obtain ⟨-, rfl⟩ := Paren.closePair?_eq_some_iff.1 found
    simp [source]
  · split at h
    · next found =>
      simp only [Option.some.injEq, Prod.mk.injEq] at h
      obtain ⟨rfl, rfl⟩ := h
      obtain ⟨-, rfl⟩ := Paren.close?_eq_some_iff.1 found
      simp [source]
    · simp at h

/-- Behind a dollar sign, a parenthesis that closes opens a span: its text is the parenthesis, and
what follows the span is what follows the parenthesis. -/
theorem open?_of_close? {t body rest : Text} (h : Paren.close? t = some (body, rest)) :
    ∃ span, open? t = some (span, rest) ∧ span.source = '$' :: '(' :: (body ++ [')']) := by
  cases pair : Paren.closePair? t with
  | none => exact ⟨.command body, by simp only [open?, pair, h], rfl⟩
  | some found =>
      obtain ⟨inner, after⟩ := found
      have outer := Paren.close?_of_closePair? pair
      rw [h] at outer
      simp only [Option.some.injEq, Prod.mk.injEq] at outer
      obtain ⟨rfl, rfl⟩ := outer
      exact ⟨.arithmetic inner, by simp only [open?, pair], by simp [source]⟩

/-- A character that opens no span is a piece of its own. -/
theorem pieces_cons_of_not_open {c : Char} {t : Text} (h : ¬ (c = '$' ∧ t.head? = some '(')) :
    pieces (c :: t) = .char c :: pieces t := by
  rw [pieces, if_neg (by simpa using h)]

theorem pieces_cons_of_open? {t rest : Text} {span : Span} (h : open? t = some (span, rest)) :
    pieces ('$' :: t) = .span span :: pieces rest := by
  have opens : t.head? = some '(' := by
    have source := dollar_cons_eq_source_append h
    cases span <;> simp only [Span.source, List.cons_append, List.cons.injEq] at source <;>
      simp [source.2]
  rw [pieces, if_pos (by simp [opens])]
  split
  · next found =>
    rw [h] at found
    simp only [Option.some.injEq, Prod.mk.injEq] at found
    rw [found.1, found.2]
  · next found => simp [h] at found

/-- Text without dollar signs has no span in it, and none that begins in it. -/
theorem span_mem_pieces_append {a : Text} (h : '$' ∉ a) (t : Text) {span : Span} :
    .span span ∈ pieces (a ++ t) ↔ .span span ∈ pieces t := by
  induction a with
  | nil => rfl
  | cons c a ih =>
      simp only [List.mem_cons, not_or] at h
      rw [List.cons_append, pieces_cons_of_not_open (fun opens => h.1 opens.1.symm)]
      simpa using ih h.2

/-- The pieces of a text are written one after the other. -/
theorem flatMap_source_pieces (t : Text) : (pieces t).flatMap Piece.source = t := by
  fun_induction pieces t with
  | case1 => rfl
  | case2 c t opens span rest found _ ih =>
      obtain ⟨rfl, -⟩ : c = '$' ∧ t.head? = some '(' := by simpa using opens
      rw [List.flatMap_cons, ih, dollar_cons_eq_source_append found]
      rfl
  | case3 c t opens found =>
      have plain (a : Text) : (a.map Piece.char).flatMap Piece.source = a := by
        induction a with
        | nil => rfl
        | cons d a ih => exact congrArg (d :: ·) ih
      exact congrArg (c :: ·) (plain t)
  | case4 c t opens ih => exact congrArg (c :: ·) ih

/-- Every substitution stands in the text it was found in. -/
theorem source_infix_of_mem_pieces {t : Text} {span : Span} (h : .span span ∈ pieces t) :
    span.source <:+: t := by
  have written : span.source ∈ (pieces t).map Piece.source :=
    List.mem_map.2 ⟨.span span, h, rfl⟩
  have within := List.infix_of_mem_flatten written
  rwa [← List.flatMap_def, flatMap_source_pieces] at within

end ShellWord.Span

namespace ShellWord.Dollar

/-! ### Replacing parameters keeps the substitutions -/

private theorem isSome_of_mem_digits {value? : Char → Option Nat} {base : Nat} {t : Text}
    {ds : List Nat} (h : Numeral.digits? value? base t = some ds) {c : Char} (mem : c ∈ t) :
    (value? c).isSome := by
  induction t generalizing ds with
  | nil => simp at mem
  | cons d t ih =>
      rw [Numeral.digits?] at h
      split at h
      · next n value =>
        split at h
        · obtain ⟨rest, found, -⟩ := Option.map_eq_some_iff.1 h
          rcases List.mem_cons.1 mem with rfl | mem
          · rw [value]
            rfl
          · exact ih found mem
        · simp at h
      · simp at h

private theorem dollar_not_mem_of_natural {base : Nat} {t : Text} {n : Nat}
    (h : Numeral.natural? base t = some n) : '$' ∉ t := by
  intro mem
  unfold Numeral.natural? at h
  split at h
  · simp at h
  · obtain ⟨ds, found, -⟩ := Option.map_eq_some_iff.1 h
    exact absurd (isSome_of_mem_digits found mem) (by decide)

/-- A decimal numeral has no dollar sign. -/
theorem dollar_not_mem_of_isDecimal {t : Text} (h : Numeral.isDecimal t = true) : '$' ∉ t := by
  unfold Numeral.isDecimal Numeral.signed? at h
  obtain ⟨n, h⟩ := Option.isSome_iff_exists.1 h
  obtain ⟨h, -⟩ := Option.filter_eq_some_iff.1 h
  split at h
  all_goals
    obtain ⟨m, found, -⟩ := Option.map_eq_some_iff.1 h
  · obtain ⟨k, found, -⟩ := Option.bind_eq_some_iff.1 found
    simpa using dollar_not_mem_of_natural found
  · simpa using dollar_not_mem_of_natural found
  · exact dollar_not_mem_of_natural found

/-- Nor has the number that stands for a parameter. -/
theorem dollar_not_mem_numeric (value : Option Text) : '$' ∉ numeric value := by
  unfold numeric
  split
  · split
    · next decimal => exact dollar_not_mem_of_isDecimal decimal
    · decide
  · decide

/-- A cut takes out one character, which satisfies the test. -/
theorem exists_of_cutAt? {p : Char → Bool} {t a b : Text} (h : Text.cutAt? p t = some (a, b)) :
    ∃ c, p c = true ∧ t = a ++ c :: b := by
  induction t generalizing a with
  | nil => simp at h
  | cons c t ih =>
      unfold Text.cutAt? at h
      split at h
      · next here =>
        simp only [Option.some.injEq, Prod.mk.injEq] at h
        exact ⟨c, here, by rw [← h.1, ← h.2, List.nil_append]⟩
      · obtain ⟨⟨inner, after⟩, found, same⟩ := Option.map_eq_some_iff.1 h
        simp only [Prod.mk.injEq] at same
        obtain ⟨d, here, rfl⟩ := ih (same.2 ▸ found)
        exact ⟨d, here, by rw [← same.1, List.cons_append]⟩

/-- Text at the end of the pieces stays as it is. -/
theorem fill_plain (text : Text) (values : List (Option Text)) : fill [.plain text] values = text := by
  rw [fill, fill, List.append_nil]

/-- A text that does not begin with a dollar sign still begins with the same character. -/
theorem head?_fill {c : Char} (h : c ≠ '$') (t : Text) (values : List (Option Text)) :
    (fill (pieces (c :: t)) values).head? = some c := by
  unfold pieces
  cases t with
  | nil => rfl
  | cons d t => simp [h, fill]

/-- **Substitutions found after the replacing were there before it**, whatever values are put in. -/
theorem source_infix_of_mem_pieces_fill (t : Text) (values : List (Option Text)) {span : Span}
    (h : .span span ∈ Span.pieces (fill (pieces t) values)) : span.source <:+: t := by
  fun_induction pieces t generalizing values with
  | case1 => simp [fill, Span.pieces] at h
  | case2 c =>
      rw [fill_plain] at h
      exact Span.source_infix_of_mem_pieces h
  | case3 c d rest notDollar ih =>
      have plain : ¬ (c = '$' ∧ (fill (pieces (d :: rest)) values).head? = some '(') :=
        fun opens => (by simpa using notDollar : c ≠ '$') opens.1
      rw [fill, List.singleton_append, Span.pieces_cons_of_not_open plain] at h
      exact List.infix_cons (ih values (by simpa using h))
  | case4 c d rest isDollar paren body after closed _ ih =>
      obtain rfl : c = '$' := by simpa using isDollar
      obtain ⟨isBody, same⟩ := Paren.close?_eq_some_iff.1 closed
      -- the copied parenthesis closes at the same place, though other text follows it now
      have copied : Paren.close? ('(' :: (body ++ ')' :: fill (pieces after) values)) =
          some (body, fill (pieces after) values) := Paren.close?_eq_some_iff.2 ⟨isBody, rfl⟩
      obtain ⟨first, opens, source⟩ := Span.open?_of_close? copied
      rw [fill, List.cons_append, List.cons_append, List.append_assoc, List.singleton_append,
        Span.pieces_cons_of_open? opens] at h
      rw [same]
      rcases List.mem_cons.1 h with isFirst | later
      · obtain rfl : span = first := by simpa using isFirst
        rw [source]
        exact ⟨[], after, by simp⟩
      · have := ih values later
        exact this.trans ⟨'$' :: '(' :: (body ++ [')']), [], by simp⟩
  | case5 =>
      rw [fill_plain] at h
      exact Span.source_infix_of_mem_pieces h
  | case6 c d rest isDollar notParen brace name after closed _ ih =>
      rw [fill, Span.span_mem_pieces_append (dollar_not_mem_numeric _)] at h
      obtain ⟨close, -, rfl⟩ := exists_of_cutAt? closed
      exact (ih _ h).trans ⟨c :: d :: (name ++ [close]), [], by simp⟩
  | case7 =>
      rw [fill_plain] at h
      exact Span.source_infix_of_mem_pieces h
  | case8 c d rest isDollar notParen notBrace isName ih =>
      rw [fill, Span.span_mem_pieces_append (dollar_not_mem_numeric _)] at h
      have within : rest.dropWhile Text.isNameChar <:+ c :: d :: rest :=
        (List.dropWhile_suffix _).trans (List.suffix_append [c, d] rest)
      exact (ih _ h).trans within.isInfix
  | case9 c d rest isDollar notParen notBrace notName special ih =>
      rw [fill, Span.span_mem_pieces_append (dollar_not_mem_numeric _)] at h
      exact (ih _ h).trans (List.suffix_append [c, d] rest).isInfix
  | case10 c d rest isDollar notParen notBrace notName notSpecial ih =>
      -- a second dollar sign would be the special parameter, so `d` is copied as it is
      have notDollar : d ≠ '$' := by
        rintro rfl
        exact notSpecial (by decide)
      have plain : ¬ ('$' = '$' ∧ (fill (pieces (d :: rest)) values).head? = some '(') := by
        rw [head?_fill notDollar]
        simpa using notParen
      rw [fill, List.singleton_append, Span.pieces_cons_of_not_open plain] at h
      exact List.infix_cons (ih values (by simpa using h))

end ShellWord.Dollar
