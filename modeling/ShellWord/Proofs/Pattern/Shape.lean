import ShellWord.Pattern.Escape
import ShellWord.Proofs.Pattern.Expression

/-!
# Patterns and what they mean

A pattern is written for the set of texts it should match.  A `Shape` is such an intention: characters, `?`
and `*`, one after the other, and groups of alternatives that occur once, any number of times, at least once
or at most once, nested as deep as one likes.  `Shape.language` is the set of texts, built from the operations
on languages alone, and `Shape.render` writes the pattern down, with a backslash in front of every character
that could be read as something else.

The written pattern is taken apart by four scanners that know nothing of each other: `translate` looks for the
next piece, `Group.close?` for the parenthesis that ends a group, `Group.alternatives` for the bars between its
alternatives, and `excludes` for a negated group.  What comes of it is the text of a regular expression, in which
whatever has a meaning is escaped, and the engine takes that text apart again.  The main theorem says that the
intention survives all of this: `accepts_render_iff` holds for every shape, every standard engine and every text.

### What is load-bearing

Everything rests on what a rendered shape is in front of an arbitrary text `t`: a scanner passes over it and goes
on with `t`.  For the three scanners that go character by character this is one argument, and `PassesOver` lists
what it asks of them.  `translate` takes a group at once, so it has an argument of its own; there a wildcard
needs that `t` does not begin with a parenthesis, and no rendered shape does.

`Shape.expression` is the text that a shape is rewritten into and `Shape.factors` are the expressions that this
text denotes; both follow the shape, and so does their comparison.
-/

namespace ShellWord

namespace Group

open scoped Computability

/-- How often the alternatives of a group have to occur in a row. -/
inductive Count where
  | once
  | anyNumber
  | atLeastOnce
  | atMostOnce
  deriving DecidableEq, Repr

/-- The mark of a group that counts. -/
def Count.mark : Count → Mark
  | .once => .once
  | .anyNumber => .anyNumber
  | .atLeastOnce => .atLeastOnce
  | .atMostOnce => .atMostOnce

/-- The character in front of a group. -/
def Count.char : Count → Char
  | .once => '@'
  | .anyNumber => '*'
  | .atLeastOnce => '+'
  | .atMostOnce => '?'

theorem Count.ofChar?_char (count : Count) : Mark.ofChar? count.char = some count.mark := by
  cases count <;> rfl

/-- The texts that are so many texts of a language in a row. -/
def Count.repeats : Count → Language Char → Language Char
  | .once, l => l
  | .anyNumber, l => l∗
  | .atLeastOnce, l => l * l∗
  | .atMostOnce, l => l + 1

/-- The expression of a group that counts, given that of its alternatives. -/
def Count.regex (count : Count) (inner : Regex) : Regex :=
  count.mark.regex .anything inner

theorem Count.expression_mark (count : Count) (exclusion : Exclusion) (alternatives : Text) :
    count.mark.expression exclusion alternatives = count.mark.expression .anything alternatives := by
  cases count <;> rfl

theorem Count.language_regex (count : Count) (inner : Regex) :
    (count.regex inner).language = count.repeats inner.language := by
  cases count with
  | atMostOnce => exact add_comm _ _
  | _ => rfl

theorem Count.nesting_regex (count : Count) (inner : Regex) :
    (count.regex inner).nesting = inner.nesting + 1 := by
  cases count <;> rfl

theorem Count.height_regex_le (count : Count) (inner : Regex) :
    (count.regex inner).height ≤ inner.height + 1 := by
  cases count with
  | once => exact Nat.le_succ _
  | _ => exact Nat.le_refl _

end Group

namespace Pattern

open Regex (Reads Factors)

mutual
/-- What a pattern without brackets and negated groups is meant to say. -/
inductive Shape where
  | empty
  | char (c : Char)
  | anyChar
  | anyText
  | seq (first second : Shape)
  | group (count : Group.Count) (alternatives : Shapes)
/-- The alternatives of a group; there is at least one, and it may be empty. -/
inductive Shapes where
  | last (shape : Shape)
  | more (shape : Shape) (others : Shapes)
end

mutual
/-- The texts that are meant. -/
def Shape.language : Shape → Language Char
  | .empty => 1
  | .char c => {[c]}
  | .anyChar => {t | ∃ c, t = [c]}
  | .anyText => ⊤
  | .seq first second => first.language * second.language
  | .group count alternatives => count.repeats alternatives.language
/-- The texts that one of the alternatives means. -/
def Shapes.language : Shapes → Language Char
  | .last shape => shape.language
  | .more shape others => shape.language + others.language
end

mutual
/-- The pattern as it is written. -/
def Shape.render : Shape → Text
  | .empty => []
  | .char c => escape [c]
  | .anyChar => ['?']
  | .anyText => ['*']
  | .seq first second => first.render ++ second.render
  | .group count alternatives => count.char :: '(' :: (alternatives.render ++ [')'])
/-- The alternatives with bars between them. -/
def Shapes.render : Shapes → Text
  | .last shape => shape.render
  | .more shape others => shape.render ++ '|' :: others.render
end

mutual
/-- How deep groups are nested. -/
def Shape.depth : Shape → Nat
  | .seq first second => max first.depth second.depth
  | .group _ alternatives => alternatives.depth + 1
  | _ => 0
/-- How deep groups are nested in the alternatives. -/
def Shapes.depth : Shapes → Nat
  | .last shape => shape.depth
  | .more shape others => max shape.depth others.depth
end

/-- The alternatives as a list. -/
def Shapes.toList : Shapes → List Shape
  | .last shape => [shape]
  | .more shape others => shape :: others.toList

/-! ### Passing over a rendered shape -/

/-- The characters that are written without a backslash in a shape, parentheses and bars apart. -/
def isBare (c : Char) : Bool :=
  !isSpecial c || c == '?' || c == '*' || c == '@' || c == '+'

theorem ne_of_isBare {c d : Char} (h : isBare c = true) (other : isBare d = false) : c ≠ d := by
  rintro rfl
  rw [h] at other
  cases other

theorem isBare_char (count : Group.Count) : isBare count.char = true := by
  cases count <;> rfl

theorem escapeChar_cases (c : Char) :
    escapeChar c = ['\\', c] ∨ escapeChar c = [c] ∧ isSpecial c = false := by
  unfold escapeChar
  cases h : isSpecial c with
  | true => exact .inl rfl
  | false => exact .inr ⟨rfl, rfl⟩

theorem escape_singleton (c : Char) : escape [c] = escapeChar c := by
  simp [escape]

/-- A scanner that counts parentheses goes on, behind what it has no use for, as if it began there.  What it
passes over is added to its result by `keep`.  Bars may have a use outside of the parentheses, below the depth
`least`. -/
structure PassesOver {β : Type} (scan : Nat → Text → β) (keep : Text → β → β) (least : Nat) : Prop where
  least_le : least ≤ 1
  nil : ∀ depth t, keep [] (scan depth t) = scan depth t
  append : ∀ a b result, keep (a ++ b) result = keep a (keep b result)
  bare : ∀ {c}, isBare c = true → ∀ depth t, scan depth (c :: t) = keep [c] (scan depth t)
  escaped : ∀ c depth t, scan depth ('\\' :: c :: t) = keep ['\\', c] (scan depth t)
  opening : ∀ depth t, scan depth ('(' :: t) = keep ['('] (scan (depth + 1) t)
  closing : ∀ depth t, scan (depth + 1) (')' :: t) = keep [')'] (scan depth t)
  bar : ∀ {depth}, least ≤ depth → ∀ t, scan depth ('|' :: t) = keep ['|'] (scan depth t)

section

variable {β : Type} {scan : Nat → Text → β} {keep : Text → β → β} {least : Nat}

theorem PassesOver.escapeChar (passes : PassesOver scan keep least) (c : Char) (depth : Nat) (t : Text) :
    scan depth (escapeChar c ++ t) = keep (Pattern.escapeChar c) (scan depth t) := by
  rcases escapeChar_cases c with escaped | ⟨bare, ordinary⟩
  · rw [escaped]
    exact passes.escaped c depth t
  · rw [bare]
    exact passes.bare (by simp [isBare, ordinary]) depth t

mutual
/-- A scanner passes over a rendered shape. -/
theorem Shape.scan_render_append (passes : PassesOver scan keep least) (p : Shape) (depth : Nat) (t : Text) :
    scan depth (p.render ++ t) = keep p.render (scan depth t) := by
  match p with
  | .empty => exact (passes.nil depth t).symm
  | .char c =>
      rw [Shape.render, escape_singleton]
      exact passes.escapeChar c depth t
  | .anyChar => exact passes.bare rfl depth t
  | .anyText => exact passes.bare rfl depth t
  | .seq first second =>
      rw [Shape.render, List.append_assoc, first.scan_render_append passes, second.scan_render_append passes,
        passes.append]
  | .group count alternatives =>
      have inner := alternatives.scan_render_append passes
        (Nat.le_trans passes.least_le (Nat.le_add_left 1 depth)) (')' :: t)
      calc scan depth ((Shape.group count alternatives).render ++ t)
        _ = scan depth (count.char :: '(' :: (alternatives.render ++ ')' :: t)) := by simp [Shape.render]
        _ = keep [count.char] (keep ['('] (keep alternatives.render (keep [')'] (scan depth t)))) := by
          rw [passes.bare (isBare_char count), passes.opening, inner, passes.closing]
        _ = keep (Shape.group count alternatives).render (scan depth t) := by
          rw [← passes.append, ← passes.append, ← passes.append]
          simp [Shape.render]
/-- Where bars have no use, it passes over rendered alternatives as well. -/
theorem Shapes.scan_render_append (passes : PassesOver scan keep least) (ps : Shapes) {depth : Nat}
    (deep : least ≤ depth) (t : Text) :
    scan depth (ps.render ++ t) = keep ps.render (scan depth t) := by
  match ps with
  | .last shape => exact shape.scan_render_append passes depth t
  | .more shape others =>
      rw [Shapes.render, List.append_assoc, List.cons_append, shape.scan_render_append passes,
        passes.bar deep, others.scan_render_append passes deep, ← passes.append, ← passes.append]
      simp
end

end

/-! ### The end of a group -/

/-- The body found is longer by a text in front. -/
def bodyAfter (front : Text) : Option (Text × Text) → Option (Text × Text) :=
  Option.map fun found => (front ++ found.1, found.2)

theorem extend_eq_bodyAfter (c : Char) (found : Option (Text × Text)) :
    Text.extend c found = bodyAfter [c] found := by
  cases found <;> rfl

theorem close?_cons {c : Char} (backslash : c ≠ '\\') (opening : c ≠ '(') (closing : c ≠ ')')
    (depth : Nat) (t : Text) :
    Group.close? depth (c :: t) = bodyAfter [c] (Group.close? depth t) := by
  rw [Group.close?.eq_def]
  split <;> simp_all [extend_eq_bodyAfter]

theorem passesOver_close? : PassesOver Group.close? bodyAfter 0 where
  least_le := Nat.zero_le 1
  nil depth t := by cases Group.close? depth t <;> rfl
  append a b found := by cases found <;> simp [bodyAfter]
  bare h := close?_cons (ne_of_isBare h rfl) (ne_of_isBare h rfl) (ne_of_isBare h rfl)
  escaped c depth t := by
    rw [Group.close?, extend_eq_bodyAfter, extend_eq_bodyAfter]
    cases Group.close? depth t <;> rfl
  opening depth t := by rw [Group.close?, extend_eq_bodyAfter]
  closing depth t := by rw [Group.close?, extend_eq_bodyAfter]
  bar _ := close?_cons (by decide) (by decide) (by decide) _

/-- The body of a rendered group ends at its own parenthesis. -/
theorem Shapes.close?_render (ps : Shapes) (t : Text) :
    Group.close? 0 (ps.render ++ ')' :: t) = some (ps.render, t) := by
  rw [ps.scan_render_append passesOver_close? (Nat.le_refl 0)]
  simp [Group.close?, bodyAfter]

/-! ### The bars of a group -/

theorem alternativesAt_ne_nil (depth : Nat) (t : Text) : Group.alternativesAt depth t ≠ [] := by
  have prepended (a : Text) (l : List Text) : Group.prepend a l ≠ [] := by
    cases l <;> simp [Group.prepend]
  rw [Group.alternativesAt.eq_def]
  split <;> simp [prepended]

theorem alternativesAt_cons {c : Char} (backslash : c ≠ '\\') (opening : c ≠ '(') (closing : c ≠ ')')
    {depth : Nat} (bar : c ≠ '|' ∨ depth ≠ 0) (t : Text) :
    Group.alternativesAt depth (c :: t) = Group.prepend [c] (Group.alternativesAt depth t) := by
  rw [Group.alternativesAt.eq_def]
  split <;> simp_all

theorem passesOver_alternativesAt : PassesOver Group.alternativesAt Group.prepend 1 where
  least_le := Nat.le_refl 1
  nil depth t := by
    cases h : Group.alternativesAt depth t with
    | nil => exact absurd h (alternativesAt_ne_nil depth t)
    | cons => rfl
  append a b l := by cases l <;> simp [Group.prepend]
  bare h depth t :=
    alternativesAt_cons (ne_of_isBare h rfl) (ne_of_isBare h rfl) (ne_of_isBare h rfl)
      (.inl (ne_of_isBare h rfl)) t
  escaped c depth t := by rw [Group.alternativesAt]
  opening depth t := by rw [Group.alternativesAt]
  closing depth t := by rw [Group.alternativesAt, Nat.add_sub_cancel]
  bar deep := alternativesAt_cons (by decide) (by decide) (by decide) (.inr (Nat.ne_zero_of_lt deep))

/-- Cut at its bars, a rendered body is the list of its rendered alternatives. -/
theorem Shapes.alternatives_render : ∀ ps : Shapes,
    Group.alternatives ps.render = ps.toList.map Shape.render
  | .last shape => by
      have alone := shape.scan_render_append passesOver_alternativesAt 0 []
      rw [List.append_nil] at alone
      rw [Shapes.render, Group.alternatives, alone]
      simp [Group.alternativesAt, Group.prepend, Shapes.toList]
  | .more shape others => by
      have rest := others.alternatives_render
      unfold Group.alternatives at rest ⊢
      rw [Shapes.render, shape.scan_render_append passesOver_alternativesAt]
      simp [Group.alternativesAt, Group.prepend, Shapes.toList, rest]

/-! ### Negated groups -/

theorem excludes_cons {c : Char} (backslash : c ≠ '\\') (mark : c ≠ '!') (t : Text) :
    excludes (c :: t) = excludes t := by
  rw [excludes.eq_def]
  split <;> simp_all [excludes]

theorem passesOver_excludes : PassesOver (fun _ => excludes) (fun _ result => result) 0 where
  least_le := Nat.zero_le 1
  nil _ _ := rfl
  append _ _ _ := rfl
  bare h _ := excludes_cons (ne_of_isBare h rfl) (ne_of_isBare h rfl)
  escaped c _ t := by rw [excludes]
  opening _ := excludes_cons (by decide) (by decide)
  closing _ := excludes_cons (by decide) (by decide)
  bar _ := excludes_cons (by decide) (by decide)

/-- A rendered shape has no negated group. -/
theorem Shape.excludes_render (p : Shape) : excludes p.render = false := by
  have alone := p.scan_render_append passesOver_excludes 0 []
  rw [List.append_nil] at alone
  exact alone

/-! ### The expression of a rendered shape -/

mutual
/-- The expression that a shape is rewritten into. -/
def Shape.expression : Shape → Text
  | .empty => []
  | .char c => literal c
  | .anyChar => ['.']
  | .anyText => ['.', '*']
  | .seq first second => first.expression ++ second.expression
  | .group count alternatives =>
    count.mark.expression .anything (List.intercalate ['|'] alternatives.expressions)
/-- The expressions of the alternatives. -/
def Shapes.expressions : Shapes → List Text
  | .last shape => [shape.expression]
  | .more shape others => shape.expression :: others.expressions
end

/-- A group has a parenthesis behind its mark. -/
theorem group?_of_head? {t : Text} (h : t.head? ≠ some '(') (extglob : Bool) (c : Char) :
    group? extglob c t = none := by
  unfold group?
  split
  · split
    · exact absurd rfl h
    · rfl
  · rfl

theorem group?_of_ofChar? {c : Char} (h : Group.Mark.ofChar? c = none) (extglob : Bool) (t : Text) :
    group? extglob c t = none := by
  simp [group?, h]

theorem Shape.head?_render_append (p : Shape) {t : Text} (h : t.head? ≠ some '(') :
    (p.render ++ t).head? ≠ some '(' := by
  match p with
  | .empty => exact h
  | .char c =>
      rw [Shape.render, escape_singleton]
      rcases escapeChar_cases c with escaped | ⟨bare, ordinary⟩
      · rw [escaped]
        simp
      · rw [bare]
        rintro first
        obtain rfl := Option.some.inj first
        cases ordinary
  | .anyChar => simp [Shape.render]
  | .anyText => simp [Shape.render]
  | .seq first second =>
      rw [Shape.render, List.append_assoc]
      exact first.head?_render_append (second.head?_render_append h)
  | .group count alternatives => cases count <;> simp [Shape.render, Group.Count.char]

theorem translate_escapeChar_append (extglob : Bool) (exclusion : Exclusion) (c : Char) (t : Text) :
    translate extglob exclusion (escapeChar c ++ t) = literal c ++ translate extglob exclusion t := by
  rcases escapeChar_cases c with escaped | ⟨bare, ordinary⟩
  · rw [escaped, List.cons_append, translate_cons (group?_of_ofChar? rfl _ _)]
    rfl
  · have ne {d : Char} (special : isSpecial d = true) : c ≠ d := by
      rintro rfl
      rw [ordinary] at special
      cases special
    have unmarked : Group.Mark.ofChar? c = none := by
      simp [Group.Mark.ofChar?, @ne '@' rfl, @ne '*' rfl, @ne '+' rfl, @ne '?' rfl, @ne '!' rfl]
    rw [bare, List.singleton_append, translate_cons (group?_of_ofChar? unmarked _ _)]
    simp [piece, following, @ne '*' rfl, @ne '?' rfl, @ne '[' rfl, @ne '\\' rfl]

mutual
/-- A rendered shape is rewritten into its expression, if groups are switched on or there are none. -/
theorem Shape.translate_render_append {extglob : Bool} (exclusion : Exclusion) (p : Shape)
    (on : extglob = true ∨ p.depth = 0) {t : Text} (h : t.head? ≠ some '(') :
    translate extglob exclusion (p.render ++ t) = p.expression ++ translate extglob exclusion t := by
  match p with
  | .empty => simp [Shape.render, Shape.expression]
  | .char c =>
      rw [Shape.render, escape_singleton, Shape.expression]
      exact translate_escapeChar_append extglob exclusion c t
  | .anyChar => exact translate_cons (group?_of_head? h extglob '?')
  | .anyText => exact translate_cons (group?_of_head? h extglob '*')
  | .seq first second =>
      have on₁ : extglob = true ∨ first.depth = 0 :=
        on.imp_right fun flat => (Nat.max_eq_zero_iff.1 flat).1
      have on₂ : extglob = true ∨ second.depth = 0 :=
        on.imp_right fun flat => (Nat.max_eq_zero_iff.1 flat).2
      rw [Shape.render, List.append_assoc,
        first.translate_render_append exclusion on₁ (second.head?_render_append h),
        second.translate_render_append exclusion on₂ h, Shape.expression, List.append_assoc]
  | .group count alternatives =>
      obtain rfl : extglob = true := on.resolve_right (Nat.succ_ne_zero _)
      have found : group? true count.char ('(' :: (alternatives.render ++ ')' :: t)) =
          some (count.mark, alternatives.render, t) := by
        simp [group?, count.ofChar?_char, alternatives.close?_render]
      simp only [Shape.render, List.cons_append, List.append_assoc, List.nil_append]
      rw [translate_cons_of_group found, alternatives.alternatives_render,
        alternatives.map_translate_render exclusion, count.expression_mark, Shape.expression]
/-- The alternatives of a rendered group are rewritten into their expressions. -/
theorem Shapes.map_translate_render (exclusion : Exclusion) (ps : Shapes) :
    (ps.toList.map Shape.render).map (translate true exclusion) = ps.expressions := by
  match ps with
  | .last shape =>
      have alone := shape.translate_render_append exclusion (.inl rfl) (t := []) (by simp)
      rw [List.append_nil, translate_nil, List.append_nil] at alone
      rw [Shapes.toList, Shapes.expressions, ← alone]
      rfl
  | .more shape others =>
      have first := shape.translate_render_append exclusion (.inl rfl) (t := []) (by simp)
      rw [List.append_nil, translate_nil, List.append_nil] at first
      rw [Shapes.toList, List.map_cons, List.map_cons, first,
        others.map_translate_render exclusion, Shapes.expressions]
end

/-- **What a rendered shape is rewritten into**, whatever becomes of negated groups. -/
theorem Shape.translate_render {extglob : Bool} (exclusion : Exclusion) (p : Shape)
    (on : extglob = true ∨ p.depth = 0) : translate extglob exclusion p.render = p.expression := by
  have alone := p.translate_render_append exclusion on (t := []) (by simp)
  rwa [List.append_nil, translate_nil, List.append_nil] at alone

/-! ### What the expression denotes -/

mutual
/-- The expressions that stand in a row in the expression of a shape. -/
def Shape.factors : Shape → List Regex
  | .empty => []
  | .char c => [.one (.single c)]
  | .anyChar => [.one .all]
  | .anyText => [Regex.anyText]
  | .seq first second => first.factors ++ second.factors
  | .group count alternatives => [count.regex (Regex.choice alternatives.branches)]
/-- The expressions of the alternatives. -/
def Shapes.branches : Shapes → List Regex
  | .last shape => [Regex.sequence shape.factors]
  | .more shape others => Regex.sequence shape.factors :: others.branches
end

/-- The expression that a shape denotes. -/
def Shape.regex (p : Shape) : Regex := Regex.sequence p.factors

theorem Shapes.expressions_ne_nil (ps : Shapes) : ps.expressions ≠ [] := by
  cases ps <;> simp [Shapes.expressions]

theorem Shapes.branches_ne_nil (ps : Shapes) : ps.branches ≠ [] := by
  cases ps <;> simp [Shapes.branches]

mutual
theorem Shape.factors_expression (p : Shape) : Factors p.expression p.factors := by
  match p with
  | .empty => exact .nil
  | .char c =>
      rw [Shape.expression, Shape.factors]
      exact .single (reads_literal c)
  | .anyChar => exact .single (.once .dot)
  | .anyText => exact .single reads_anyText
  | .seq first second =>
      rw [Shape.expression, Shape.factors]
      exact first.factors_expression.append second.factors_expression
  | .group count alternatives =>
      have inner := Regex.reads_choice alternatives.reads_expressions alternatives.expressions_ne_nil
      rw [Shape.expression, Shape.factors]
      exact .single (reads_group inner .anything count.mark)
theorem Shapes.reads_expressions (ps : Shapes) :
    List.Forall₂ (Reads .branch) ps.expressions ps.branches := by
  match ps with
  | .last shape =>
      rw [Shapes.expressions, Shapes.branches]
      exact .cons shape.factors_expression.reads .nil
  | .more shape others =>
      rw [Shapes.expressions, Shapes.branches]
      exact .cons shape.factors_expression.reads others.reads_expressions
end

/-- **The expression of a shape is well formed.** -/
theorem Shape.reads_expression (p : Shape) : Reads .whole p.expression p.regex :=
  .last p.factors_expression.reads

mutual
theorem Shape.isUnanchored_factors (p : Shape) : p.factors.all Regex.isUnanchored = true := by
  match p with
  | .empty | .char _ | .anyChar | .anyText => rfl
  | .seq first second =>
      rw [Shape.factors, List.all_append, first.isUnanchored_factors, second.isUnanchored_factors]
      rfl
  | .group count alternatives =>
      have inner := (Regex.isUnanchored_choice _).trans alternatives.isUnanchored_branches
      rw [Shape.factors, List.all_cons, Group.Count.regex, Group.Mark.isUnanchored_regex inner]
      rfl
theorem Shapes.isUnanchored_branches (ps : Shapes) :
    ps.branches.all Regex.isUnanchored = true := by
  match ps with
  | .last shape =>
      rw [Shapes.branches, List.all_cons, Regex.isUnanchored_sequence, shape.isUnanchored_factors]
      rfl
  | .more shape others =>
      rw [Shapes.branches, List.all_cons, Regex.isUnanchored_sequence, shape.isUnanchored_factors,
        others.isUnanchored_branches]
      rfl
end

theorem Shape.isUnanchored_regex (p : Shape) : p.regex.isUnanchored = true :=
  (Regex.isUnanchored_sequence _).trans p.isUnanchored_factors

theorem language_all : (Regex.one .all).language = {t | ∃ c, t = [c]} := by
  ext t
  rw [Regex.mem_language_one]
  simp only [CharSet.contains_all, true_and]
  rfl

theorem language_anyText : Regex.anyText.language = ⊤ := by
  refine eq_top_iff.2 fun t _ => ?_
  exact (Regex.matches_iff_mem_language (r := Regex.anyText) rfl [] t []).1
    (Regex.matches_anyText [] t [])

mutual
theorem Shape.language_factors (p : Shape) : (p.factors.map Regex.language).prod = p.language := by
  match p with
  | .empty => rfl
  | .char c => exact (mul_one _).trans (Regex.language_single c)
  | .anyChar => exact (mul_one _).trans language_all
  | .anyText => exact (mul_one _).trans language_anyText
  | .seq first second =>
      rw [Shape.factors, List.map_append, List.prod_append, first.language_factors,
        second.language_factors, Shape.language]
  | .group count alternatives =>
      rw [Shape.factors, List.map_singleton, List.prod_singleton, count.language_regex,
        Regex.language_choice alternatives.branches_ne_nil, alternatives.language_branches,
        Shape.language]
theorem Shapes.language_branches (ps : Shapes) : (ps.branches.map Regex.language).sum = ps.language := by
  match ps with
  | .last shape =>
      rw [Shapes.branches, List.map_singleton, List.sum_singleton, Regex.language_sequence,
        shape.language_factors, Shapes.language]
  | .more shape others =>
      rw [Shapes.branches, List.map_cons, List.sum_cons, Regex.language_sequence,
        shape.language_factors, others.language_branches, Shapes.language]
end

/-- **The expression of a shape matches what the shape means.** -/
theorem Shape.language_regex (p : Shape) : p.regex.language = p.language :=
  (Regex.language_sequence _).trans p.language_factors

/-! ### Compiling a rendered shape -/

/-- A standard engine compiles a rendered shape within its limits; and there is nothing to forbid. -/
theorem Shape.exists_compile? {extglob : Bool} (p : Shape) (on : extglob = true ∨ p.depth = 0)
    {engine : Engine} {admits : Text → Prop} (standard : engine.Standard admits)
    (admitted : admits (anchor p.expression)) :
    ∃ pattern, compile? engine extglob p.render = some pattern ∧
      ∀ t, pattern.accepts t = true ↔ t ∈ p.language := by
  obtain ⟨m, compiled, meaning⟩ :=
    standard.exists_anchor p.reads_expression p.isUnanchored_regex admitted
  have once : (extglob && excludes p.render) = false := by rw [p.excludes_render, Bool.and_false]
  refine ⟨⟨m, none⟩, ?_, fun t => ?_⟩
  · rw [compile?_of_not_excludes engine once, Pattern.expression, p.translate_render .anything on, compiled]
    rfl
  · rw [← p.language_regex, ← meaning t]
    simp [accepts]

/-! ### The limit of the engine -/

mutual
theorem Shape.nesting_factors (p : Shape) : ∀ r ∈ p.factors, r.nesting ≤ p.depth := by
  match p with
  | .empty | .char _ | .anyChar | .anyText => simp [Shape.factors, Regex.anyText, Regex.nesting]
  | .seq first second =>
      rintro r mem
      rcases List.mem_append.1 mem with mem | mem
      · exact Nat.le_trans (first.nesting_factors r mem) (Nat.le_max_left _ _)
      · exact Nat.le_trans (second.nesting_factors r mem) (Nat.le_max_right _ _)
  | .group count alternatives =>
      rintro r mem
      obtain rfl := List.mem_singleton.1 mem
      rw [count.nesting_regex]
      exact Nat.succ_le_succ (Regex.nesting_choice_le alternatives.nesting_branches)
theorem Shapes.nesting_branches (ps : Shapes) : ∀ r ∈ ps.branches, r.nesting ≤ ps.depth := by
  match ps with
  | .last shape =>
      rintro r mem
      obtain rfl := List.mem_singleton.1 mem
      exact Regex.nesting_sequence_le shape.nesting_factors
  | .more shape others =>
      rintro r mem
      rcases List.mem_cons.1 mem with rfl | mem
      · exact Nat.le_trans (Regex.nesting_sequence_le shape.nesting_factors) (Nat.le_max_left _ _)
      · exact Nat.le_trans (others.nesting_branches r mem) (Nat.le_max_right _ _)
end

mutual
theorem Shape.height_factors (p : Shape) : ∀ r ∈ p.factors, r.height ≤ 3 * p.depth + 1 := by
  match p with
  | .empty | .char _ | .anyChar | .anyText => simp [Shape.factors, Regex.anyText, Regex.height]
  | .seq first second =>
      rintro r mem
      rw [Shape.depth]
      rcases List.mem_append.1 mem with mem | mem
      · have := first.height_factors r mem
        omega
      · have := second.height_factors r mem
        omega
  | .group count alternatives =>
      rintro r mem
      obtain rfl := List.mem_singleton.1 mem
      have counted := count.height_regex_le (Regex.choice alternatives.branches)
      have chosen := Regex.height_choice_le alternatives.height_branches
      rw [Shape.depth]
      omega
theorem Shapes.height_branches (ps : Shapes) : ∀ r ∈ ps.branches, r.height ≤ 3 * ps.depth + 2 := by
  match ps with
  | .last shape =>
      rintro r mem
      obtain rfl := List.mem_singleton.1 mem
      exact Regex.height_sequence_le shape.height_factors
  | .more shape others =>
      rintro r mem
      rw [Shapes.depth]
      rcases List.mem_cons.1 mem with rfl | mem
      · have := Regex.height_sequence_le shape.height_factors
        omega
      · have := others.height_branches r mem
        omega
end

/-- A shape whose groups are not nested too deep is within the limit. -/
theorem Shape.isWithinLimit_expression (p : Shape) (shallow : p.depth ≤ 15) :
    Regex.isWithinLimit (anchor p.expression) = true := by
  have nested : p.regex.nesting ≤ p.depth := Regex.nesting_sequence_le p.nesting_factors
  have high : p.regex.height ≤ 3 * p.depth + 2 := Regex.height_sequence_le p.height_factors
  rw [p.reads_expression.isWithinLimit_anchor, Regex.isShallow_anchored_iff, Regex.nestLimit]
  omega

/-! ### The whole way -/

/-- **A rendered shape matches what it means.**  It is rewritten into the expression of the shape, and a standard
engine that has no limit for this expression compiles it to a pattern that matches exactly the texts of the
shape's language.  The engine of `Regex` has no limit for it if the groups are nested at most fifteen deep.  A
shape without groups needs no groups switched on. -/
theorem Shape.accepts_render_iff (p : Shape) {extglob : Bool} (on : extglob = true ∨ p.depth = 0) :
    (∀ exclusion, Pattern.expression extglob exclusion p.render = anchor p.expression) ∧
    (∀ engine admits, Engine.Standard engine admits → admits (anchor p.expression) →
      ∃ pattern, compile? engine extglob p.render = some pattern ∧
        ∀ t, pattern.accepts t = true ↔ t ∈ p.language) ∧
    (p.depth ≤ 15 →
      ∃ pattern, ofText? extglob p.render = some pattern ∧
        ∀ t, pattern.accepts t = true ↔ t ∈ p.language) :=
  ⟨fun exclusion => congrArg anchor (p.translate_render exclusion on),
    fun _ _ standard admitted => p.exists_compile? on standard admitted,
    fun shallow => p.exists_compile? on Regex.standard_engine (p.isWithinLimit_expression shallow)⟩

/-- The pattern `+(@(a|\*)|)`. -/
def Shape.starred : Shape :=
  .group .atLeastOnce (.more (.group .once (.more (.char 'a') (.last (.char '*')))) (.last .empty))

/-- The pattern `?\*`. -/
def Shape.beforeStar : Shape :=
  .seq .anyChar (.char '*')

/-- The two patterns are read, and each matches a text that ends with a star. -/
theorem Shape.accepts_render_star :
    (∃ pattern, ofText? true Shape.starred.render = some pattern ∧ pattern.accepts ['a', '*'] = true) ∧
    (∃ pattern, compile? Regex.unlimited false Shape.beforeStar.render = some pattern ∧
      pattern.accepts ['b', '*'] = true) := by
  obtain ⟨-, -, nested⟩ := @Shape.accepts_render_iff .starred true (.inl rfl)
  obtain ⟨-, flat, -⟩ := @Shape.accepts_render_iff .beforeStar false (.inr rfl)
  obtain ⟨pattern, read, meaning⟩ := nested (by decide)
  obtain ⟨pattern', read', meaning'⟩ := flat _ _ Regex.standard_unlimited trivial
  refine ⟨⟨pattern, read, (meaning _).2 ?_⟩, ⟨pattern', read', (meaning' _).2 ?_⟩⟩
  · refine Language.append_mem_mul (a := ['a']) (b := ['*']) (.inl (.inl rfl)) ⟨[['*']], rfl, ?_⟩
    rintro y mem
    obtain rfl := List.mem_singleton.1 mem
    exact .inl (.inr rfl)
  · exact Language.append_mem_mul (a := ['b']) (b := ['*']) ⟨'b', rfl⟩ rfl

end Pattern

end ShellWord
