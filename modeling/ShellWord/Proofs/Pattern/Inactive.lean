import ShellWord.Proofs.Files.Name
import ShellWord.Proofs.Pattern.Literal

/-!
# Patterns without active characters

A pattern without active characters is never matched.  Where files are looked up and where fields are expanded, the
text that remains without its backslashes is taken in its place.  This is right only if the pattern would match that
text and nothing else.

Four functions go over the pattern, each with a loop of its own: one looks for wildcards, one for groups, one for
negated groups, one removes the backslashes; and then there is the translation.  All of them have to step over an
escaped character in the same way, and to agree on a backslash at the very end.  `translate_of_not_isActive` is the
induction that takes them along together.  It shows that the pattern becomes the characters of the text without
backslashes, one after the other, each escaped if it means something to the engine.  So the pattern is compiled
like the escaped form of that text (`compile?_of_not_isActive`); and what escaped texts match is known.
-/

namespace ShellWord.Pattern

variable {extglob : Bool} {c : Char} {t : Text}

/-! ### One character of a pattern without active characters -/

theorem hasGroup_cons_cons (backslash : c ≠ '\\') (d : Char) (t : Text) :
    hasGroup (c :: d :: t) = ((isGroupMark c && d == '(') || hasGroup (d :: t)) := by
  rw [hasGroup]
  rintro rfl
  exact absurd rfl backslash

/-- Where no group opener occurs, no negated one does. -/
theorem excludes_of_not_hasGroup (h : hasGroup t = false) : excludes t = false := by
  fun_induction excludes t with
  | case1 => rfl
  | case2 => rfl
  | case3 c t ih => exact ih h
  | case4 c d t backslash ih =>
      rw [hasGroup_cons_cons fun same => backslash same] at h
      obtain ⟨opener, rest⟩ := Bool.or_eq_false_iff.1 h
      rw [ih rest, Bool.or_false, Bool.and_eq_false_iff]
      refine (Bool.and_eq_false_iff.1 opener).imp_left fun mark => ?_
      simp only [isGroupMark, Bool.or_eq_false_iff] at mark
      exact mark.2

theorem hasGroup_of_cons (backslash : c ≠ '\\') (h : hasGroup (c :: t) = false) : hasGroup t = false := by
  cases t with
  | nil => rfl
  | cons d t =>
      rw [hasGroup_cons_cons backslash] at h
      exact (Bool.or_eq_false_iff.1 h).2

/-- Where no group opener occurs, the translation finds no group. -/
theorem group?_of_not_hasGroup (backslash : c ≠ '\\') (h : hasGroup (c :: t) = false) :
    group? extglob c t = none := by
  by_cases paren : t.head? = some '('
  · obtain ⟨rest, rfl⟩ := List.head?_eq_some_iff.1 paren
    rw [hasGroup_cons_cons backslash] at h
    have unmarked : isGroupMark c = false := by simpa using (Bool.or_eq_false_iff.1 h).1
    simp only [isGroupMark, Bool.or_eq_false_iff, beq_eq_false_iff_ne] at unmarked
    exact group?_of_ofChar? (by simp [Group.Mark.ofChar?, unmarked]) extglob _
  · exact group?_of_head? paren extglob c

/-- **A character without a backslash in a pattern without active characters** stands for itself, and the rest has
no active characters either. -/
theorem of_not_isActive_cons (backslash : c ≠ '\\') (h : isActive extglob (c :: t) = false) :
    piece c t = literal c ∧ following c t = t ∧ group? extglob c t = none ∧
      isActive extglob t = false := by
  obtain ⟨wildcards, groups⟩ := Bool.or_eq_false_iff.1 h
  rw [hasWildcard_cons backslash] at wildcards
  simp only [Bool.or_eq_false_iff, beq_eq_false_iff_ne] at wildcards
  obtain ⟨⟨⟨star, mark⟩, bracket⟩, rest⟩ := wildcards
  refine ⟨?_, ?_, ?_, ?_⟩
  · simp [piece, star, mark, bracket, backslash]
  · simp [following, bracket, backslash]
  · cases extglob with
    | false => exact group?_false c t
    | true => exact group?_of_not_hasGroup backslash groups
  · rw [isActive, rest, Bool.false_or]
    cases extglob with
    | false => rfl
    | true => exact hasGroup_of_cons backslash groups

/-! ### The whole pattern -/

/-- **The pattern becomes the characters that remain without backslashes.** -/
theorem translate_of_not_isActive (h : isActive extglob t = false) (exclusion : Exclusion) :
    translate extglob exclusion t = (unescape t).flatMap literal := by
  -- the cases are those of removing backslashes: an escaped character is passed over by all scans at once
  fun_induction unescape t with
  | case1 => exact translate_nil extglob exclusion
  | case2 =>
      rw [translate_cons (group?_of_ofChar? rfl extglob []), following]
      exact congrArg (literal '\\' ++ ·) (translate_nil extglob exclusion)
  | case3 c t ih =>
      rw [translate_cons (group?_of_ofChar? rfl extglob (c :: t))]
      exact congrArg (literal c ++ ·) (ih h)
  | case4 c t single pair ih =>
      have backslash : c ≠ '\\' := Text.ne_of_single_of_pair single pair
      obtain ⟨piece, following, none, rest⟩ := of_not_isActive_cons backslash h
      rw [translate_cons none, piece, following, ih rest, List.flatMap_cons]

theorem excludes_of_not_isActive (h : isActive extglob t = false) : (extglob && excludes t) = false := by
  cases extglob with
  | false => rfl
  | true => exact excludes_of_not_hasGroup (Bool.or_eq_false_iff.1 h).2

/-- It has the expression of the escaped text that it stands for. -/
theorem expression_of_not_isActive (h : isActive extglob t = false) (exclusion : Exclusion) :
    expression extglob exclusion t = expression extglob exclusion (escape (unescape t)) := by
  rw [expression_escape]
  exact congrArg anchor (translate_of_not_isActive h exclusion)

/-- A pattern without active characters is compiled like the escaped form of the text it stands for, whatever the
engine. -/
theorem compile?_of_not_isActive (engine : Engine) (h : isActive extglob t = false) :
    compile? engine extglob t = compile? engine extglob (escape (unescape t)) := by
  have escaped := isActive_escape extglob (unescape t)
  rw [compile?_of_not_excludes engine (excludes_of_not_isActive h),
    compile?_of_not_excludes engine (excludes_of_not_isActive escaped), expression_of_not_isActive h]

/-- **Without active characters a pattern matches one text only.**  With groups switched on or off, a text in which
nothing is active is compiled by every standard engine that has no limit for its expression, and it matches exactly
the text that remains without its backslashes.  The engine of `Regex` never has a limit for it.  Escaped texts are
of this kind, and what remains of them is the text itself; so an escaped text matches itself only. -/
theorem accepts_inactive_iff (extglob : Bool) :
    (∀ p, isActive extglob p = false →
      (∀ engine admits, Engine.Standard engine admits → admits (expression extglob .anything p) →
        ∃ pattern, compile? engine extglob p = some pattern ∧
          ∀ t, pattern.accepts t = true ↔ t = unescape p) ∧
      ∃ pattern, ofText? extglob p = some pattern ∧ ∀ t, pattern.accepts t = true ↔ t = unescape p) ∧
    (∀ s, isActive extglob (escape s) = false ∧ unescape (escape s) = s ∧
      (∀ engine admits, Engine.Standard engine admits → admits (expression extglob .anything (escape s)) →
        ∃ pattern, compile? engine extglob (escape s) = some pattern ∧
          ∀ t, pattern.accepts t = true ↔ t = s) ∧
      ∃ pattern, ofText? extglob (escape s) = some pattern ∧ ∀ t, pattern.accepts t = true ↔ t = s) := by
  have escaped (s : Text) (engine : Engine) (admits : Text → Prop) (standard : engine.Standard admits)
      (admitted : admits (expression extglob .anything (escape s))) :
      ∃ pattern, compile? engine extglob (escape s) = some pattern ∧
        ∀ t, pattern.accepts t = true ↔ t = s := by
    obtain ⟨pattern, read, matcher⟩ := accepts_escape standard extglob s admitted
    exact ⟨pattern, read, fun t => by rw [matcher, Matcher.only_eq_true_iff]⟩
  have unlimited (s : Text) := escaped s _ _ Regex.standard_engine (isWithinLimit_escape extglob .anything s)
  refine ⟨fun p inactive => ⟨fun engine admits standard admitted => ?_, ?_⟩, fun s =>
    ⟨isActive_escape extglob s, unescape_escape s, escaped s, unlimited s⟩⟩
  · rw [compile?_of_not_isActive engine inactive]
    rw [expression_of_not_isActive inactive] at admitted
    exact escaped (unescape p) engine admits standard admitted
  · rw [ofText?, compile?_of_not_isActive _ inactive]
    exact unlimited (unescape p)

/-- The pattern `x+\(^\`: an opener whose parenthesis is escaped, a character with a meaning to the engine only, and
a backslash at the end. -/
def almostGroup : Text := ['x', '+', '\\', '(', '^', '\\']

/-- The statement at this pattern: it matches `x+(^\`, and it does not match itself. -/
theorem accepts_almostGroup :
    isActive true almostGroup = false ∧
      ∃ pattern, ofText? true almostGroup = some pattern ∧
        pattern.accepts ['x', '+', '(', '^', '\\'] = true ∧ pattern.accepts almostGroup = false := by
  have inactive : isActive true almostGroup = false := by decide
  obtain ⟨pattern, read, meaning⟩ := ((accepts_inactive_iff true).1 almostGroup inactive).1 _ _
    Regex.standard_engine (by decide +kernel)
  refine ⟨inactive, pattern, read, (meaning _).2 rfl, ?_⟩
  rw [← Bool.not_eq_true, meaning]
  decide

end ShellWord.Pattern
