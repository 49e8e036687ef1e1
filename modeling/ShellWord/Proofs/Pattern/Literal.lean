import ShellWord.Proofs.Pattern.Replace
import ShellWord.Proofs.Pattern.Shape

/-!
# Patterns that stand for one text

Quoted text enters a pattern escaped, and should then stand for itself and nothing else.  `accepts_escape` says so,
for every text, every standard engine, and whether or not groups are switched on: an escaped text is a rendered
shape, a row of characters, and what rendered shapes match is known.  The expression of such a row is the text with
everything escaped that means something to the engine.

So trimming and replacing by such a pattern is trimming and replacing by the matcher `Matcher.only s`, which asks
whether a text is `s`.  The second half says what that is in terms of strings: the text begins or ends with
`s`, or `s` occurs in it.  Two occurrences may overlap; those that are replaced are taken from left to right, and
`IsSplitAt` describes what stands between them.
-/

namespace ShellWord

/-- The matcher that matches one text only. -/
def Matcher.only (s : Text) : Matcher :=
  fun t => t == s

@[simp] theorem Matcher.only_eq_true_iff {s t : Text} : Matcher.only s t = true ↔ t = s :=
  beq_iff_eq

@[simp] theorem Matcher.only_eq_false_iff {s t : Text} : Matcher.only s t = false ↔ t ≠ s :=
  beq_eq_false_iff_ne

/-! ### Escaped text -/

namespace Pattern

/-- The characters of a text, one after the other. -/
def Shape.ofText : Text → Shape
  | [] => .empty
  | c :: t => .seq (.char c) (ofText t)

theorem Shape.render_ofText (s : Text) : (Shape.ofText s).render = escape s := by
  induction s with
  | nil => rfl
  | cons c s ih => rw [Shape.ofText, Shape.render, ih, Shape.render, escape_singleton, escape_cons]

theorem Shape.depth_ofText (s : Text) : (Shape.ofText s).depth = 0 := by
  induction s with
  | nil => rfl
  | cons c s ih =>
      rw [Shape.ofText, Shape.depth, ih]
      rfl

theorem Shape.mem_language_ofText {s t : Text} : t ∈ (Shape.ofText s).language ↔ t = s := by
  induction s generalizing t with
  | nil => exact Language.mem_one t
  | cons c s ih =>
      rw [Shape.ofText, Shape.language, Language.mem_mul]
      constructor
      · rintro ⟨a, first, b, rest, rfl⟩
        obtain rfl : a = [c] := first
        rw [ih.1 rest, List.singleton_append]
      · rintro rfl
        exact ⟨[c], rfl, s, ih.2 rfl, rfl⟩

theorem Shape.expression_ofText (s : Text) : (Shape.ofText s).expression = s.flatMap literal := by
  induction s with
  | nil => rfl
  | cons c s ih => rw [Shape.ofText, Shape.expression, ih, Shape.expression, List.flatMap_cons]

/-- An escaped text is rewritten into its characters, each escaped once more if it means something to the engine. -/
theorem expression_escape (extglob : Bool) (exclusion : Exclusion) (s : Text) :
    expression extglob exclusion (escape s) = anchor (s.flatMap literal) := by
  rw [← Shape.render_ofText, ← Shape.expression_ofText]
  exact congrArg anchor ((Shape.ofText s).translate_render exclusion (.inr (Shape.depth_ofText s)))

/-- The engine of `Regex` has no limit for it. -/
theorem isWithinLimit_escape (extglob : Bool) (exclusion : Exclusion) (s : Text) :
    Regex.isWithinLimit (expression extglob exclusion (escape s)) = true := by
  rw [expression_escape, ← Shape.expression_ofText]
  refine (Shape.ofText s).isWithinLimit_expression ?_
  rw [Shape.depth_ofText]
  exact Nat.zero_le _

/-- **An escaped text is a pattern that matches this text only**, with groups switched on or off. -/
theorem accepts_escape {engine : Engine} {admits : Text → Prop} (standard : engine.Standard admits)
    (extglob : Bool) (s : Text) (admitted : admits (expression extglob .anything (escape s))) :
    ∃ pattern, compile? engine extglob (escape s) = some pattern ∧ pattern.accepts = Matcher.only s := by
  rw [expression_escape, ← Shape.expression_ofText] at admitted
  obtain ⟨pattern, read, meaning⟩ :=
    (Shape.ofText s).exists_compile? (.inr (Shape.depth_ofText s)) standard admitted
  rw [Shape.render_ofText] at read
  refine ⟨pattern, read, funext fun t => ?_⟩
  rw [Bool.eq_iff_iff, meaning, Shape.mem_language_ofText, Matcher.only_eq_true_iff]

end Pattern

/-! ### Strings at an end -/

variable {s t u v after : Text}

theorem frontMatch?_only (longest : Bool) (s rest : Text) :
    frontMatch? (Matcher.only s) longest (s ++ rest) = some (s, rest) := by
  refine frontMatch?_eq_some_iff.2 ⟨rfl, Matcher.only_eq_true_iff.2 rfl, fun other _ _ same => ?_⟩
  rw [Matcher.only_eq_true_iff.1 same]
  split <;> exact Nat.le_refl _

theorem frontMatch?_only_eq_none (longest : Bool) (h : ¬ s <+: t) :
    frontMatch? (Matcher.only s) longest t = none := by
  refine frontMatch?_eq_none_iff.2 fun a b parts => Matcher.only_eq_false_iff.2 ?_
  rintro rfl
  exact h ⟨b, parts⟩

theorem backMatch?_only (longest : Bool) (s rest : Text) :
    backMatch? (Matcher.only s) longest (rest ++ s) = some (rest, s) := by
  refine backMatch?_eq_some_iff.2 ⟨rfl, Matcher.only_eq_true_iff.2 rfl, fun _ other _ same => ?_⟩
  rw [Matcher.only_eq_true_iff.1 same]
  split <;> exact Nat.le_refl _

theorem backMatch?_only_eq_none (longest : Bool) (h : ¬ s <:+ t) :
    backMatch? (Matcher.only s) longest t = none := by
  refine backMatch?_eq_none_iff.2 fun a b parts => Matcher.only_eq_false_iff.2 ?_
  rintro rfl
  exact h ⟨a, parts⟩

/-! ### Occurrences of a string -/

/-- In front of `after`, an occurrence of `s` begins within `u`. -/
def BeginsWithin (s u after : Text) : Prop :=
  ∃ a b, a ++ b = u ∧ b ≠ [] ∧ s <+: b ++ after

/-- The texts are what stands between the leftmost occurrences of `s` that do not overlap: there is at least one of
them, and `s` begins within none of them, in front of all that follows. -/
def IsSplitAt (s : Text) : List Text → Prop
  | [] => False
  | [last] => ¬ BeginsWithin s last []
  | u :: next :: texts =>
      ¬ BeginsWithin s u (s ++ List.intercalate s (next :: texts)) ∧ IsSplitAt s (next :: texts)

/-- A match of `Matcher.only s` is an occurrence of `s`. -/
theorem noMatchWithin_only_iff (ne : s ≠ []) :
    NoMatchWithin (Matcher.only s) u after ↔ ¬ BeginsWithin s u after := by
  constructor
  · rintro none ⟨a, b, parts, inside, begins⟩
    exact Matcher.only_eq_false_iff.1 (none a b parts inside s ne begins) rfl
  · intro none a b parts inside m _ begins
    refine Matcher.only_eq_false_iff.2 ?_
    rintro rfl
    exact none ⟨a, b, parts, inside, begins⟩

theorem eq_of_isLongestMatch_only {m : Text} (h : IsLongestMatch (Matcher.only s) m after) : m = s :=
  Matcher.only_eq_true_iff.1 h.matched

/-- Between the marked occurrences of `s` the text is split at it. -/
theorem Marking.exists_isSplitAt (ne : s ≠ []) {d : Marking} (h : d.IsLeftmostLongest (Matcher.only s)) :
    ∃ texts, IsSplitAt s texts ∧ d.source = List.intercalate s texts ∧
      ∀ r, d.replaced r = List.intercalate r texts := by
  induction d with
  | last u => exact ⟨[u], (noMatchWithin_only_iff ne).1 h, by simp [source], fun r => by simp [replaced]⟩
  | next u m rest ih =>
      obtain ⟨before, longest, later⟩ := h
      obtain rfl := eq_of_isLongestMatch_only longest
      obtain ⟨texts, split, source_eq, replaced_eq⟩ := ih later
      obtain ⟨next, texts, rfl⟩ : ∃ next others, texts = next :: others := by
        cases texts with
        | nil => exact split.elim
        | cons next others => exact ⟨next, others, rfl⟩
      rw [source_eq] at before
      refine ⟨u :: next :: texts, ⟨(noMatchWithin_only_iff ne).1 before, split⟩, ?_, fun r => ?_⟩
      · rw [source, source_eq, List.intercalate_cons_cons, List.append_assoc]
      · rw [replaced, replaced_eq, List.intercalate_cons_cons, List.append_assoc]

/-- **All leftmost occurrences are replaced.** -/
theorem replaceMatches_all_only (ne : s ≠ []) (t : Text) :
    ∃ texts, IsSplitAt s texts ∧ t = List.intercalate s texts ∧
      ∀ r, replaceMatches (Matcher.only s) true none r t = List.intercalate r texts := by
  obtain ⟨d, rfl, marked⟩ := Marking.exists_isLeftmostLongest (Matcher.only s) t
  obtain ⟨texts, split, source, replaced⟩ := Marking.exists_isSplitAt ne marked
  exact ⟨texts, split, source, fun r => (marked.replaceMatches r).trans (replaced r)⟩

/-- **The first occurrence is replaced.** -/
theorem replaceMatches_first_only (ne : s ≠ []) (h : s <:+: t) :
    ∃ u v, t = u ++ (s ++ v) ∧ ¬ BeginsWithin s u (s ++ v) ∧
      ∀ r, replaceMatches (Matcher.only s) false none r t = u ++ (r ++ v) := by
  rcases replaceMatches_first_cases (Matcher.only s) t with
    ⟨u, m, v, rfl, before, longest, replaced⟩ | ⟨none, -⟩
  · obtain rfl := eq_of_isLongestMatch_only longest
    exact ⟨u, v, rfl, (noMatchWithin_only_iff ne).1 before, replaced⟩
  · exact absurd rfl (Matcher.only_eq_false_iff.1 (none s ne h))

theorem replaceMatches_first_only_eq_self (h : ¬ s <:+: t) (r : Text) :
    replaceMatches (Matcher.only s) false none r t = t := by
  rcases replaceMatches_first_cases (Matcher.only s) t with ⟨u, m, v, rfl, -, longest, -⟩ | ⟨-, same⟩
  · obtain rfl := eq_of_isLongestMatch_only longest
    exact absurd ⟨u, v, by rw [List.append_assoc]⟩ h
  · exact same r

end ShellWord
