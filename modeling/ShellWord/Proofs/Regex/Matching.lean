import Mathlib.Computability.Language
import ShellWord.Regex.Basic

/-!
# What regular expressions match

An expression matches a stretch of a text, and because of the anchors it matters what stands before and
after the stretch.  `Regex.Matches` says which stretches these are, by recursion on the expression, and
`Regex.Finds` that there is one somewhere in a text.

The search by residuals of `Regex.finds` decides this: the test for the empty stretch is right, after
one character the residuals match what may follow, and so by induction on the text one of the
alternatives that are left at its end matches the empty stretch.

Without anchors the surroundings do not matter, and the stretches form a language.  Between anchors an
expression is found in exactly the texts of its language.

## Main results

* `Regex.finds_iff`: the search decides whether an expression matches somewhere
* `Regex.matches_iff_mem_language`: without anchors only the stretch matters
* `Regex.finds_anchored_iff`: between anchors the whole text has to be matched
-/

open Computability

namespace ShellWord

/-- A condition on a stretch of a text: what stands before it, the stretch, what stands after it. -/
abbrev Stretch := Text → Text → Text → Prop

namespace Stretch

/-- One stretch right behind the other. -/
def Then (P Q : Stretch) : Stretch := fun before middle after =>
  ∃ m₁ m₂, middle = m₁ ++ m₂ ∧ P before m₁ (m₂ ++ after) ∧ Q (before ++ m₁) m₂ after

/-- Any number of stretches in a row. -/
inductive Several (P : Stretch) : Stretch
  | none {before after : Text} : Several P before [] after
  | more {before m₁ m₂ after : Text} (first : P before m₁ (m₂ ++ after))
      (others : Several P (before ++ m₁) m₂ after) : Several P before (m₁ ++ m₂) after

/-- The first stretch takes up the character `c`, which is read, and the second follows it. -/
def Behind (c : Char) (P Q : Stretch) : Stretch := fun before middle after =>
  ∃ m₁ m₂, middle = m₁ ++ m₂ ∧ P before (c :: m₁) (m₂ ++ after) ∧
    Q (before ++ c :: m₁) m₂ after

variable {P Q : Stretch} {before middle after : Text} {c : Char}

theorem then_nil : Then P Q before [] after ↔ P before [] after ∧ Q before [] after := by
  constructor
  · rintro ⟨m₁, m₂, joined, first, second⟩
    obtain ⟨rfl, rfl⟩ := List.append_eq_nil_iff.1 joined.symm
    exact ⟨first, by simpa using second⟩
  · rintro ⟨first, second⟩
    exact ⟨[], [], rfl, first, by simpa using second⟩

/-- A character is taken up by the first of two stretches, unless that is empty. -/
theorem then_cons : Then P Q before (c :: middle) after ↔
    Behind c P Q before middle after ∨
      P before [] (c :: (middle ++ after)) ∧ Q before (c :: middle) after := by
  constructor
  · rintro ⟨m₁, m₂, joined, first, second⟩
    cases m₁ with
    | nil =>
      obtain rfl : c :: middle = m₂ := joined
      exact .inr ⟨first, by simpa using second⟩
    | cons d m₁ =>
      obtain ⟨rfl, rfl⟩ := List.cons.inj joined
      exact .inl ⟨m₁, m₂, rfl, first, second⟩
  · rintro (⟨m₁, m₂, rfl, first, second⟩ | ⟨first, second⟩)
    · exact ⟨c :: m₁, m₂, rfl, first, second⟩
    · exact ⟨[], c :: middle, rfl, first, by simpa using second⟩

/-- A character is taken up by the first of several stretches that is not empty. -/
theorem several_cons : Several P before (c :: middle) after ↔
    Behind c P (Several P) before middle after := by
  constructor
  · intro h
    generalize whole : c :: middle = m at h
    induction h generalizing middle with
    | none => cases whole
    | @more before m₁ m₂ after first others ih =>
      cases m₁ with
      | nil => simpa using ih whole
      | cons d m₁ =>
        obtain ⟨rfl, rfl⟩ := List.cons.inj whole
        exact ⟨m₁, m₂, rfl, first, others⟩
  · rintro ⟨m₁, m₂, rfl, first, others⟩
    exact .more first others

end Stretch

namespace Regex

open Stretch

/-- The expression matches a stretch of a text, given what stands before and after it. -/
def Matches : Regex → Stretch
  | .empty => fun _ middle _ => middle = []
  | .one set => fun _ middle _ => ∃ c, set.contains c = true ∧ middle = [c]
  | .start => fun before middle _ => before = [] ∧ middle = []
  | .finish => fun _ middle after => middle = [] ∧ after = []
  | .group inner => inner.Matches
  | .seq first second => Then first.Matches second.Matches
  | .either first second => fun before middle after =>
    first.Matches before middle after ∨ second.Matches before middle after
  | .repeated .anyNumber inner => Several inner.Matches
  | .repeated .atLeastOnce inner => Then inner.Matches (Several inner.Matches)
  | .repeated .atMostOnce inner => fun before middle after =>
    middle = [] ∨ inner.Matches before middle after

/-- The expression matches somewhere in the text. -/
def Finds (r : Regex) (t : Text) : Prop :=
  ∃ before middle after, t = before ++ middle ++ after ∧ r.Matches before middle after

/-! ### The search -/

/-- The test for the empty stretch is right. -/
theorem nullable_iff (r : Regex) (before after : Text) :
    r.nullable before.isEmpty after.isEmpty = true ↔ r.Matches before [] after := by
  induction r with
  | empty => exact iff_of_true rfl rfl
  | one set => simp [nullable, Matches]
  | start => simp [nullable, Matches]
  | finish => simp [nullable, Matches]
  | group inner ih => exact ih
  | seq first second ih₁ ih₂ =>
    rw [nullable, Bool.and_eq_true, ih₁, ih₂]
    exact then_nil.symm
  | either first second ih₁ ih₂ =>
    rw [nullable, Bool.or_eq_true, ih₁, ih₂]
    exact Iff.rfl
  | repeated count inner ih =>
    cases count with
    | anyNumber => exact iff_of_true rfl .none
    | atLeastOnce => exact ih.trans ((and_iff_left .none).symm.trans then_nil.symm)
    | atMostOnce => exact iff_of_true rfl (.inl rfl)

theorem matches_andThen (first second : Regex) {before middle after : Text} :
    (andThen first second).Matches before middle after ↔
      Then first.Matches second.Matches before middle after := by
  cases first with
  | empty => simp [andThen, Matches, Then]
  | _ => exact Iff.rfl

/-- Going on with `second` behind one of the residuals of `first`. -/
private theorem exists_mem_map_andThen {first second : Regex} {residuals : List Regex} {c : Char}
    {before middle after : Text}
    (right : ∀ middle after, (∃ r ∈ residuals, r.Matches (before ++ [c]) middle after) ↔
      first.Matches before (c :: middle) after) :
    (∃ r ∈ residuals.map (andThen · second), r.Matches (before ++ [c]) middle after) ↔
      Behind c first.Matches second.Matches before middle after := by
  simp only [List.mem_map, exists_exists_and_eq_and, matches_andThen]
  constructor
  · rintro ⟨r, mem, m₁, m₂, rfl, h₁, h₂⟩
    exact ⟨m₁, m₂, rfl, (right _ _).1 ⟨r, mem, h₁⟩, by simpa using h₂⟩
  · rintro ⟨m₁, m₂, rfl, h₁, h₂⟩
    obtain ⟨r, mem, h₁⟩ := (right _ _).2 h₁
    exact ⟨r, mem, m₁, m₂, rfl, h₁, by simpa using h₂⟩

/-- The residuals after a character match what may follow it. -/
theorem exists_mem_residuals_iff (c : Char) (r : Regex) (before middle after : Text) :
    (∃ s ∈ r.residuals before.isEmpty c, s.Matches (before ++ [c]) middle after) ↔
      r.Matches before (c :: middle) after := by
  induction r generalizing middle after with
  | empty => simp [residuals, Matches]
  | one set =>
    by_cases h : set.contains c = true
    · simp [residuals, Matches, h]
    · simp only [residuals, if_neg h, List.not_mem_nil, false_and, exists_false, Matches, false_iff]
      rintro ⟨d, hd, same⟩
      obtain ⟨rfl, -⟩ := List.cons.inj same
      exact h hd
  | start => simp [residuals, Matches]
  | finish => simp [residuals, Matches]
  | group inner ih => exact ih _ _
  | seq first second ih₁ ih₂ =>
    have passed : (∃ s ∈ if first.nullable before.isEmpty false then
          second.residuals before.isEmpty c else [], s.Matches (before ++ [c]) middle after) ↔
        first.Matches before [] (c :: (middle ++ after)) ∧
          second.Matches before (c :: middle) after := by
      rw [← nullable_iff, ← ih₂]
      by_cases h : first.nullable before.isEmpty false = true <;> simp [h]
    simp only [residuals, List.mem_append, or_and_right, exists_or]
    rw [exists_mem_map_andThen ih₁, passed]
    exact then_cons.symm
  | either first second ih₁ ih₂ =>
    simp only [residuals, List.mem_append, or_and_right, exists_or]
    rw [ih₁, ih₂]
    exact Iff.rfl
  | repeated count inner ih =>
    rw [residuals, exists_mem_map_andThen ih]
    cases count with
    | anyNumber => exact several_cons.symm
    | atLeastOnce =>
      -- an empty first stretch leaves the character to the ones behind it
      refine Iff.symm (then_cons.trans (or_iff_left_of_imp ?_))
      rintro ⟨-, others⟩
      exact several_cons.1 others
    | atMostOnce =>
      constructor
      · rintro ⟨m₁, m₂, rfl, h, rfl⟩
        exact .inr (by simpa using h)
      · rintro (h | h)
        · cases h
        · exact ⟨middle, [], by simp, by simpa using h, rfl⟩

theorem exists_mem_step_iff (c : Char) (states : List Regex) (before middle after : Text) :
    (∃ s ∈ step before.isEmpty c states, s.Matches (before ++ [c]) middle after) ↔
      ∃ r ∈ states, r.Matches before (c :: middle) after := by
  simp only [step, List.mem_eraseDups, List.mem_flatMap]
  constructor
  · rintro ⟨s, ⟨r, mem, inside⟩, h⟩
    exact ⟨r, mem, (exists_mem_residuals_iff c r before middle after).1 ⟨s, inside, h⟩⟩
  · rintro ⟨r, mem, h⟩
    obtain ⟨s, inside, h⟩ := (exists_mem_residuals_iff c r before middle after).2 h
    exact ⟨s, ⟨r, mem, inside⟩, h⟩

/-- Following the residuals to the end of a text decides whether one of the alternatives matches it. -/
theorem run_iff (states : List Regex) (before t : Text) :
    run before.isEmpty states t = true ↔ ∃ r ∈ states, r.Matches before t [] := by
  induction t generalizing before states with
  | nil =>
    rw [run, List.any_eq_true]
    exact exists_congr fun r => and_congr_right fun _ => nullable_iff r before []
  | cons c t ih =>
    have inside : (before ++ [c]).isEmpty = false := by simp
    rw [run, ← inside, ih, exists_mem_step_iff]

theorem matches_anyText (before middle after : Text) : anyText.Matches before middle after := by
  induction middle generalizing before with
  | nil => exact .none
  | cons c middle ih => exact @Several.more _ before [c] middle after ⟨c, rfl, rfl⟩ (ih _)

/-- **The search decides whether an expression matches somewhere.** -/
theorem finds_iff (r : Regex) (t : Text) : r.finds t = true ↔ r.Finds t := by
  refine (run_iff _ [] t).trans ?_
  simp only [List.mem_singleton, exists_eq_left]
  constructor
  · rintro ⟨before, rest, rfl, -, middle, after, rfl, h, -⟩
    exact ⟨before, middle, after, by simp, by simpa using h⟩
  · rintro ⟨before, middle, after, rfl, h⟩
    refine ⟨before, middle ++ after, by simp, matches_anyText _ _ _, middle, after, rfl, ?_,
      matches_anyText _ _ _⟩
    simpa using h

/-! ### Languages -/

/-- The expression has no anchor. -/
def isUnanchored : Regex → Bool
  | .start => false
  | .finish => false
  | .group inner => inner.isUnanchored
  | .seq first second => first.isUnanchored && second.isUnanchored
  | .either first second => first.isUnanchored && second.isUnanchored
  | .repeated _ inner => inner.isUnanchored
  | _ => true

/-- The stretches that an expression matches where no anchor forbids it. -/
def language : Regex → Language Char
  | .one set => {t | ∃ c, set.contains c = true ∧ t = [c]}
  | .group inner => inner.language
  | .seq first second => first.language * second.language
  | .either first second => first.language + second.language
  | .repeated .anyNumber inner => inner.language∗
  | .repeated .atLeastOnce inner => inner.language * inner.language∗
  | .repeated .atMostOnce inner => 1 + inner.language
  | _ => 1

theorem mem_language_one {set : CharSet} {t : Text} :
    t ∈ (one set).language ↔ ∃ c, set.contains c = true ∧ t = [c] :=
  Iff.rfl

@[simp] theorem language_single (c : Char) : (one (.single c)).language = {[c]} := by
  ext t
  simp only [mem_language_one, CharSet.contains_single, beq_iff_eq, exists_eq_left']
  exact Iff.rfl

/-- Two stretches in a row, where the surroundings do not matter. -/
private theorem then_iff_mem_mul {P Q : Stretch} {l m : Language Char}
    (first : ∀ before middle after, P before middle after ↔ middle ∈ l)
    (second : ∀ before middle after, Q before middle after ↔ middle ∈ m)
    (before middle after : Text) : Then P Q before middle after ↔ middle ∈ l * m := by
  simp only [Then, first, second, Language.mem_mul]
  constructor
  · rintro ⟨m₁, m₂, rfl, h₁, h₂⟩
    exact ⟨m₁, h₁, m₂, h₂, rfl⟩
  · rintro ⟨m₁, h₁, m₂, h₂, rfl⟩
    exact ⟨m₁, m₂, rfl, h₁, h₂⟩

/-- Any number of stretches in a row, where the surroundings do not matter. -/
private theorem several_iff_mem_kstar {P : Stretch} {l : Language Char}
    (member : ∀ before middle after, P before middle after ↔ middle ∈ l)
    (before middle after : Text) : Several P before middle after ↔ middle ∈ l∗ := by
  constructor
  · intro h
    induction h with
    | none => exact Language.nil_mem_kstar l
    | more first _ ih =>
      rw [← Language.one_add_self_mul_kstar_eq_kstar]
      exact .inr (Language.append_mem_mul ((member _ _ _).1 first) ih)
  · rw [Language.mem_kstar]
    rintro ⟨members, rfl, good⟩
    induction members generalizing before with
    | nil => exact .none
    | cons first others ih =>
      exact .more ((member _ _ _).2 (good first List.mem_cons_self))
        (ih _ fun y mem => good y (List.mem_cons_of_mem _ mem))

/-- **Without anchors it does not matter what stands around a stretch.** -/
theorem matches_iff_mem_language {r : Regex} (unanchored : r.isUnanchored = true)
    (before middle after : Text) : r.Matches before middle after ↔ middle ∈ r.language := by
  induction r generalizing before middle after with
  | empty => exact Iff.rfl
  | one set => exact Iff.rfl
  | start => cases unanchored
  | finish => cases unanchored
  | group inner ih => exact ih unanchored _ _ _
  | seq first second ih₁ ih₂ =>
    obtain ⟨h₁, h₂⟩ := Bool.and_eq_true_iff.1 unanchored
    exact then_iff_mem_mul (ih₁ h₁) (ih₂ h₂) _ _ _
  | either first second ih₁ ih₂ =>
    obtain ⟨h₁, h₂⟩ := Bool.and_eq_true_iff.1 unanchored
    exact or_congr (ih₁ h₁ _ _ _) (ih₂ h₂ _ _ _)
  | repeated count inner ih =>
    have member := ih unanchored
    cases count with
    | anyNumber => exact several_iff_mem_kstar member _ _ _
    | atLeastOnce => exact then_iff_mem_mul member (several_iff_mem_kstar member) _ _ _
    | atMostOnce => exact or_congr Iff.rfl (member _ _ _)

/-- An expression in a group and between anchors. -/
def anchored (r : Regex) : Regex := .seq .start (.seq (.group r) .finish)

/-- **Between anchors the whole text has to be matched.** -/
theorem finds_anchored_iff {r : Regex} (unanchored : r.isUnanchored = true) (t : Text) :
    r.anchored.Finds t ↔ t ∈ r.language := by
  constructor
  · rintro ⟨before, middle, after, rfl, m₁, m₂, rfl, ⟨rfl, rfl⟩, m₃, m₄, rfl, h, rfl, rfl⟩
    simpa using (matches_iff_mem_language unanchored _ _ _).1 h
  · intro h
    refine ⟨[], t, [], by simp, [], t, rfl, ⟨rfl, rfl⟩, t, [], by simp, ?_, rfl, rfl⟩
    exact (matches_iff_mem_language unanchored _ _ _).2 h

end Regex

end ShellWord
