import ShellWord.Proofs.Pattern.Extglob
import ShellWord.Proofs.Regex.Reading

/-!
# The expressions that patterns become

A pattern is rewritten into a text, and that the text denotes the right expression is a fact about how regular
expressions are written.  The table of characters that are escaped is the one of the characters that have a
meaning there, so `literal c` denotes the character `c` whatever it is.  The expression of a group denotes the
repetition that its mark asks for.  Between the anchors that `anchor` adds, an engine has to match all of a
text, so what it decides is a language.

## Main results

* `Pattern.reads_literal`: an escaped character stands for itself
* `Pattern.reads_group`: a group denotes the repetition of its alternatives
* `Engine.Standard.anchor_iff`, `Engine.Standard.exists_anchor`: an anchored expression decides its language
* `Engine.Standard.anchor_eq_none`: an expression that begins with a faulty class is refused
-/

open Computability

namespace ShellWord

open Regex (Reads)

/-- The expression that a group denotes, given that of its alternatives. -/
def Group.Mark.regex (exclusion : Exclusion) (inner : Regex) : Group.Mark → Regex
  | .once => .group inner
  | .anyNumber => .repeated .anyNumber (.group inner)
  | .atLeastOnce => .repeated .atLeastOnce (.group inner)
  | .atMostOnce => .repeated .atMostOnce (.group inner)
  | .excluded =>
    match exclusion with
    | .anything => Regex.anyText
    | .alternative => .group inner

theorem Group.Mark.isUnanchored_regex {inner : Regex} (h : inner.isUnanchored = true) (exclusion : Exclusion)
    (mark : Group.Mark) : (mark.regex exclusion inner).isUnanchored = true := by
  cases mark with
  | excluded =>
    cases exclusion with
    | anything => rfl
    | alternative => exact h
  | _ => exact h

namespace Pattern

/-- The characters that are escaped are those that have a meaning. -/
theorem isRegexSpecial_eq_isMeta (c : Char) : isRegexSpecial c = Regex.isMeta c := by
  rw [Bool.eq_iff_iff, isRegexSpecial, Regex.isMeta]
  simp only [List.contains_eq_mem, List.mem_cons, List.not_mem_nil, or_false, decide_eq_true_eq]
  tauto

/-- **A literal character denotes itself**, also if it is special in expressions. -/
theorem reads_literal (c : Char) : Reads .factor (literal c) (.one (.single c)) := by
  unfold literal
  split
  · next special => exact .once (.escaped (isRegexSpecial_eq_isMeta c ▸ special))
  · next ordinary =>
    exact .once (.char (by rw [← isRegexSpecial_eq_isMeta]; exact Bool.eq_false_iff.2 ordinary))

theorem reads_anyText : Reads .factor ['.', '*'] Regex.anyText :=
  .repeated .anyNumber .dot

/-- **A group denotes the repetition that its mark asks for.** -/
theorem reads_group {u : Text} {r : Regex} (h : Reads .whole u r) (exclusion : Exclusion)
    (mark : Group.Mark) : Reads .factor (mark.expression exclusion u) (mark.regex exclusion r) := by
  have counted (count : Repetition) :
      Reads .factor ('(' :: '?' :: ':' :: (u ++ [')', Regex.symbol count]))
        (.repeated count (.group r)) := by
    simpa using Reads.repeated count (.group h)
  cases mark with
  | once => exact .once (.group h)
  | anyNumber => exact counted .anyNumber
  | atLeastOnce => exact counted .atLeastOnce
  | atMostOnce => exact counted .atMostOnce
  | excluded =>
    cases exclusion with
    | anything => exact reads_anyText
    | alternative => exact .once (.group h)

/-- An anchored expression is the flag and the expression between anchors. -/
theorem anchor_eq (u : Text) :
    anchor u = Regex.dotFlag ++ ('^' :: '(' :: '?' :: ':' :: (u ++ [')', '$'])) := by
  have opening : "(?s)^(?:".toList = Regex.dotFlag ++ ['^', '(', '?', ':'] := by decide
  have closing : ")$".toList = [')', '$'] := by decide
  unfold anchor
  simp only [opening, closing, List.append_assoc, List.cons_append, List.nil_append]

end Pattern

namespace Engine.Standard

variable {engine : Engine} {admits : Text → Prop} {u : Text} {r : Regex}

/-- **Between the anchors an engine decides the language of an expression.** -/
theorem anchor_iff (standard : engine.Standard admits) (reads : Reads .whole u r)
    (unanchored : r.isUnanchored = true) {m : Matcher}
    (compiled : engine (Pattern.anchor u) = some m) (t : Text) : m t = true ↔ t ∈ r.language := by
  rw [Pattern.anchor_eq] at compiled
  rw [standard.finds reads.anchored compiled, Regex.finds_anchored_iff unanchored]

/-- Within its limits it compiles the expression. -/
theorem exists_anchor (standard : engine.Standard admits) (reads : Reads .whole u r)
    (unanchored : r.isUnanchored = true) (admitted : admits (Pattern.anchor u)) :
    ∃ m, engine (Pattern.anchor u) = some m ∧ ∀ t, m t = true ↔ t ∈ r.language := by
  have within := admitted
  rw [Pattern.anchor_eq] at within
  obtain ⟨m, compiled⟩ := standard.compiles reads.anchored within
  rw [← Pattern.anchor_eq] at compiled
  exact ⟨m, compiled, standard.anchor_iff reads unanchored compiled⟩

/-- Behind the first anchor it refuses a faulty class. -/
theorem anchor_eq_none (standard : engine.Standard admits) (faulty : ∀ rest, Regex.Faulty .whole (u ++ rest)) :
    engine (Pattern.anchor u) = none := by
  rw [Pattern.anchor_eq]
  exact standard.refuses (faulty _).anchored

end Engine.Standard

/-- The limit of `Regex.engine` for an anchored expression. -/
theorem Regex.Reads.isWithinLimit_anchor {u : Text} {r : Regex} (h : Reads .whole u r) :
    Regex.isWithinLimit (Pattern.anchor u) = r.anchored.isShallow := by
  rw [Pattern.anchor_eq, h.anchored.isWithinLimit]

end ShellWord
