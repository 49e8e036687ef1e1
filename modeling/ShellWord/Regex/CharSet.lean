import ShellWord.Text.Basic

/-!
# Sets of characters

One position of a pattern matches one character out of a set: a literal character, any character at
all, or what a bracket expression lists.  All of them are ranges of characters, or what lies outside
of such ranges.

## Main definitions

* `CharSet`: ranges, possibly negated
* `CharSet.contains`: membership
-/

namespace ShellWord

/-- A set of characters, given by ranges with both ends included, or by what lies outside of them. -/
structure CharSet where
  negated : Bool
  ranges : List (Char × Char)
  deriving DecidableEq, Repr

namespace CharSet

/-- The set of one character. -/
def single (c : Char) : CharSet := ⟨false, [(c, c)]⟩

/-- The set of all characters. -/
def all : CharSet := ⟨true, []⟩

/-- The character lies in the range. -/
def inRange (c : Char) (range : Char × Char) : Bool :=
  range.1 ≤ c && c ≤ range.2

/-- The character belongs to the set. -/
def contains (set : CharSet) (c : Char) : Bool :=
  set.ranges.any (inRange c) != set.negated

@[simp] theorem contains_all (c : Char) : all.contains c = true := rfl

@[simp] theorem contains_single (c d : Char) : (single c).contains d = (c == d) := by
  by_cases h : c = d
  · subst h
    simp [contains, single, inRange]
  · have outside : ¬ (c ≤ d ∧ d ≤ c) := fun both => h (Char.le_antisymm both.1 both.2)
    have : (c == d) = false := beq_eq_false_iff_ne.2 h
    simp only [contains, single, inRange, List.any_cons, List.any_nil, Bool.or_false, this]
    simpa using outside

end CharSet

end ShellWord
