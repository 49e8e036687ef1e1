import ShellWord.Regex.CharSet

/-!
# Regular expressions and matching

Matching follows the residuals of an expression: what is left to match after one character, as a list
of alternatives.  A text is matched when, after its last character, one of the residuals may be empty.
There are only as many different residuals as the expression has positions, and equal ones are merged
after every character, so matching takes no more time than the product of the two sizes, whatever the
nesting of the groups.  The two anchors match the empty text at an end of the whole text; so it is kept
in mind whether that end is reached.

## Main definitions

* `Regex`: the expressions
* `Regex.nullable`: the expression matches the empty text
* `Regex.residuals`: what is left to match after one character
* `Regex.finds`: the expression matches somewhere in a text
-/

namespace ShellWord

/-- How often an expression is repeated. -/
inductive Repetition where
  | anyNumber
  | atLeastOnce
  | atMostOnce
  deriving DecidableEq, Repr

/-- A regular expression. -/
inductive Regex where
  /-- the empty text -/
  | empty
  /-- one character of a set -/
  | one (set : CharSet)
  /-- the empty text at the beginning -/
  | start
  /-- the empty text at the end -/
  | finish
  /-- an expression between parentheses -/
  | group (inner : Regex)
  /-- one after the other -/
  | seq (first second : Regex)
  /-- one or the other -/
  | either (first second : Regex)
  /-- several times in a row -/
  | repeated (count : Repetition) (inner : Regex)
  deriving DecidableEq, Repr

namespace Regex

/-- The expression matches the empty text, at a place that may be the beginning or the end. -/
def nullable (atStart atEnd : Bool) : Regex → Bool
  | .empty => true
  | .one _ => false
  | .start => atStart
  | .finish => atEnd
  | .group inner => inner.nullable atStart atEnd
  | .seq first second => first.nullable atStart atEnd && second.nullable atStart atEnd
  | .either first second => first.nullable atStart atEnd || second.nullable atStart atEnd
  | .repeated .atLeastOnce inner => inner.nullable atStart atEnd
  | .repeated _ _ => true

/-- One after the other, where the empty text adds nothing. -/
def andThen : Regex → Regex → Regex
  | .empty, second => second
  | first, second => .seq first second

/-- What may still follow once an expression that is repeated was matched. -/
def remaining : Repetition → Regex → Regex
  | .atMostOnce, _ => .empty
  | _, inner => .repeated .anyNumber inner

/-- What is left to match after one character, as a list of alternatives. -/
def residuals (atStart : Bool) (c : Char) : Regex → List Regex
  | .empty => []
  | .one set => if set.contains c then [.empty] else []
  | .start => []
  | .finish => []
  | .group inner => inner.residuals atStart c
  | .seq first second =>
    (first.residuals atStart c).map (andThen · second) ++
      (if first.nullable atStart false then second.residuals atStart c else [])
  | .either first second => first.residuals atStart c ++ second.residuals atStart c
  | .repeated count inner =>
    (inner.residuals atStart c).map (andThen · (remaining count inner))

/-- What is left to match of a list of alternatives after one character. -/
def step (atStart : Bool) (c : Char) (states : List Regex) : List Regex :=
  (states.flatMap (residuals atStart c)).eraseDups

/-- One of the alternatives matches all of the text that is left. -/
def run (atStart : Bool) (states : List Regex) : Text → Bool
  | [] => states.any (nullable atStart true)
  | c :: t => run false (step atStart c states) t

/-- Any text. -/
def anyText : Regex := .repeated .anyNumber (.one .all)

/-- The expression matches somewhere in the text. -/
def finds (r : Regex) (t : Text) : Bool :=
  run true [.seq anyText (.seq r anyText)] t

end Regex

end ShellWord
