import ShellWord.Pattern.Bracket
import ShellWord.Pattern.Group

/-!
# From patterns to regular expressions

A pattern is rewritten into the text of a regular expression.  Characters that are special there are
escaped, `*` becomes `.*` and `?` becomes `.`, a bracket expression becomes a class, and, where they
are switched on, extended groups become groups with a repetition.  The alternatives of a group are
patterns again.  A bracket or a group that is never closed is read as the characters it is written
with.

A group `!(…)` has no expression of its own.  It is rewritten in one of two ways, which `Pattern`
combines: as any text, or as one of its alternatives.

## Main definitions

* `Pattern.literal`: a character that stands for itself
* `Pattern.translate`: the expression of a pattern
* `Pattern.expression`: the same between anchors
-/

namespace ShellWord

/-- How a group `!(…)` is rewritten. -/
inductive Exclusion where
  | anything
  | alternative
  deriving DecidableEq, Repr

/-- The expression of a group, given that of its alternatives. -/
def Group.Mark.expression (exclusion : Exclusion) (alternatives : Text) : Group.Mark → Text
  | .once => '(' :: '?' :: ':' :: (alternatives ++ [')'])
  | .anyNumber => '(' :: '?' :: ':' :: (alternatives ++ [')', '*'])
  | .atLeastOnce => '(' :: '?' :: ':' :: (alternatives ++ [')', '+'])
  | .atMostOnce => '(' :: '?' :: ':' :: (alternatives ++ [')', '?'])
  | .excluded =>
    match exclusion with
    | .anything => ['.', '*']
    | .alternative => '(' :: '?' :: ':' :: (alternatives ++ [')'])

namespace Pattern

/-- The characters that are special in a regular expression. -/
def isRegexSpecial (c : Char) : Bool :=
  ['\\', '^', '$', '.', '|', '+', '(', ')', '\x7b', '\x7d', '[', ']', '*', '?'].contains c

/-- A character that stands for itself. -/
def literal (c : Char) : Text :=
  if isRegexSpecial c then ['\\', c] else [c]

/-- The group that begins at a character, given the text after it: its mark and body and what follows
it. -/
def group? (extglob : Bool) (c : Char) (t : Text) : Option (Group.Mark × Text × Text) :=
  if extglob then
    match Group.Mark.ofChar? c, t with
    | some mark, '(' :: inner =>
      (Group.close? 0 inner).map fun (body, rest) => (mark, body, rest)
    | _, _ => none
  else none

/-- A group takes up the mark, the two parentheses and the body. -/
theorem length_group? {extglob : Bool} {c : Char} {t body rest : Text} {mark : Group.Mark}
    (h : group? extglob c t = some (mark, body, rest)) :
    body.length + rest.length + 2 = t.length := by
  unfold group? at h
  split at h
  · split at h
    · obtain ⟨⟨inner, after⟩, found, heq⟩ := Option.map_eq_some_iff.1 h
      simp only [Prod.mk.injEq] at heq
      obtain ⟨-, rfl, rfl⟩ := heq
      rw [List.length_cons, ← Group.length_close? found]
    · simp at h
  · simp at h

/-- The expression of a pattern; with `extglob` extended groups are recognised. -/
def translate (extglob : Bool) (exclusion : Exclusion) (t : Text) : Text :=
  match t with
  | [] => []
  | c :: t =>
    match grouped : group? extglob c t with
    | some (mark, body, rest) =>
      have := length_group? grouped
      mark.expression exclusion
          (List.intercalate ['|']
            ((Group.alternatives body).attach.map fun alternative =>
              have := Group.length_le_of_mem_alternativesAt alternative.2
              translate extglob exclusion alternative.1)) ++
        translate extglob exclusion rest
    | none =>
      if c == '\\' then
        match t with
        | [] => literal '\\'
        | d :: t => literal d ++ translate extglob exclusion t
      else if c == '*' then '.' :: '*' :: translate extglob exclusion t
      else if c == '?' then '.' :: translate extglob exclusion t
      else if c == '[' then
        match bracket : Bracket.close? t with
        | some (content, rest) =>
          have := Bracket.length_close?_lt bracket
          Bracket.classText content ++ translate extglob exclusion rest
        | none => '\\' :: '[' :: translate extglob exclusion t
      else literal c ++ translate extglob exclusion t
termination_by t.length
decreasing_by
  all_goals simp only [List.length_cons] at *
  all_goals omega

/-- An expression between anchors, with the dot for every character. -/
def anchor (inner : Text) : Text :=
  "(?s)^(?:".toList ++ inner ++ ")$".toList

/-- The expression that decides whether a whole text is matched. -/
def expression (extglob : Bool) (exclusion : Exclusion) (t : Text) : Text :=
  anchor (translate extglob exclusion t)

end Pattern

end ShellWord
