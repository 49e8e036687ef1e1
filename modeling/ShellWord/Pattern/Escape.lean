import ShellWord.Text.Basic

/-!
# Escapes in patterns

In a pattern a backslash takes the special meaning from the character after it.  Quoted text enters
a pattern escaped, so that it matches itself; a pattern without active characters stands for the
text that remains when its escapes are removed.

## Main definitions

* `Pattern.escape`: the pattern that stands for a text
* `Pattern.unescape`: the text a pattern without active characters stands for
* `Pattern.hasGroup`: an unescaped group opener `@( *( +( ?( !(` occurs
* `Pattern.isActive`: the pattern has to be matched against file names
-/

namespace ShellWord.Pattern

/-- The characters with a meaning in some pattern. -/
def isSpecial (c : Char) : Bool :=
  c == '*' || c == '?' || c == '[' || c == ']' || c == '\\' || c == '(' || c == ')' || c == '|' ||
    c == '@' || c == '+' || c == '!'

/-- The characters that open a group when a parenthesis follows. -/
def isGroupMark (c : Char) : Bool :=
  c == '@' || c == '*' || c == '+' || c == '?' || c == '!'

/-- One character of a text as it is written in a pattern. -/
def escapeChar (c : Char) : Text :=
  if isSpecial c then ['\\', c] else [c]

/-- The pattern that stands for a text: every special character gets a backslash. -/
def escape (t : Text) : Text :=
  t.flatMap escapeChar

@[simp] theorem escape_nil : escape [] = [] := rfl

theorem escape_cons (c : Char) (t : Text) : escape (c :: t) = escapeChar c ++ escape t := rfl

/-- Remove one level of escapes.  A backslash at the very end stands for itself. -/
def unescape : Text → Text
  | [] => []
  | ['\\'] => ['\\']
  | '\\' :: c :: t => c :: unescape t
  | c :: t => c :: unescape t

/-- An unescaped `*`, `?` or `[` occurs. -/
def hasWildcard : Text → Bool
  | [] => false
  | ['\\'] => false
  | '\\' :: _ :: t => hasWildcard t
  | c :: t => c == '*' || c == '?' || c == '[' || hasWildcard t

theorem hasWildcard_cons {c : Char} (backslash : c ≠ '\\') (t : Text) :
    hasWildcard (c :: t) = (c == '*' || c == '?' || c == '[' || hasWildcard t) := by
  rw [hasWildcard]
  · rintro rfl
    exact absurd rfl backslash
  · rintro _ _ rfl
    exact absurd rfl backslash

/-- An unescaped group opener occurs: one of `@ * + ? !` with a parenthesis after it. -/
def hasGroup : Text → Bool
  | [] => false
  | [_] => false
  | '\\' :: _ :: t => hasGroup t
  | c :: d :: t => (isGroupMark c && d == '(') || hasGroup (d :: t)

/-- The pattern has active characters: wildcards, and group openers where groups are switched on. -/
def isActive (extglob : Bool) (pattern : Text) : Bool :=
  hasWildcard pattern || (extglob && hasGroup pattern)

end ShellWord.Pattern
