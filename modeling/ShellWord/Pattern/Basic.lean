import ShellWord.Pattern.Translation
import ShellWord.Regex.Reader

/-!
# Patterns

A pattern matches whole texts.  An engine compiles the expression that it is rewritten into.  Where the
pattern has a group `!(…)`, it is rewritten twice: once with the group as any text and once with the
group as one of its alternatives.  A text is matched when the first expression matches it and the second
does not.

## Main definitions

* `Pattern`: a pattern that has been compiled
* `Pattern.excludes`: the text has an unescaped `!(` and is rewritten twice
* `Pattern.compile?`: compile a pattern text
* `Pattern.ofText?`: the same with the engine of `Regex`
* `Pattern.accepts`: the pattern matches a whole text
-/

namespace ShellWord

/-- A pattern that has been compiled. -/
structure Pattern where
  /-- what has to match a text -/
  required : Matcher
  /-- what must not match a text -/
  forbidden : Option Matcher

namespace Pattern

/-- An unescaped `!(` occurs in the text, wherever it stands. -/
def excludes : Text → Bool
  | [] => false
  | [_] => false
  | '\\' :: _ :: t => excludes t
  | c :: d :: t => (c == '!' && d == '(') || excludes (d :: t)

/-- Compile a pattern text; with `extglob` extended groups are recognised.  Some texts are no patterns. -/
def compile? (engine : Engine) (extglob : Bool) (t : Text) : Option Pattern := do
  let required ← engine (expression extglob .anything t)
  if extglob && excludes t then
    let forbidden ← engine (expression extglob .alternative t)
    return ⟨required, some forbidden⟩
  else
    return ⟨required, none⟩

/-- Compile a pattern text with the engine of `Regex`. -/
def ofText? (extglob : Bool) (t : Text) : Option Pattern :=
  compile? Regex.engine extglob t

/-- The pattern matches the whole text. -/
def accepts (p : Pattern) (t : Text) : Bool :=
  p.required t && !(p.forbidden.any fun forbidden => forbidden t)

end Pattern

end ShellWord
