import ShellWord.Text.Basic

/-!
# Engines

Matching regular expressions is the work of an engine: it is given the text of an expression and
decides which texts the expression is found in.  Some texts are no expressions.

## Main definitions

* `Matcher`: what decides whether a text is matched
* `Engine`: what compiles the text of an expression
-/

namespace ShellWord

/-- What decides whether a text is matched. -/
abbrev Matcher := Text → Bool

/-- What compiles the text of an expression; there is no matcher for a text that is no expression. -/
abbrev Engine := Text → Option Matcher

end ShellWord
