import ShellWord.Pattern.Trim
import ShellWord.Text.Case

/-!
# Changing case

`${x^p}` and `${x^^p}` change a value to upper case, `${x,p}` and `${x,,p}` to lower case: its first
character, or all of them, as far as the pattern matches the single character.

## Main definitions

* `CaseDirection.apply`: change one character
* `changeCase`: change a value
-/

namespace ShellWord

/-- Change one character. -/
def CaseDirection.apply : CaseDirection → Char → Text
  | .upper => Text.upper
  | .lower => Text.lower

/-- Change the characters that `p` matches. -/
def changeAll (direction : CaseDirection) (p : Matcher) (value : Text) : Text :=
  value.flatMap fun c => if p [c] then direction.apply c else [c]

/-- Change the first character if `p` matches it. -/
def changeFirst (direction : CaseDirection) (p : Matcher) : Text → Text
  | [] => []
  | c :: t => (if p [c] then direction.apply c else [c]) ++ t

/-- Change the first character or all of them, as far as `p` matches them. -/
def changeCase (direction : CaseDirection) (all : Bool) (p : Matcher) (value : Text) : Text :=
  if all then changeAll direction p value else changeFirst direction p value

end ShellWord
