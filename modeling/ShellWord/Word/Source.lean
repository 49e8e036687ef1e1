import ShellWord.Word.Basic

/-!
# Source text

The text a word was written as, without its outer quotes.  It is what a literally quoted word
expands to, and what stands in for an expansion that is not well formed.

## Main definitions

* `Word.source`, `Part.source`, `Expansion.source`
* `Operator.source`: what stands between the braces of `${name op word}`
-/

namespace ShellWord

/-- The opening of a process substitution. -/
def Flow.opener : Flow → Text
  | .input => ['<', '(']
  | .output => ['>', '(']

/-- `text` between `${` and the closing brace. -/
def braced (text : Text) : Text :=
  '$' :: '\x7b' :: (text ++ ['\x7d'])

/-- The colon that makes a null value count as unset. -/
def colonMark (colon : Bool) : Text :=
  if colon then [':'] else []

/-- A mark that is doubled in the long form of an operator. -/
def doubledMark (mark : Char) (doubled : Bool) : Text :=
  if doubled then [mark, mark] else [mark]

/-- The marks of a replacement: all matches, the first one, or one at an end of the value. -/
def replaceMark : Bool → Option Anchor → Text
  | true, _ => ['/', '/']
  | false, some .start => ['/', '#']
  | false, some .finish => ['/', '%']
  | false, none => ['/']

/-- The mark of a change of case. -/
def CaseDirection.mark : CaseDirection → Char
  | .upper => '^'
  | .lower => ','

mutual

/-- The source text of a word, without its outer quotes. -/
def Word.source : Word → Text
  | .mk parts _ => partsSource parts

/-- The source texts of the parts, one after the other. -/
def partsSource : List Part → Text
  | [] => []
  | part :: parts => part.source ++ partsSource parts

/-- The source text of a part, without its quotes. -/
def Part.source : Part → Text
  | .literal text _ => text
  | .expansion expansion _ => expansion.source

/-- The source text of an expansion.  A name of several digits needs braces. -/
def Expansion.source : Expansion → Text
  | .variable name =>
    if name.length > 1 && name.all Text.isDigit then braced name else '$' :: name
  | .parameter name none _ => braced name
  | .parameter name (some operator) word => braced (operator.source name (wordSource word))
  | .command command true => '\x60' :: (command ++ ['\x60'])
  | .command command false => '$' :: '(' :: (command ++ [')'])
  | .arithmetic expression => '$' :: '(' :: '(' :: (expression ++ [')', ')'])
  | .process flow command => flow.opener ++ command ++ [')']

/-- What stands between the braces: the name, the operator and the operand, in the operator's
order. -/
def Operator.source (name operand : Text) : Operator → Text
  | .length => '#' :: name
  | .useDefault colon => name ++ colonMark colon ++ '-' :: operand
  | .assignDefault colon => name ++ colonMark colon ++ '=' :: operand
  | .errorIfUnset colon => name ++ colonMark colon ++ '?' :: operand
  | .useAlternative colon => name ++ colonMark colon ++ '+' :: operand
  | .trimFront longest => name ++ doubledMark '#' longest ++ operand
  | .trimBack longest => name ++ doubledMark '%' longest ++ operand
  | .replace all anchor none => name ++ replaceMark all anchor ++ operand
  | .replace all anchor (some replacement) =>
    name ++ replaceMark all anchor ++ operand ++ '/' :: replacement.source
  | .substring offset none => name ++ ':' :: offset
  | .substring offset (some count) => name ++ ':' :: offset ++ ':' :: count
  | .changeCase direction all => name ++ doubledMark direction.mark all ++ operand

/-- The source text of an operand; nothing when there is none. -/
def wordSource : Option Word → Text
  | none => []
  | some word => word.source

end

end ShellWord
