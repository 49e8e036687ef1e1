import ShellWord.Text.Basic

/-!
# Errors of arithmetic

## Main definitions

* `Arith.Error`: the causes
* `Arith.Error.message`: their wording
-/

namespace ShellWord.Arith

/-- Why arithmetic fails.  The token of a cause is what stands at the place of the error,
to the end of the expression. -/
inductive Error where
  /-- a number with a digit outside of its base, or too large -/
  | valueTooGreat (literal : Text)
  /-- a character that begins no token -/
  | invalidOperator (token : Text)
  /-- the expression ends where an operand is expected -/
  | operandMissing
  /-- something else stands where an operand is expected -/
  | operandExpected (token : Text)
  /-- a symbol is missing -/
  | symbolExpected (symbol : Char) (token : Text)
  /-- the expression is over before its text is -/
  | trailing (token : Text)
  /-- a variable refers to others too many levels deep -/
  | recursionLevel (name : Text)
  | divisionByZero
  | negativeExponent
  /-- the length of a slice is negative, or ends it before it begins -/
  | negativeLength
  deriving DecidableEq, Repr

namespace Error

/-- A message with the text at the place of the error. -/
def withToken (text : String) (token : Text) : Text :=
  text.toList ++ " (error token is ".toList ++ '\x22' :: (token ++ ['\x22', ')'])

/-- The wording of an error. -/
def message : Error → Text
  | .valueTooGreat literal => withToken "value too great for base" literal
  | .invalidOperator token => withToken "syntax error: invalid arithmetic operator" token
  | .operandMissing => "syntax error: operand expected".toList
  | .operandExpected token => withToken "syntax error: operand expected" token
  | .symbolExpected symbol token =>
    "syntax error: ".toList ++ '\x60' :: symbol :: '\x27' :: withToken " expected" token
  | .trailing token => withToken "syntax error in expression" token
  | .recursionLevel name => withToken "expression recursion level exceeded" name
  | .divisionByZero => "division by 0".toList
  | .negativeExponent => "exponent less than 0".toList
  | .negativeLength => "substring expression < 0".toList

end Error

end ShellWord.Arith
