import ShellWord.Arith.Error

/-!
# Errors of expansion

Why the expansion of a command fails.  One cause is soft: an expansion that is not well formed is
replaced by its source text, and the command goes on.  All others abort the command.

## Main definitions

* `ExpandError`: the causes
* `ExpandError.message`: their wording
* `ExpandError.isSoft`: the cause does not abort the command
-/

namespace ShellWord

/-- Why an expansion fails. -/
inductive ExpandError where
  /-- `${x?word}` of a parameter that is unset, or null -/
  | nullOrUnset (parameter message : Text)
  /-- a parameter is unset where unset parameters are errors -/
  | unbound (name : Text)
  /-- the arithmetic in a text fails -/
  | arithmetic (expression : Text) (cause : Arith.Error)
  /-- a pattern matches no file where that is an error -/
  | noMatch (text : Text)
  /-- a command could not be run -/
  | command (reason : Text)
  /-- a process substitution could not be set up -/
  | process (reason : Text)
  /-- a special parameter cannot be given a value -/
  | cannotAssign (parameter : Text)
  /-- the expansion is not well formed -/
  | badSubstitution (source : Text)
  deriving DecidableEq, Repr

namespace ExpandError

/-- The wording of an error. -/
def message : ExpandError → Text
  | .nullOrUnset parameter message => parameter ++ ": ".toList ++ message
  | .unbound name => name ++ ": unbound variable".toList
  | .arithmetic expression cause => expression ++ ": ".toList ++ cause.message
  | .noMatch text => "no match: ".toList ++ text
  | .command reason => "command substitution: ".toList ++ reason
  | .process reason => "process substitution: ".toList ++ reason
  | .cannotAssign parameter => parameter ++ ": cannot assign in this way".toList
  | .badSubstitution source => source ++ ": bad substitution".toList

/-- The error does not abort the command. -/
def isSoft : ExpandError → Bool
  | .badSubstitution _ => true
  | _ => false

end ExpandError

end ShellWord
