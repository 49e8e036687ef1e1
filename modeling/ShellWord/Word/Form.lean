import ShellWord.Arith.Paren
import ShellWord.Word.Basic

/-!
# Forms of words

What the shell reads off the form of a word before it expands it: whether the word is an assignment,
whether it is a process substitution, and whether it holds the list `$@`.

## Main definitions

* `Word.isAssignment`: the word begins with `NAME=` or `NAME+=`, unquoted
* `Substitution`, `Word.substitution?`: the word is `<(command)` or `>(command)`
* `Word.hasPositionalAt`: the word holds `$@`, `${@}` or a slice `${@:offset}`
-/

namespace ShellWord

/-- The text begins with a name and `=` or `+=`. -/
def beginsAssignment (t : Text) : Bool :=
  match t.takeWhile Text.isNameChar, t.dropWhile Text.isNameChar with
  | name, '=' :: _ => Text.isName name
  | name, '+' :: '=' :: _ => Text.isName name
  | _, _ => false

/-- An assignment is an unquoted word whose first part is an unquoted literal that begins with
`NAME=` or `NAME+=`. -/
def Word.isAssignment : Word → Bool
  | .mk (.literal text none :: _) none => beginsAssignment text
  | _ => false

/-- A process substitution: its direction, its command, and the text after its parenthesis. -/
structure Substitution where
  flow : Flow
  command : Text
  suffix : Text
  deriving DecidableEq, Repr

/-- The process substitution a text begins with.  The parenthesis has to be closed. -/
def Substitution.ofText? : Text → Option Substitution
  | '<' :: t => (Paren.close? t).map fun (command, suffix) => ⟨.input, command, suffix⟩
  | '>' :: t => (Paren.close? t).map fun (command, suffix) => ⟨.output, command, suffix⟩
  | _ => none

/-- The process substitution that a word is: one unquoted literal that begins with one, or one
unquoted expansion. -/
def Word.substitution? : Word → Option Substitution
  | .mk [.literal text none] none => Substitution.ofText? text
  | .mk [.expansion (.process flow command) none] none => some ⟨flow, command, []⟩
  | _ => none

/-- A word of the command is a process substitution. -/
def Command.hasSubstitution (command : Command) : Bool :=
  command.words.any fun word => word.substitution?.isSome

/-- `$@`, `${@}` and the slices `${@:offset}`, which may contribute several fields. -/
def Expansion.isPositionalAt : Expansion → Bool
  | .variable ['@'] => true
  | .parameter ['@'] none _ => true
  | .parameter ['@'] (some (.substring _ _)) _ => true
  | _ => false

/-- A part of the word is the list `$@` or a slice of it. -/
def Word.hasPositionalAt (word : Word) : Bool :=
  word.parts.any fun
    | .expansion expansion _ => expansion.isPositionalAt
    | .literal _ _ => false

end ShellWord
