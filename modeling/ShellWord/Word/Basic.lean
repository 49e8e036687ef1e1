import ShellWord.Text.Basic

/-!
# Words

A word is what the shell's grammar calls a word, already taken apart: literal text and expansions,
each with the quotes it was written in.  Expansions may hold words again (the operand of
`${x:-word}`, the replacement of `${x/word/word}`), so the types are defined together, and every
function on words is recursion on this structure.

## Main definitions

* `Quote`: the three ways to quote
* `Word`, `Part`, `Expansion`, `Operator`: the structure of a word
* `Expansion.positionalList?`: which expansions stand for the whole positional list
-/

namespace ShellWord

/-- The ways to quote text: `'text'`, `"text"` and `$'text'`. -/
inductive Quote where
  | single
  | double
  | ansiC
  deriving DecidableEq, Repr

namespace Quote

/-- The character that opens the quotes. -/
def mark : Quote → Char
  | .single | .ansiC => '\x27'
  | .double => '\x22'

/-- Single and ANSI-C quotes suppress every expansion. -/
def isLiteral : Quote → Bool
  | .single | .ansiC => true
  | .double => false

end Quote

/-- Where a replacement has to match: at the start or at the end of the value. -/
inductive Anchor where
  | start
  | finish
  deriving DecidableEq, Repr

/-- The direction of a change of case. -/
inductive CaseDirection where
  | upper
  | lower
  deriving DecidableEq, Repr

/-- The direction of a process substitution: `<(command)` is read from, `>(command)` is written to. -/
inductive Flow where
  | input
  | output
  deriving DecidableEq, Repr

/-- The two spellings of the positional list, `$@` and `$*`. -/
inductive PositionalList where
  | at
  | star
  deriving DecidableEq, Repr

mutual

/-- A word is a sequence of parts.  If it is quoted as a whole then the quotes of its parts do not
count; otherwise each part has its own, as in `pre"mid"$x`. -/
inductive Word where
  | mk (parts : List Part) (quote : Option Quote)

/-- A part of a word: raw text or an expansion, with the quotes it was written in. -/
inductive Part where
  | literal (text : Text) (quote : Option Quote)
  | expansion (expansion : Expansion) (quote : Option Quote)

/-- The expansions.  Arithmetic and commands are kept as text. -/
inductive Expansion where
  /-- `$name`, with the special names `@ * # ? ! $ -` and digits among the names -/
  | variable (name : Text)
  /-- `${name}`, `${name op word}` -/
  | parameter (name : Text) (operator : Option Operator) (word : Option Word)
  /-- `$(command)`, or the same between backticks -/
  | command (command : Text) (backtick : Bool)
  /-- `$((expression))` -/
  | arithmetic (expression : Text)
  /-- `<(command)` or `>(command)` -/
  | process (flow : Flow) (command : Text)

/-- The operators of a braced expansion.  With a colon, a null value counts as unset. -/
inductive Operator where
  /-- `${x-word}`, `${x:-word}` -/
  | useDefault (colon : Bool)
  /-- `${x=word}`, `${x:=word}` -/
  | assignDefault (colon : Bool)
  /-- `${x?word}`, `${x:?word}` -/
  | errorIfUnset (colon : Bool)
  /-- `${x+word}`, `${x:+word}` -/
  | useAlternative (colon : Bool)
  /-- `${x#word}`, `${x##word}` -/
  | trimFront (longest : Bool)
  /-- `${x%word}`, `${x%%word}` -/
  | trimBack (longest : Bool)
  /-- `${x/word/replacement}`, `${x//..}`, `${x/#..}`, `${x/%..}` -/
  | replace (all : Bool) (anchor : Option Anchor) (replacement : Option Word)
  /-- `${#x}` -/
  | length
  /-- `${x:offset}`, `${x:offset:length}`, both arithmetic text -/
  | substring (offset : Text) (length : Option Text)
  /-- `${x^word}`, `${x^^word}`, `${x,word}`, `${x,,word}` -/
  | changeCase (direction : CaseDirection) (all : Bool)

end

namespace Word

/-- The parts of a word, in order. -/
def parts : Word → List Part
  | .mk parts _ => parts

/-- The quotes around the whole word. -/
def quote : Word → Option Quote
  | .mk _ quote => quote

@[simp] theorem parts_mk (parts : List Part) (quote : Option Quote) :
    (Word.mk parts quote).parts = parts := rfl

@[simp] theorem quote_mk (parts : List Part) (quote : Option Quote) :
    (Word.mk parts quote).quote = quote := rfl

/-- The word that is one unquoted literal. -/
def ofText (text : Text) : Word :=
  .mk [.literal text none] none

/-- The word that holds `text` in single quotes. -/
def singleQuoted (text : Text) : Word :=
  .mk [.literal text (some .single)] (some .single)

end Word

/-- The quotes around a part. -/
def Part.quote : Part → Option Quote
  | .literal _ quote => quote
  | .expansion _ quote => quote

/-- Which of the two spellings of the positional list a name is. -/
def PositionalList.ofName? : Text → Option PositionalList
  | ['@'] => some .at
  | ['*'] => some .star
  | _ => none

/-- `$@`, `$*`, `${@}` and `${*}` stand for the positional list itself. -/
def Expansion.positionalList? : Expansion → Option PositionalList
  | .variable name => PositionalList.ofName? name
  | .parameter name none _ => PositionalList.ofName? name
  | _ => none

/-- A command to expand is the list of its words. -/
structure Command where
  words : List Word

end ShellWord
