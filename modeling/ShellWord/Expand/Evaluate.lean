import ShellWord.Expand.Arithmetic
import ShellWord.Param.Case
import ShellWord.Param.Slice
import ShellWord.Pattern.Basic
import ShellWord.Session.Tilde
import ShellWord.Word.Escape
import ShellWord.Word.Source

/-!
# Evaluating expansions

The text of one expansion, before it is split and matched against files.  The operand of
`${name op word}` is expanded only if the operator uses it, and after the parameter was looked up; so
an operator takes its operand as a computation that it may run.

## Main definitions

* `evaluate`: the text of an expansion; one that is not well formed stands for its source
* `tryEvaluate`: the same, where that is an error
* `expandOperand`: the operand of an operator, as text and as pattern
* `positionalSlice?`: the parameters that `${@:offset:length}` selects
-/

namespace ShellWord

variable {World : Type}

/-! ### Parameters -/

/-- The value of a parameter, which has to be set where unset parameters are errors.  The positional
list is exempt. -/
def requireValue (host : Host World) (name : Text) : Expand World Text := do
  match ← readParameter host name with
  | some value => return value
  | none =>
    let s ← get
    if s.shell.options.nounset && (PositionalList.ofName? name).isNone then
      throw (.unbound name)
    else
      return []

/-- The value of `$name`. -/
def expandVariable (host : Host World) (name : Text) : Expand World Text :=
  if isParameter name then requireValue host name
  else throw (.badSubstitution (braced name))

/-- The value of a parameter, unless it is unset or, with a colon, null. -/
def given? (host : Host World) (name : Text) (colon : Bool) : Expand World (Option Text) := do
  let value ← readParameter host name
  return value.filter fun value => !(colon && value.isEmpty)

/-- Arithmetic text that may be missing. -/
def arithmeticOption (host : Host World) : Option Text → Expand World (Option Int)
  | none => return none
  | some text => do
    let value ← arithmetic host text
    return some value.toInt

/-- The positional parameters that `${@:offset:length}` selects. -/
def slicePositional (host : Host World) (offset : Text) (length : Option Text) :
    Expand World (List Text) := do
  let start ← arithmetic host offset
  let count ← arithmeticOption host length
  let s ← get
  match slicePositional? s.shell.name s.shell.positional start.toInt count with
  | some params => return params
  | none => throw (.arithmetic (length.getD []) .negativeLength)

/-- The positional list and the parameters that a slice `${@:offset:length}` or `${*:offset:length}`
selects; none for any other expansion. -/
def positionalSlice? (host : Host World) :
    Expansion → Expand World (Option (PositionalList × List Text))
  | .parameter name (some (.substring offset length)) _ =>
    match PositionalList.ofName? name with
    | some list => do
      let params ← slicePositional host offset length
      return some (list, params)
    | none => return none
  | _ => return none

/-- The text that joins the parameters of a positional list. -/
def PositionalList.separator (sh : Shell) : PositionalList → Text
  | .at => [' ']
  | .star => sh.separator

/-- `${name:offset:length}`. -/
def expandSubstring (host : Host World) (name offset : Text) (length : Option Text) :
    Expand World Text :=
  match PositionalList.ofName? name with
  | some list => do
    let params ← slicePositional host offset length
    let s ← get
    return List.intercalate (list.separator s.shell) params
  | none => do
    let value ← requireValue host name
    let start ← arithmetic host offset
    let count ← arithmeticOption host length
    match substring? value start.toInt count with
    | some text => return text
    | none => throw (.arithmetic (length.getD []) .negativeLength)

/-- `${#name}`; of the positional list it is the number of parameters. -/
def expandLength (host : Host World) (name : Text) : Expand World Text :=
  match PositionalList.ofName? name with
  | some _ => do
    let s ← get
    return Text.ofNat s.shell.positional.length
  | none => do
    let value ← requireValue host name
    return Text.ofNat value.length

/-! ### Operands -/

/-- The operand of an operator: absent, or to be expanded. -/
abbrev Operand (World : Type) := Expand World (Option Literal)

/-- The text of an operand; nothing when it is absent. -/
def Operand.text (operand : Operand World) : Expand World Text := do
  return ((← operand).map Literal.text).getD []

/-- The pattern of an operand.  There is none when the operand is absent or empty, or is no pattern. -/
def Operand.pattern? (host : Host World) (operand : Operand World) : Expand World (Option Pattern) := do
  match ← operand with
  | none => return none
  | some literal =>
    if literal.pattern.isEmpty then
      return none
    else
      let s ← get
      return Pattern.compile? host.engine s.shell.globbing.extglob literal.pattern

/-- The message for a parameter that has to be set, where the operand gives none. -/
def unsetMessage (colon : Bool) : Text :=
  if colon then "parameter null or not set".toList else "parameter not set".toList

/-- A literal part of an operand.  Unquoted text at the beginning may have a tilde prefix. -/
def operandLiteral (host : Host World) (s : Session World) (text : Text) (quote : Option Quote)
    (leading continues : Bool) : Literal :=
  match quote with
  | some quote =>
    if quote.isLiteral then Literal.quoted text else Literal.quoted (unescapeDoubleQuoted text)
  | none =>
    match (if leading then s.tildePrefix? host text continues else none) with
    | some (dir, rest) => Literal.quoted dir ++ Literal.ofUnquoted rest
    | none => Literal.ofUnquoted text

/-- Give the source of an expansion where it turns out not to be well formed. -/
def orSource (expansion : Expansion) (x : Expand World Text) : Expand World Text :=
  tryCatch x fun error => if error.isSoft then pure expansion.source else throw error

mutual

/-- Expand an operand: nothing is split or matched against files, and in the pattern quoted text is
literal. -/
def expandOperand (host : Host World) : Word → Expand World Literal
  | .mk parts quote =>
    if quote.any Quote.isLiteral then
      return Literal.quoted (partsSource parts)
    else
      expandOperandParts host quote (parts.length > 1) true parts

/-- Expand the parts of an operand; `leading` says that these are all of them. -/
def expandOperandParts (host : Host World) (quote : Option Quote) (continues leading : Bool) :
    List Part → Expand World Literal
  | [] => return .empty
  | part :: parts => do
    let first ← expandOperandPart host quote continues leading part
    let rest ← expandOperandParts host quote continues false parts
    return first ++ rest

/-- Expand a part of an operand. -/
def expandOperandPart (host : Host World) (quote : Option Quote) (continues leading : Bool) :
    Part → Expand World Literal
  | .literal text own => do
    let s ← get
    return operandLiteral host s text (quote.or own) leading continues
  | .expansion expansion own => do
    let value ← orSource expansion (tryEvaluate host expansion)
    return if (quote.or own).isSome then Literal.quoted value else Literal.active value

/-- Expand an operand that may be absent. -/
def expandOperandOption (host : Host World) : Option Word → Expand World (Option Literal)
  | none => return none
  | some word => do
    let literal ← expandOperand host word
    return some literal

/-- The text of an expansion that has to be well formed. -/
def tryEvaluate (host : Host World) : Expansion → Expand World Text
  | .variable name => expandVariable host name
  | .parameter name none word =>
    if isParameter name then expandVariable host name
    else throw (.badSubstitution (Expansion.source (.parameter name none word)))
  | .parameter name (some operator) word =>
    if isParameter name then
      applyOperator host name (expandOperandOption host word) operator
    else
      throw (.badSubstitution (Expansion.source (.parameter name (some operator) word)))
  | .command command backtick =>
    runCommand host (if backtick then unescapeBackticks command else command)
  | .arithmetic expression => do
    let value ← arithmetic host expression
    return Numeral.ofInt64 value
  | .process flow command =>
    throw (.badSubstitution (Expansion.source (.process flow command)))

/-- The text of `${name op word}`, for a name that can be expanded. -/
def applyOperator (host : Host World) (name : Text) (operand : Operand World) :
    Operator → Expand World Text
  | .useDefault colon => do
    match ← given? host name colon with
    | some value => return value
    | none => operand.text
  | .assignDefault colon => do
    match ← given? host name colon with
    | some value => return value
    | none =>
      if isSpecial name then
        throw (.cannotAssign ('$' :: name))
      else
        let value ← operand.text
        modify (Session.onShell (Shell.define name value))
        return value
  | .errorIfUnset colon => do
    match ← given? host name colon with
    | some value => return value
    | none =>
      let message ← operand.text
      throw (.nullOrUnset name (if message.isEmpty then unsetMessage colon else message))
  | .useAlternative colon => do
    match ← given? host name colon with
    | some _ => operand.text
    | none => return []
  | .length => expandLength host name
  | .trimFront longest => do
    let value ← requireValue host name
    match ← operand.pattern? host with
    | some pattern => return trimFront pattern.accepts longest value
    | none => return value
  | .trimBack longest => do
    let value ← requireValue host name
    match ← operand.pattern? host with
    | some pattern => return trimBack pattern.accepts longest value
    | none => return value
  | .replace all anchor replacement => do
    let value ← requireValue host name
    match ← operand.pattern? host with
    | some pattern =>
      let text ← Operand.text (expandOperandOption host replacement)
      return replaceMatches pattern.accepts all anchor text value
    | none => return value
  | .substring offset length => expandSubstring host name offset length
  | .changeCase direction all => do
    let value ← requireValue host name
    match ← operand.pattern? host with
    | some pattern => return changeCase direction all pattern.accepts value
    | none => return changeCase direction all (fun _ => true) value

end

/-- The text of an expansion.  One that is not well formed stands for its source. -/
def evaluate (host : Host World) (expansion : Expansion) : Expand World Text :=
  orSource expansion (tryEvaluate host expansion)

end ShellWord
