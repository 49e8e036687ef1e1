import ShellWord.Arith.Numeral
import ShellWord.Field.Ifs
import ShellWord.Session.Basic

/-!
# Parameters

A parameter is a variable, a special parameter or a positional one.  Special parameters are not in the
table of variables; a few variables have a value of their own while the table has none for them.  Such a
variable is read from the world, anew each time.

## Main definitions

* `isSpecial`: the special and positional parameters
* `Shell.special?`: their values
* `Session.lookup`: the value of any parameter that is set
* `Session.afterRead`: the session after a parameter was read
* `readParameter`: read a parameter, as a step of a computation
* `Shell.ifs`, `Shell.separator`: the field separators
-/

namespace ShellWord

/-- The special parameters `@ * # ? $ ! -`, and the positional ones, which are digits. -/
def isSpecial : Text → Bool
  | [c] => c == '@' || c == '*' || c == '#' || c == '?' || c == '$' || c == '!' || c == '-' ||
      Text.isDigit c
  | name => Text.isDigits name

/-- The names that can be expanded. -/
def isParameter (name : Text) : Bool :=
  isSpecial name || Text.isName name

/-- The variable that changes by itself under a name. -/
def Dynamic.ofName? (name : Text) : Option Dynamic :=
  if name == "RANDOM".toList then some .random
  else if name == "SECONDS".toList then some .seconds
  else if name == "EPOCHSECONDS".toList then some .epochSeconds
  else none

namespace Shell

/-- The field separators: the value of `IFS`, or the standard ones while it is unset. -/
def ifs (sh : Shell) : Ifs :=
  match sh.vars.get? "IFS".toList with
  | some chars => ⟨chars⟩
  | none => .standard

/-- The first separator, as a text; it joins the parameters of `$*`. -/
def separator (sh : Shell) : Text :=
  sh.ifs.chars.take 1

/-- The positional parameter that digits denote. -/
def positional? (sh : Shell) (digits : Text) : Option Text :=
  match Numeral.unsigned? 10 digits with
  | some (n + 1) => sh.positional[n]?
  | _ => none

/-- The value of a special or positional parameter. -/
def special? (sh : Shell) : Text → Option Text
  | ['@'] => some (List.intercalate [' '] sh.positional)
  | ['*'] => some (List.intercalate sh.separator sh.positional)
  | ['#'] => some (Text.ofNat sh.positional.length)
  | ['?'] => some (Text.ofInt sh.lastStatus)
  | ['$'] => some (Text.ofNat sh.pid)
  | ['!'] => sh.lastBackground.map Text.ofNat
  | ['-'] => some sh.options.flags
  | ['0'] => some sh.name
  | digits => sh.positional? digits

end Shell

namespace Session

variable {World : Type}

/-- The value of a parameter that is set. -/
def lookup (host : Host World) (s : Session World) (name : Text) : Option Text :=
  if isSpecial name then s.shell.special? name
  else
    (s.shell.vars.get? name).or
      ((Dynamic.ofName? name).map fun which => Text.ofInt (host.dynamic s.world which))

/-- The variable that the world is asked for when a parameter is read: one that changes by itself and
that the table has no value for. -/
def asked? (s : Session World) (name : Text) : Option Dynamic :=
  if isSpecial name || (s.shell.vars.get? name).isSome then none else Dynamic.ofName? name

/-- The session after a variable that changes by itself was read. -/
def advance (host : Host World) (s : Session World) (which : Dynamic) : Session World :=
  { s with world := host.advance which s.world }

/-- The session after a parameter was read. -/
def afterRead (host : Host World) (s : Session World) (name : Text) : Session World :=
  match s.asked? name with
  | some which => s.advance host which
  | none => s

/-- Change the state of the shell. -/
def onShell (f : Shell → Shell) (s : Session World) : Session World :=
  { s with shell := f s.shell }

end Session

/-- Read a parameter. -/
def readParameter {World ε : Type} (host : Host World) (name : Text) :
    Run (Session World) ε (Option Text) :=
  Run.total fun s => (s.lookup host name, s.afterRead host name)

/-- Set a variable. -/
def Shell.define (name value : Text) (sh : Shell) : Shell :=
  { sh with vars := sh.vars.insert name value }

/-- Unset a variable. -/
def Shell.unset (name : Text) (sh : Shell) : Shell :=
  { sh with vars := sh.vars.erase name }

end ShellWord
