import ShellWord.Arith.Dollar
import ShellWord.Arith.Eval
import ShellWord.Arith.Span
import ShellWord.Session.Lookup

/-!
# Commands and arithmetic in a session

Arithmetic text is evaluated in three steps: parameters are replaced by the numbers they hold,
substitutions by their results, and what comes out is evaluated as an expression.  The body of a
substitution is shorter than the text it stands in; so the length of the text bounds how deep
substitutions are nested.

## Main definitions

* `runCommand`: the output of a command
* `arithmetic`: the value of arithmetic text
-/

namespace ShellWord

variable {World : Type}

/-- Run a command: `$?` becomes its status, and its output loses the newlines at its end. -/
def runCommand (host : Host World) (command : Text) : Expand World Text := fun s =>
  match host.run s.shell command s.world with
  | (.ok output, world) =>
    (.ok (Text.trimNewlines output.text),
      { shell := { s.shell with lastStatus := output.status }, world := world })
  | (.error error, world) => (.error error, { s with world := world })

/-- The variables of a session.  Reading one may change the world. -/
def Session.store (host : Host World) : Arith.Store (Session World) where
  read name s := (s.lookup host name, s.afterRead host name)
  write name value := Session.onShell (Shell.define name value)

/-- The value of a text without substitutions.  It may change variables. -/
def integer (host : Host World) (text : Text) : Run (Session World) Arith.Error Int64 :=
  Arith.evaluate (Session.store host) text

/-- The value of arithmetic text in which substitutions are nested less deep than `depth`. -/
def arithmeticAt (host : Host World) : (depth : Nat) → Text → Expand World Int64
  | 0, _ => pure 0
  | depth + 1, text => do
    let values ← (Dollar.parameters text).mapM (readParameter host)
    let plain ← Span.replace
      (fun
        | .arithmetic body => do
          let value ← arithmeticAt host depth body
          return Numeral.ofInt64 value
        | .command body => do
          let output ← runCommand host body
          return if output.isEmpty then ['0'] else output)
      (Dollar.fill (Dollar.pieces text) values)
    Run.within id (fun s _ => s) (ExpandError.arithmetic text) (integer host plain)

/-- The value of arithmetic text. -/
def arithmetic (host : Host World) (text : Text) : Expand World Int64 :=
  arithmeticAt host (text.length + 1) text

end ShellWord
