import ShellWord.Arith.Grammar
import ShellWord.Run

/-!
# Evaluating arithmetic

Expressions are evaluated from left to right.  They read and write variables; what was written before
an error stays.  Where the variables are kept is left open: a store says how one is read, which may
change the state, and how one is written.  The value of a variable may be an expression again, which names
other variables; that goes `maxLevels` deep.

## Main definitions

* `Arith.Store`: where variables are kept
* `Arith.Eval`: evaluation, over the state of a store
* `Arith.Expr.eval`: the value of an expression, given how variables are read
* `Arith.readAt`: the value of a variable
* `Arith.evaluate`: the value of a text
-/

namespace ShellWord.Arith

/-- Where variables are kept. -/
structure Store (σ : Type) where
  /-- the value of a variable that is set, and the state after it was read -/
  read : Text → σ → Option Text × σ
  /-- the state after a variable was set -/
  write : (name value : Text) → σ → σ

/-- A computation that reads and writes variables and may fail. -/
abbrev Eval (σ : Type) := Run σ Error

variable {σ : Type}

/-- Fail with the first mistake of an operand that is not evaluated. -/
def discard (e : Expr) : Eval σ Unit :=
  match e.mistake? with
  | some error => throw error
  | none => pure ()

/-- Set a variable to a number. -/
def assign (store : Store σ) (name : Text) (value : Int64) : Eval σ Unit :=
  modify (store.write name (Numeral.ofInt64 value))

/-- Compute with an operator. -/
def compute (op : BinaryOp) (a b : Int64) : Eval σ Int64 :=
  match op.apply a b with
  | .ok value => pure value
  | .error error => throw error

/-- The value of an expression, where `read` gives the value of a variable. -/
def Expr.eval (store : Store σ) (read : Text → Eval σ Int64) : Expr → Eval σ Int64
  | .number value => pure value
  | .variable name => read name
  | .step name up before => do
    let old ← read name
    let new := if up then old + 1 else old - 1
    Arith.assign store name new
    return if before then new else old
  | .assign name op value => do
    let value ← value.eval store read
    match op with
    | none =>
      Arith.assign store name value
      return value
    | some op =>
      let old ← read name
      let new ← compute op old value
      Arith.assign store name new
      return new
  | .unary op operand => do
    let value ← operand.eval store read
    return op.apply value
  | .binary op left right => do
    let a ← left.eval store read
    if op.decides a then
      discard right
      compute op a 0
    else
      let b ← right.eval store read
      compute op a b
  | .conditional condition taken other => do
    let c ← condition.eval store read
    if c != 0 then
      let value ← taken.eval store read
      discard other
      return value
    else
      discard taken
      other.eval store read
  | .comma first second => do
    let _ ← first.eval store read
    second.eval store read
  | .mistake error => throw error

/-- The value of a text, where `read` gives the value of a variable. -/
def evaluateWith (store : Store σ) (read : Text → Eval σ Int64) (t : Text) : Eval σ Int64 :=
  match tokens t with
  | .ok tokens => (parse tokens).eval store read
  | .error error => throw error

/-- The value of a variable, `levels` deep.  A variable that is unset or blank is zero, one that holds
a number is that number, and any other value is evaluated. -/
def readAt (store : Store σ) : (levels : Nat) → Text → Eval σ Int64
  | 0, name => throw (.recursionLevel name)
  | levels + 1, name => do
    let found ← Run.total (store.read name)
    let value := Text.trim (found.getD [])
    if value.isEmpty then
      return 0
    else
      match Numeral.read? value with
      | some n => return n
      | none => evaluateWith store (readAt store levels) value

/-- How deep variables may refer to others. -/
def maxLevels : Nat := 16

/-- The value of a text. -/
def evaluate (store : Store σ) (t : Text) : Eval σ Int64 :=
  evaluateWith store (readAt store maxLevels) t

end ShellWord.Arith
