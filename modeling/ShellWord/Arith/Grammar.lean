import ShellWord.Arith.Expr
import ShellWord.Arith.Token

/-!
# The grammar of arithmetic

From tokens to expressions, by recursive descent.  Every level of the grammar is a function from
tokens to an expression and the tokens after it, and takes the tighter levels it is made of as
arguments:

* `comma`: assignments, separated by commas
* `assignment`: `name = assignment`, `name op= assignment`, or a conditional
* `conditional`: `binary ? assignment : conditional`, or `binary` alone
* `binary`: ten levels of left-associative operators, from `||` to `* / %`
* `power`: right-associative `**`
* `unary`: signs, `!`, `~`, and `++` or `--` in front of a name
* `primary`: numbers, names, names with `++` or `--` after them, and `( comma )`

Parentheses and conditionals lead back to the looser levels, after at least one token; so the number of
tokens bounds how deep that goes (`conditionalAt`).  After a mistake no tokens are left.

## Main definitions

* `Arith.Level`: a level of the grammar
* `Arith.parse`: the expression that a list of tokens denotes
-/

namespace ShellWord.Arith

/-- A level of the grammar: from tokens to an expression and the tokens after it. -/
abbrev Level := List Token → Expr × List Token

/-- The text at the place of the next token, as it is shown in errors. -/
def tokenText : List Token → Text
  | [] => []
  | token :: _ => Text.trim token.text

/-- A mistake; what follows it is not read. -/
def fail (error : Error) : Expr × List Token :=
  (.mistake error, [])

/-! ### Operands -/

/-- A number, a name, a name with `++` or `--` after it, or an expression in parentheses. -/
def primary (inner : Level) : Level
  | [] => fail .operandMissing
  | ⟨.number n, _⟩ :: rest => (.number n, rest)
  | ⟨.name name, _⟩ :: ⟨.step up, _⟩ :: rest => (.step name up false, rest)
  | ⟨.name name, _⟩ :: rest => (.variable name, rest)
  | ⟨.openParen, _⟩ :: rest =>
    match inner rest with
    | (e, ⟨.closeParen, _⟩ :: after) => (e, after)
    | (e, after) => (.comma e (.mistake (.symbolExpected ')' (tokenText after))), [])
  | token :: rest => fail (.operandExpected (tokenText (token :: rest)))

/-- The operator that a token is in front of an operand. -/
def Symbol.unary? : Symbol → Option UnaryOp
  | .binary .add => some .plus
  | .binary .sub => some .minus
  | .not => some .not
  | .complement => some .complement
  | _ => none

/-- Operators in front of an operand. -/
def unary (inner : Level) : Level
  | ⟨.step up, _⟩ :: rest =>
    match rest with
    | ⟨.name name, _⟩ :: after => (.step name up true, after)
    | after => fail (.operandExpected (tokenText after))
  | token :: rest =>
    match token.symbol.unary? with
    | some op =>
      let (e, after) := unary inner rest
      (.unary op e, after)
    | none => primary inner (token :: rest)
  | [] => primary inner []

/-- Powers, from right to left; there are at most as many as tokens. -/
def powerAt (operand : Level) : Nat → Level
  | 0, tokens => operand tokens
  | n + 1, tokens =>
    match operand tokens with
    | (base, ⟨.binary .pow, _⟩ :: rest) =>
      let (exponent, after) := powerAt operand n rest
      (.binary .pow base exponent, after)
    | (base, rest) => (base, rest)

/-- Powers. -/
def powers (operand : Level) : Level := fun tokens =>
  powerAt operand tokens.length tokens

/-! ### Left-associative operators -/

/-- More operands of one level, each after an operator of the level; there are at most as many as
tokens. -/
def chain (ops : List BinaryOp) (operand : Level) : Nat → Expr → Level
  | 0, left, tokens => (left, tokens)
  | n + 1, left, tokens =>
    match tokens with
    | ⟨.binary op, text⟩ :: rest =>
      if ops.contains op then
        let (right, after) := operand rest
        chain ops operand n (.binary op left right) after
      else (left, ⟨.binary op, text⟩ :: rest)
    | tokens => (left, tokens)

/-- A level of left-associative operators. -/
def leftAssoc (ops : List BinaryOp) (operand : Level) : Level := fun tokens =>
  let (left, rest) := operand tokens
  chain ops operand rest.length left rest

/-- The levels of left-associative operators, the tightest first. -/
def binaryLevels : List (List BinaryOp) :=
  [[.mul, .div, .mod], [.add, .sub], [.shiftLeft, .shiftRight], [.lt, .le, .gt, .ge], [.eq, .ne],
   [.bitAnd], [.bitXor], [.bitOr], [.and], [.or]]

/-- All left-associative operators over the powers. -/
def binary (inner : Level) : Level :=
  binaryLevels.foldl (fun operand ops => leftAssoc ops operand) (powers (unary inner))

/-! ### Assignments, conditionals and commas -/

/-- Assignments, from right to left, over a tighter level. -/
def assignment (tighter : Level) : Level
  | ⟨.name name, _⟩ :: ⟨.assign op, _⟩ :: rest =>
    let (value, after) := assignment tighter rest
    (.assign name op value, after)
  | tokens => tighter tokens

/-- More expressions, each after a comma; there are at most as many as tokens. -/
def commaChain (item : Level) : Nat → Expr → Level
  | 0, first, tokens => (first, tokens)
  | n + 1, first, tokens =>
    match tokens with
    | ⟨.comma, _⟩ :: rest =>
      let (second, after) := item rest
      commaChain item n (.comma first second) after
    | tokens => (first, tokens)

/-- Expressions separated by commas. -/
def commas (item : Level) : Level := fun tokens =>
  let (first, rest) := item tokens
  commaChain item rest.length first rest

/-- A conditional whose inner expressions are read by `inner`. -/
def conditional (inner : Level) : Level := fun tokens =>
  match binary (commas (assignment inner)) tokens with
  | (condition, ⟨.question, _⟩ :: rest) =>
    match assignment inner rest with
    | (taken, ⟨.colon, _⟩ :: rest) =>
      let (other, after) := inner rest
      (.conditional condition taken other, after)
    | (taken, after) =>
      (.conditional condition taken (.mistake (.symbolExpected ':' (tokenText after))), [])
  | (condition, rest) => (condition, rest)

/-- Conditionals in which parentheses and conditionals are nested at most so deep. -/
def conditionalAt : Nat → Level
  | 0 => fun _ => fail .operandMissing
  | n + 1 => conditional (conditionalAt n)

/-- A whole expression and the tokens after it. -/
def expression (tokens : List Token) : Expr × List Token :=
  commas (assignment (conditionalAt (tokens.length + 1))) tokens

/-- The expression that a list of tokens denotes.  No tokens at all are the number zero; tokens that
are left over are a mistake. -/
def parse (tokens : List Token) : Expr :=
  if tokens.isEmpty then .number 0
  else
    match expression tokens with
    | (e, []) => e
    | (e, rest) => .comma e (.mistake (.trailing (tokenText rest)))

end ShellWord.Arith
