import ShellWord.Arith.Numeral
import ShellWord.Arith.Operator

/-!
# Tokens of arithmetic

A text is cut into numbers, names and operators; of several operators that fit, the longest is taken.
Blanks and continued lines between them do not count.  `++` and `--` are one token only next to a
name, so that `1++2` is `1 + +2`.

## Main definitions

* `Arith.Symbol`: what a token stands for
* `Arith.Token`: a symbol and the text from its place on
* `Arith.tokens`: the tokens of a text
-/

namespace ShellWord.Arith

/-- What a token stands for. -/
inductive Symbol where
  | number (value : Int64)
  | name (name : Text)
  | binary (op : BinaryOp)
  /-- `=`, or an operator with `=` -/
  | assign (op : Option BinaryOp)
  /-- `++` or `--` -/
  | step (up : Bool)
  | not
  | complement
  | question
  | colon
  | comma
  | openParen
  | closeParen
  deriving DecidableEq, Repr

/-- A token, with the text from its place to the end of the expression. -/
structure Token where
  symbol : Symbol
  text : Text
  deriving DecidableEq, Repr

/-- The operators, longer ones before those they begin with. -/
def operators : List (Text × Symbol) :=
  [("<<=".toList, .assign (some .shiftLeft)), (">>=".toList, .assign (some .shiftRight)),
   ("**".toList, .binary .pow), ("<<".toList, .binary .shiftLeft), (">>".toList, .binary .shiftRight),
   ("<=".toList, .binary .le), (">=".toList, .binary .ge), ("==".toList, .binary .eq),
   ("!=".toList, .binary .ne), ("&&".toList, .binary .and), ("||".toList, .binary .or),
   ("++".toList, .step true), ("--".toList, .step false), ("+=".toList, .assign (some .add)),
   ("-=".toList, .assign (some .sub)), ("*=".toList, .assign (some .mul)),
   ("/=".toList, .assign (some .div)), ("%=".toList, .assign (some .mod)),
   ("&=".toList, .assign (some .bitAnd)), ("|=".toList, .assign (some .bitOr)),
   ("^=".toList, .assign (some .bitXor)), (['+'], .binary .add), (['-'], .binary .sub),
   (['*'], .binary .mul), (['/'], .binary .div), (['%'], .binary .mod), (['<'], .binary .lt),
   (['>'], .binary .gt), (['&'], .binary .bitAnd), (['|'], .binary .bitOr), (['^'], .binary .bitXor),
   (['!'], .not), (['~'], .complement), (['?'], .question), ([':'], .colon), ([','], .comma),
   (['('], .openParen), ([')'], .closeParen), (['='], .assign none)]

/-- The first operator of the table that a text begins with, and what follows it. -/
def longest? (t : Text) : Option (Symbol × Text) :=
  operators.findSome? fun (text, symbol) => (Text.after? text t).map fun rest => (symbol, rest)

/-- A name begins here, after blanks. -/
def beginsName (t : Text) : Bool :=
  (Text.trimStart t).head?.any Text.isNameStart

/-- The operator at the front of a text, and how many characters it has beyond the first.  `++` and
`--` count as such after a name and before one; elsewhere they are two signs. -/
def operator? (afterName : Bool) (t : Text) : Option (Symbol × Nat) :=
  match longest? t with
  | some (.step up, rest) =>
    if afterName || beginsName rest then some (.step up, 1)
    else some (.binary (if up then .add else .sub), 0)
  | some (symbol, rest) => some (symbol, t.length - rest.length - 1)
  | none => none

/-- The characters of a number, of any base. -/
def isNumeralChar (c : Char) : Bool :=
  Text.isLetter c || Text.isDigit c || c == '#' || c == '@' || c == '_'

/-- The tokens of a text, given whether a name was the last one before. -/
def tokensAfter (afterName : Bool) (t : Text) : Except Error (List Token) :=
  match t with
  | [] => .ok []
  | '\\' :: '\n' :: rest => tokensAfter afterName rest
  | c :: rest =>
    if Text.isBlank c then tokensAfter afterName rest
    else if Text.isDigit c then
      let literal := c :: rest.takeWhile isNumeralChar
      match Numeral.read? literal with
      | some n =>
        (tokensAfter false (rest.dropWhile isNumeralChar)).map (⟨.number n, c :: rest⟩ :: ·)
      | none => .error (.valueTooGreat literal)
    else if Text.isNameStart c then
      let name := c :: rest.takeWhile Text.isNameChar
      (tokensAfter true (rest.dropWhile Text.isNameChar)).map (⟨.name name, c :: rest⟩ :: ·)
    else
      match operator? afterName (c :: rest) with
      | some (symbol, more) =>
        (tokensAfter false (rest.drop more)).map (⟨symbol, c :: rest⟩ :: ·)
      | none => .error (.invalidOperator (Text.trim (c :: rest)))
termination_by t.length
decreasing_by
  · simp only [List.length_cons]
    omega
  · exact Nat.lt_succ_self _
  · exact Nat.lt_succ_of_le (Text.length_dropWhile_le _ _)
  · exact Nat.lt_succ_of_le (Text.length_dropWhile_le _ _)
  · simp only [List.length_drop, List.length_cons]
    omega

/-- The tokens of a text. -/
def tokens (t : Text) : Except Error (List Token) :=
  tokensAfter false t

end ShellWord.Arith
