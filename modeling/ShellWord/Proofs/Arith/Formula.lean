import ShellWord.Arith.Eval
import ShellWord.Proofs.Numeral

/-!
# Formulas

A formula is an arithmetic expression as it is meant, before anything is written down: numbers that can be
written, names that are names, and the ten operators that have a form with `=`.  There is no place for a
mistake in it, and no parentheses.

`Formula.print` writes a formula.  Tokens have one blank between them, and parentheses stand around an
operand exactly if the level of the grammar it belongs to is looser than what its place asks for.  The
levels are numbered from loose to tight:

* 1 for commas, 2 for assignments, 3 for conditionals
* 4 to 13 for the operators from `||` to `* / %`, see `BinaryOp.level`
* 14 for `**`, 15 for operators in front of an operand, 16 for numbers, names, and names with `++` or
  `--` after them

An operator of the levels 4 to 13 takes formulas of its own level on the left and tighter ones on the
right; for `**` it is the other way round.

## Main definitions

* `Arith.Formula`, with `Formula.level`
* `Arith.Formula.symbols`, `Arith.Formula.print`: how a formula is written
* `Arith.Formula.toExpr`: the tree that reading it is to give
-/

namespace ShellWord.Arith

/-- The operators that have a form with `=`. -/
def compoundOps : List BinaryOp :=
  [.mul, .div, .mod, .add, .sub, .shiftLeft, .shiftRight, .bitAnd, .bitXor, .bitOr]

/-- A variable name. -/
abbrev Name := { name : Text // Text.isName name = true }

/-- An operator that has a form with `=`. -/
abbrev CompoundOp := { op : BinaryOp // op ∈ compoundOps }

/-- An arithmetic expression, as it is meant. -/
inductive Formula where
  | number (n : Fin Numeral.limit)
  | variable (name : Name)
  /-- `++x` and `--x`, or with the operator behind -/
  | step (name : Name) (up before : Bool)
  /-- `x = e`, or `x op= e` -/
  | assign (name : Name) (op : Option CompoundOp) (value : Formula)
  | unary (op : UnaryOp) (operand : Formula)
  | binary (op : BinaryOp) (left right : Formula)
  | conditional (condition taken other : Formula)
  | comma (first second : Formula)

/-! ### Levels -/

/-- The level of an operator. -/
def BinaryOp.level : BinaryOp → Nat
  | .or => 4
  | .and => 5
  | .bitOr => 6
  | .bitXor => 7
  | .bitAnd => 8
  | .eq | .ne => 9
  | .lt | .le | .gt | .ge => 10
  | .shiftLeft | .shiftRight => 11
  | .add | .sub => 12
  | .mul | .div | .mod => 13
  | .pow => 14

/-- The level of the left operand: the operator's own, but a tighter one for `**`. -/
def BinaryOp.leftLevel (op : BinaryOp) : Nat :=
  if op = .pow then 15 else op.level

/-- The level of the right operand: a tighter one, but the operator's own for `**`. -/
def BinaryOp.rightLevel (op : BinaryOp) : Nat :=
  if op = .pow then 14 else op.level + 1

/-- The level of a formula. -/
def Formula.level : Formula → Nat
  | .comma _ _ => 1
  | .assign _ _ _ => 2
  | .conditional _ _ _ => 3
  | .binary op _ _ => op.level
  | .unary _ _ => 15
  | .step _ _ before => if before then 15 else 16
  | .number _ => 16
  | .variable _ => 16

/-! ### Writing -/

/-- How an operator is written. -/
def BinaryOp.spelling : BinaryOp → String
  | .or => "||"
  | .and => "&&"
  | .bitOr => "|"
  | .bitXor => "^"
  | .bitAnd => "&"
  | .eq => "=="
  | .ne => "!="
  | .lt => "<"
  | .le => "<="
  | .gt => ">"
  | .ge => ">="
  | .shiftLeft => "<<"
  | .shiftRight => ">>"
  | .add => "+"
  | .sub => "-"
  | .mul => "*"
  | .div => "/"
  | .mod => "%"
  | .pow => "**"

/-- How a symbol is written. -/
def Symbol.spelling : Symbol → Text
  | .number value => Numeral.ofInt64 value
  | .name text => text
  | .binary op => op.spelling.toList
  | .assign none => ['=']
  | .assign (some op) => op.spelling.toList ++ ['=']
  | .step up => if up then ['+', '+'] else ['-', '-']
  | .not => ['!']
  | .complement => ['~']
  | .question => ['?']
  | .colon => [':']
  | .comma => [',']
  | .openParen => ['(']
  | .closeParen => [')']

/-- The symbol of an operator in front of an operand. -/
def UnaryOp.symbol : UnaryOp → Symbol
  | .plus => .binary .add
  | .minus => .binary .sub
  | .not => .not
  | .complement => .complement

/-- Symbols of the given level, in a place that asks for another one. -/
def enclose (place level : Nat) (symbols : List Symbol) : List Symbol :=
  if level < place then .openParen :: (symbols ++ [.closeParen]) else symbols

namespace Formula

/-- The symbols of a formula. -/
def symbols : Formula → List Symbol
  | .number n => [.number (Int64.ofNat n)]
  | .variable name => [.name name]
  | .step name up before => if before then [.step up, .name name] else [.name name, .step up]
  | .assign name op value =>
    .name name :: .assign (op.map (·.1)) :: enclose 2 value.level value.symbols
  | .unary op operand => op.symbol :: enclose 15 operand.level operand.symbols
  | .binary op left right =>
    enclose op.leftLevel left.level left.symbols ++
      .binary op :: enclose op.rightLevel right.level right.symbols
  | .conditional condition taken other =>
    enclose 4 condition.level condition.symbols ++
      .question :: (enclose 2 taken.level taken.symbols ++
        .colon :: enclose 3 other.level other.symbols)
  | .comma first second =>
    enclose 1 first.level first.symbols ++ .comma :: enclose 2 second.level second.symbols

/-- The symbols of a formula in a place that asks for a level. -/
def symbolsAt (place : Nat) (e : Formula) : List Symbol :=
  enclose place e.level e.symbols

/-- A formula as a text: its symbols with one blank between them. -/
def print (e : Formula) : Text :=
  List.intercalate [' '] (e.symbols.map Symbol.spelling)

/-- The tree that a formula is to be read as. -/
def toExpr : Formula → Expr
  | .number n => .number (Int64.ofNat n)
  | .variable name => .variable name
  | .step name up before => .step name up before
  | .assign name op value => .assign name (op.map (·.1)) value.toExpr
  | .unary op operand => .unary op operand.toExpr
  | .binary op left right => .binary op left.toExpr right.toExpr
  | .conditional condition taken other => .conditional condition.toExpr taken.toExpr other.toExpr
  | .comma first second => .comma first.toExpr second.toExpr

/-- Nothing in a formula is a mistake. -/
theorem mistake?_toExpr (e : Formula) : e.toExpr.mistake? = none := by
  induction e with
  | number n => rfl
  | «variable» name => rfl
  | step name up before => rfl
  | assign name op value ih => exact ih
  | unary op operand ih => exact ih
  | binary op left right ihLeft ihRight =>
      rw [toExpr, Expr.mistake?, ihLeft, ihRight]
      rfl
  | conditional condition taken other ihCondition ihTaken ihOther =>
      rw [toExpr, Expr.mistake?, ihCondition, ihTaken, ihOther]
      rfl
  | comma first second ihFirst ihSecond =>
      rw [toExpr, Expr.mistake?, ihFirst, ihSecond]
      rfl

theorem symbols_ne_nil (e : Formula) : e.symbols ≠ [] := by
  cases e with
  | step name up before => cases before <;> simp [symbols]
  | _ => simp [symbols]

end Formula

end ShellWord.Arith
