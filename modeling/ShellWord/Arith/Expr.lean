import ShellWord.Arith.Operator

/-!
# Arithmetic expressions

The tree of an expression.  An expression may be ill formed and still have effects: what stands before
the mistake is evaluated first.  So a mistake is a leaf of the tree, at the place where it was found,
and it is an error only when evaluation gets there.  In an operand that is not evaluated, because
`&&`, `||` or `?:` leaves it out, the first mistake still counts, but nothing else does.

## Main definitions

* `Arith.Expr`: the trees
* `Arith.Expr.mistake?`: the first mistake in an expression
-/

namespace ShellWord.Arith

/-- The tree of an expression. -/
inductive Expr where
  | number (value : Int64)
  | variable (name : Text)
  /-- `++x` and `--x`, whose value is the new one, and `x++` and `x--`, whose value is the old one -/
  | step (name : Text) (up before : Bool)
  /-- `x = e`, or `x op= e` -/
  | assign (name : Text) (op : Option BinaryOp) (value : Expr)
  | unary (op : UnaryOp) (operand : Expr)
  | binary (op : BinaryOp) (left right : Expr)
  /-- `c ? a : b` -/
  | conditional (condition taken other : Expr)
  /-- `a, b` -/
  | comma (first second : Expr)
  /-- the place of a mistake -/
  | mistake (error : Error)
  deriving DecidableEq, Repr

/-- The first mistake in an expression, in the order of its text. -/
def Expr.mistake? : Expr → Option Error
  | .number _ => none
  | .variable _ => none
  | .step _ _ _ => none
  | .assign _ _ value => value.mistake?
  | .unary _ operand => operand.mistake?
  | .binary _ left right => left.mistake?.or right.mistake?
  | .conditional condition taken other =>
    (condition.mistake?.or taken.mistake?).or other.mistake?
  | .comma first second => first.mistake?.or second.mistake?
  | .mistake error => some error

end ShellWord.Arith
