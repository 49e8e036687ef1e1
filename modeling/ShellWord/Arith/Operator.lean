import ShellWord.Arith.Error

/-!
# Operators of arithmetic

Every operator computes on 64-bit integers in two's complement; sums, differences, products and
powers wrap around.  Comparisons and the logical operators give 0 or 1.

## Main definitions

* `Arith.BinaryOp`, `Arith.BinaryOp.apply`
* `Arith.UnaryOp`, `Arith.UnaryOp.apply`
* `Arith.power`: powers modulo 2^64
-/

namespace ShellWord.Arith

/-- The operators between two operands. -/
inductive BinaryOp where
  | or | and
  | bitOr | bitXor | bitAnd
  | eq | ne
  | lt | le | gt | ge
  | shiftLeft | shiftRight
  | add | sub
  | mul | div | mod
  | pow
  deriving DecidableEq, Repr

/-- The operators before an operand. -/
inductive UnaryOp where
  | plus | minus | not | complement
  deriving DecidableEq, Repr

/-- One for true and zero for false. -/
def truth (b : Bool) : Int64 :=
  if b then 1 else 0

/-- A power modulo 2^64, by repeated squaring. -/
def power (base : Int64) (exponent : Nat) : Int64 :=
  if exponent = 0 then 1
  else if exponent % 2 = 1 then base * power (base * base) (exponent / 2)
  else power (base * base) (exponent / 2)
termination_by exponent
decreasing_by all_goals omega

/-- The largest exponent that is used; greater ones are taken for it. -/
def maxExponent : Nat := 0xFFFFFFFF

namespace BinaryOp

/-- Compute.  There is no quotient by zero and no power with a negative exponent. -/
def apply (op : BinaryOp) (a b : Int64) : Except Error Int64 :=
  match op with
  | .or => .ok (truth (a != 0 || b != 0))
  | .and => .ok (truth (a != 0 && b != 0))
  | .bitOr => .ok (a ||| b)
  | .bitXor => .ok (a ^^^ b)
  | .bitAnd => .ok (a &&& b)
  | .eq => .ok (truth (a == b))
  | .ne => .ok (truth (a != b))
  | .lt => .ok (truth (a < b))
  | .le => .ok (truth (a ≤ b))
  | .gt => .ok (truth (b < a))
  | .ge => .ok (truth (b ≤ a))
  | .shiftLeft => .ok (a <<< (b &&& 63))
  | .shiftRight => .ok (a >>> (b &&& 63))
  | .add => .ok (a + b)
  | .sub => .ok (a - b)
  | .mul => .ok (a * b)
  | .div => if b == 0 then .error .divisionByZero else .ok (a / b)
  | .mod => if b == 0 then .error .divisionByZero else .ok (a % b)
  | .pow =>
    if b < 0 then .error .negativeExponent
    else .ok (power a (min b.toInt.toNat maxExponent))

/-- The left operand alone decides: the right one is not evaluated. -/
def decides (op : BinaryOp) (a : Int64) : Bool :=
  match op with
  | .or => a != 0
  | .and => a == 0
  | _ => false

end BinaryOp

/-- Compute. -/
def UnaryOp.apply (op : UnaryOp) (a : Int64) : Int64 :=
  match op with
  | .plus => a
  | .minus => -a
  | .not => truth (a == 0)
  | .complement => ~~~a

end ShellWord.Arith
