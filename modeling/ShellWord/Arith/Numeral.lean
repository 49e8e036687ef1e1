import ShellWord.Text.Blank

/-!
# Numerals

Arithmetic is on 64-bit integers in two's complement.  A number is written in decimal, in octal after
a leading zero, in hexadecimal after `0x`, or in any base from 2 to 64 as `base#digits`.  The first
three forms have to fit into 64 bits; the digits of the last are added up modulo 2^64.

## Main definitions

* `Numeral.signed?`: a numeral with an optional sign, in a given base, that fits into 64 bits
* `Numeral.digitValue?`: the digits `0-9 a-z A-Z @ _` of the bases up to 64
* `Numeral.read?`: the value of a numeral in any of the four forms
* `Numeral.ofInt64`: the decimal numeral of a 64-bit integer
-/

namespace ShellWord.Numeral

/-- The value of a digit below 36; letters of both cases count from ten. -/
def letterDigit? (c : Char) : Option Nat :=
  if Text.isDigit c then some (c.toNat - 0x30)
  else if 'a' ≤ c ∧ c ≤ 'z' then some (c.toNat - 0x61 + 10)
  else if 'A' ≤ c ∧ c ≤ 'Z' then some (c.toNat - 0x41 + 10)
  else none

/-- The value of a digit of the bases up to 64: `0-9`, `a-z`, `A-Z`, `@` and `_`, in this order.  In
the bases up to 36 letters of both cases have the same value. -/
def digitValue? (base : Nat) (c : Char) : Option Nat :=
  if c == '@' then some 62
  else if c == '_' then some 63
  else if 36 < base && 'A' ≤ c && c ≤ 'Z' then some (c.toNat - 0x41 + 36)
  else letterDigit? c

/-- The digits of a numeral in the given base, most significant first; none when a character is no
digit of the base. -/
def digits? (value? : Char → Option Nat) (base : Nat) : Text → Option (List Nat)
  | [] => some []
  | c :: t =>
    match value? c with
    | some d => if d < base then (digits? value? base t).map (d :: ·) else none
    | none => none

/-- The number that digits denote in a base. -/
def value (base : Nat) (digits : List Nat) : Nat :=
  digits.foldl (fun n d => n * base + d) 0

/-- The number that a non-empty run of digits denotes in a base up to 36. -/
def natural? (base : Nat) (t : Text) : Option Nat :=
  if t.isEmpty then none else (digits? letterDigit? base t).map (value base)

/-- The integers of 64 bits. -/
def fits (n : Int) : Bool :=
  -0x8000000000000000 ≤ n && n < 0x8000000000000000

/-- The integer that a numeral with an optional sign denotes in a base up to 36, if it fits into 64
bits. -/
def signed? (base : Nat) (t : Text) : Option Int :=
  let n : Option Int :=
    match t with
    | '-' :: t => (natural? base t).map fun n => -(n : Int)
    | '+' :: t => (natural? base t).map Int.ofNat
    | t => (natural? base t).map Int.ofNat
  n.filter fits

/-- The number that a numeral denotes in a base up to 36, possibly with a plus sign. -/
def unsigned? (base : Nat) : Text → Option Nat
  | '+' :: t => natural? base t
  | t => natural? base t

/-- The base in front of `#`: a decimal numeral, possibly with a plus sign, from 2 to 64. -/
def base? (t : Text) : Option Nat :=
  (unsigned? 10 t).filter fun n => 2 ≤ n && n ≤ 64

/-- The digits of a numeral added up modulo 2^64. -/
def wrapped (base : Nat) (digits : List Nat) : Int64 :=
  digits.foldl (fun n d => n * Int64.ofNat base + Int64.ofNat d) 0

/-- The value of `base#digits`. -/
def based? (base digits : Text) : Option Int64 :=
  match base? base with
  | some b =>
    if digits.isEmpty then none else (digits? (digitValue? b) b digits).map (wrapped b)
  | none => none

/-- The value of a numeral, in any of the four forms. -/
def read? (t : Text) : Option Int64 :=
  match Text.cutAt? (· == '#') t with
  | some (base, digits) => based? base digits
  | none =>
    match t with
    | '0' :: 'x' :: hex => (signed? 16 hex).map Int64.ofInt
    | '0' :: 'X' :: hex => (signed? 16 hex).map Int64.ofInt
    | '0' :: c :: octal => (signed? 8 ('0' :: c :: octal)).map Int64.ofInt
    | decimal =>
      if decimal.all Text.isDigit then (signed? 10 decimal).map Int64.ofInt else none

/-- The decimal numeral of a 64-bit integer. -/
def ofInt64 (n : Int64) : Text :=
  Text.ofInt n.toInt

/-- The text is a decimal numeral, possibly with a sign, that fits into 64 bits. -/
def isDecimal (t : Text) : Bool :=
  (signed? 10 t).isSome

end ShellWord.Numeral
