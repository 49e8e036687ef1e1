import ShellWord.Arith.Numeral
import ShellWord.Text.Reader
import ShellWord.Toml.Basic

/-!
# Numbers and points in time

The values of a document that are neither texts nor truth values: integers of 64 bits in four bases,
floating-point numbers, dates, times and both together.  An underscore may stand between two digits.

## Main definitions

* `Toml.isInteger`, `Toml.isFloat`, `Toml.isMoment`: the forms of a scalar
* `Toml.scalar?`: the value that a scalar denotes
-/

namespace ShellWord.Toml

/-- Digits of a class, with single underscores between them. -/
def isGrouped (p : Char → Bool) : Text → Bool
  | [] => false
  | [c] => p c
  | c :: '_' :: t => p c && isGrouped p t
  | c :: t => p c && isGrouped p t

/-- The text without underscores. -/
def ungroup (t : Text) : Text :=
  t.filter (· != '_')

/-- The text without a sign in front. -/
def unsign : Text → Text
  | '+' :: t => t
  | '-' :: t => t
  | t => t

/-- Decimal digits without a zero in front of others. -/
def isDecimalRun (t : Text) : Bool :=
  isGrouped Text.isDigit t && (t.length == 1 || t.head? != some '0')

/-- Digits in a base that fit into 64 bits. -/
def isBased (base : Nat) (t : Text) : Bool :=
  isGrouped (fun c => (Text.hexValue? c).any (· < base)) t &&
    (Numeral.signed? base (ungroup t)).isSome

/-- An integer of 64 bits. -/
def isInteger (t : Text) : Bool :=
  match t with
  | '0' :: 'x' :: digits => isBased 16 digits
  | '0' :: 'o' :: digits => isBased 8 digits
  | '0' :: 'b' :: digits => isBased 2 digits
  | t => isDecimalRun (unsign t) && Numeral.isDecimal (ungroup t)

/-- The exponent of a floating-point number. -/
def isExponent (t : Text) : Bool :=
  isGrouped Text.isDigit (unsign t)

/-- What follows the whole part of a floating-point number: a fraction, an exponent or both. -/
def isFraction (t : Text) : Bool :=
  let isMark (c : Char) : Bool := c == 'e' || c == 'E'
  match t with
  | '.' :: t =>
    match Text.cutAt? isMark t with
    | some (digits, exponent) => isGrouped Text.isDigit digits && isExponent exponent
    | none => isGrouped Text.isDigit t
  | c :: t => isMark c && isExponent t
  | [] => false

/-- A floating-point number. -/
def isFloat (t : Text) : Bool :=
  let t := unsign t
  let isWhole (c : Char) : Bool := Text.isDigit c || c == '_'
  t == "inf".toList || t == "nan".toList ||
    (isDecimalRun (t.takeWhile isWhole) && isFraction (t.dropWhile isWhole))

/-! ### Points in time -/

/-- A number of exactly so many digits, up to a bound. -/
def fixed? (size low high : Nat) (t : Text) : Option (Nat × Text) := do
  let digits := t.take size
  if digits.length == size && digits.all Text.isDigit then
    let n ← Numeral.natural? 10 digits
    if low ≤ n && n ≤ high then return (n, t.drop size) else none
  else none

/-- The number of days of a month. -/
def daysIn (year month : Nat) : Nat :=
  if month == 2 then
    if (year % 4 == 0 && year % 100 != 0) || year % 400 == 0 then 29 else 28
  else if month == 4 || month == 6 || month == 9 || month == 11 then 30
  else 31

/-- The rest after a date. -/
def afterDate? (t : Text) : Option Text := do
  let (year, t) ← fixed? 4 0 9999 t
  let t ← Text.after? ['-'] t
  let (month, t) ← fixed? 2 1 12 t
  let t ← Text.after? ['-'] t
  let (_, t) ← fixed? 2 1 (daysIn year month) t
  return t

/-- The rest after a time of day. -/
def afterTime? (t : Text) : Option Text := do
  let (_, t) ← fixed? 2 0 23 t
  let t ← Text.after? [':'] t
  let (_, t) ← fixed? 2 0 59 t
  let t ← Text.after? [':'] t
  let (_, t) ← fixed? 2 0 60 t
  match t with
  | '.' :: t => (Text.digits? t).map (·.2)
  | t => return t

/-- The offset of a time zone, or nothing. -/
def isOffset (t : Text) : Bool :=
  match t with
  | [] => true
  | [c] => c == 'Z' || c == 'z'
  | c :: t =>
    (c == '+' || c == '-') &&
      (match fixed? 2 0 23 t with
        | some (_, ':' :: t) => (fixed? 2 0 59 t).any fun rest => rest.2.isEmpty
        | _ => false)

/-- A date, a time, or a date and a time. -/
def isMoment (t : Text) : Bool :=
  match afterDate? t with
  | some [] => true
  | some (c :: t) =>
    (c == 'T' || c == 't' || c == ' ') && (afterTime? t).any isOffset
  | none => (afterTime? t).any List.isEmpty

/-- The characters of scalars. -/
def isScalarChar (c : Char) : Bool :=
  Text.isLetter c || Text.isDigit c || c == '+' || c == '-' || c == '_' || c == '.' || c == ':'

/-- The text of a scalar.  A date and a time may have a space between them. -/
def scalarText : Text → Text × Text := fun t =>
  let run := t.takeWhile isScalarChar
  match t.dropWhile isScalarChar with
  | ' ' :: rest =>
    if (afterDate? run == some []) && rest.head?.any Text.isDigit then
      (run ++ ' ' :: rest.takeWhile isScalarChar, rest.dropWhile isScalarChar)
    else (run, ' ' :: rest)
  | rest => (run, rest)

/-- The value that a scalar denotes. -/
def scalar? : Text.Reader Toml := fun t =>
  let (run, rest) := scalarText t
  if run == "true".toList then some (.boolean true, rest)
  else if run == "false".toList then some (.boolean false, rest)
  else if isInteger run || isFloat run then some (.number run, rest)
  else if isMoment run then some (.moment run, rest)
  else none

end ShellWord.Toml
