import ShellWord.Arith.Numeral
import ShellWord.Text.Utf8

/-!
# Formatted output

How `echo` and `printf` make bytes from their arguments.  A backslash sequence may stand for any byte,
so the result need not be a text.  A format is read into directives first; it is used again as long as
there are arguments left.

## Main definitions

* `Format.echo`: the bytes of the arguments of `echo`
* `Format.Directive`, `Format.directives`: formats
* `Format.printf`: the bytes of a format and its arguments
-/

namespace ShellWord.Format

/-! ### Backslash sequences -/

/-- Up to `n` octal digits: their value, and the text after them. -/
def octal : (n value : Nat) → Text → Nat × Text
  | 0, value, t => (value, t)
  | _ + 1, value, [] => (value, [])
  | n + 1, value, c :: t =>
    if '0' ≤ c && c ≤ '7' then octal n (8 * value + (c.toNat - 0x30)) t
    else (value, c :: t)

/-- The byte that a letter after a backslash stands for. -/
def control? : Char → Option UInt8
  | '\\' => some 92
  | 'a' => some 7
  | 'b' => some 8
  | 'f' => some 12
  | 'n' => some 10
  | 'r' => some 13
  | 't' => some 9
  | 'v' => some 11
  | _ => none

/-- What a text with backslash sequences stands for, and whether `\c` ended it.  An octal number
begins with a zero.  Every step takes a character, so the length of the text bounds their number. -/
def unescapeAt : Nat → Text → List UInt8 × Bool
  | 0, _ => ([], false)
  | _ + 1, [] => ([], false)
  | _ + 1, '\\' :: 'c' :: _ => ([], true)
  | n + 1, '\\' :: '0' :: t =>
    let (value, t) := octal 3 0 t
    let (bytes, ended) := unescapeAt n t
    (UInt8.ofNat value :: bytes, ended)
  | n + 1, '\\' :: c :: t =>
    let (bytes, ended) := unescapeAt n t
    match control? c with
    | some byte => (byte :: bytes, ended)
    | none => (Utf8.encode ['\\', c] ++ bytes, ended)
  | n + 1, c :: t =>
    let (bytes, ended) := unescapeAt n t
    (Utf8.encodeChar c ++ bytes, ended)

/-- What a text with backslash sequences stands for, and whether `\c` ended it. -/
def unescape (t : Text) : List UInt8 × Bool :=
  unescapeAt (t.length + 1) t

/-- The bytes of the arguments of `echo`: with spaces between them and a line end after them, which
`-n` or `\c` suppress. -/
def echo (arguments : List Text) : List UInt8 :=
  let (line, arguments) := match arguments with
    | ['-', 'n'] :: rest => (false, rest)
    | arguments => (true, arguments)
  let (bytes, ended) := unescape (List.intercalate [' '] arguments)
  if line && !ended then bytes ++ [10] else bytes

/-! ### Formats -/

/-- A conversion of an argument. -/
structure Conversion where
  /-- fill up on the right -/
  left : Bool
  /-- fill up with zeros -/
  zeros : Bool
  /-- write a plus sign -/
  plus : Bool
  width : Nat
  precision : Option Nat
  /-- one of `s b c d i u o x X` -/
  kind : Char
  deriving DecidableEq, Repr

/-- A piece of a format. -/
inductive Directive where
  | bytes (bytes : List UInt8)
  | convert (conversion : Conversion)

/-- A decimal number at the front of a text, which may be missing. -/
def decimal (t : Text) : Nat × Text :=
  ((Numeral.natural? 10 (t.takeWhile Text.isDigit)).getD 0, t.dropWhile Text.isDigit)

/-- The conversion that follows a percent sign. -/
def conversion? (t : Text) : Option (Conversion × Text) :=
  let isFlag (c : Char) : Bool := c == '-' || c == '0' || c == '+' || c == ' ' || c == '#'
  let flags := t.takeWhile isFlag
  let (width, t) := decimal (t.dropWhile isFlag)
  let (precision, t) := match t with
    | '.' :: t => let (digits, t) := decimal t; (some digits, t)
    | t => (none, t)
  match t with
  | kind :: t =>
    if "sbcdiuoxX".toList.contains kind then
      some ({ left := flags.contains '-', zeros := flags.contains '0', plus := flags.contains '+',
              width, precision, kind }, t)
    else none
  | [] => none

/-- The directives of a format, up to a directive that is none.  Every step takes a character, so the
length of the format bounds their number. -/
def directivesAt : Nat → Text → List Directive × Bool
  | 0, _ => ([], true)
  | _ + 1, [] => ([], true)
  | n + 1, '%' :: '%' :: t =>
    let (rest, good) := directivesAt n t
    (.bytes [37] :: rest, good)
  | n + 1, '%' :: t =>
    match conversion? t with
    | some (conversion, t) =>
      let (rest, good) := directivesAt n t
      (.convert conversion :: rest, good)
    | none => ([], false)
  | n + 1, '\\' :: c :: t =>
    if '0' ≤ c && c ≤ '7' then
      let (value, t) := octal 3 0 (c :: t)
      let (rest, good) := directivesAt n t
      (.bytes [UInt8.ofNat value] :: rest, good)
    else
      let (rest, good) := directivesAt n t
      match control? c with
      | some byte => (.bytes [byte] :: rest, good)
      | none => (.bytes (Utf8.encode ['\\', c]) :: rest, good)
  | n + 1, c :: t =>
    let (rest, good) := directivesAt n t
    (.bytes (Utf8.encodeChar c) :: rest, good)

/-- The directives of a format, and whether all of it could be read. -/
def directives (t : Text) : List Directive × Bool :=
  directivesAt (t.length + 1) t

/-- The number that an argument is: decimal, octal, hexadecimal, or a quote and a character. -/
def number? (t : Text) : Option Int :=
  match t with
  | '\x27' :: c :: _ => some c.toNat
  | '\x22' :: c :: _ => some c.toNat
  | '-' :: rest => (Numeral.read? rest).map fun n => -n.toInt
  | '+' :: rest => (Numeral.read? rest).map Int64.toInt
  | _ => (Numeral.read? t).map Int64.toInt

/-- Fill up to a width. -/
def pad (conversion : Conversion) (fill : UInt8) (bytes : List UInt8) : List UInt8 :=
  let missing := conversion.width - bytes.length
  if conversion.left then bytes ++ List.replicate missing 32
  else List.replicate missing fill ++ bytes

/-- The digits of a number in the base of a conversion. -/
def digitsFor (kind : Char) (n : Nat) : Text :=
  match kind with
  | 'o' => Nat.toDigits 8 n
  | 'x' => Nat.toDigits 16 n
  | 'X' => (Nat.toDigits 16 n).map Char.toUpper
  | _ => Nat.toDigits 10 n

/-- The text of a number.  A negative one stands for its remainder modulo `2 ^ 64` in the conversions
without a sign. -/
def writeNumber (conversion : Conversion) (n : Int) : List UInt8 :=
  let signed := conversion.kind == 'd' || conversion.kind == 'i'
  let magnitude := if signed then n.natAbs else (n % 0x10000000000000000).toNat
  let digits := digitsFor conversion.kind magnitude
  let digits := List.replicate (conversion.precision.getD 1 - digits.length) '0' ++ digits
  let sign := if signed && n < 0 then ['-'] else if signed && conversion.plus then ['+'] else []
  if conversion.zeros && !conversion.left && conversion.precision.isNone then
    Utf8.encode sign ++
      pad { conversion with width := conversion.width - sign.length } 48 (Utf8.encode digits)
  else pad conversion 32 (Utf8.encode (sign ++ digits))

/-- What a conversion makes of an argument, which may be missing, and whether the argument was good. -/
def convert (conversion : Conversion) (argument : Option Text) : List UInt8 × Bool :=
  let text := argument.getD []
  let shorten (bytes : List UInt8) : List UInt8 :=
    match conversion.precision with
    | some n => bytes.take n
    | none => bytes
  match conversion.kind with
  | 's' => (pad conversion 32 (shorten (Utf8.encode text)), true)
  | 'b' => (pad conversion 32 (shorten (unescape text).1), true)
  | 'c' => (pad conversion 32 ((Utf8.encode text).take 1), true)
  | _ =>
    match argument with
    | none => (writeNumber conversion 0, true)
    | some text =>
      match number? text with
      | some n => (writeNumber conversion n, true)
      | none => (writeNumber conversion 0, false)

/-- What directives make of arguments, the arguments that are left, and whether all were good. -/
def fill : List Directive → List Text → List UInt8 × List Text × Bool
  | [], arguments => ([], arguments, true)
  | .bytes bytes :: rest, arguments =>
    let (others, arguments, good) := fill rest arguments
    (bytes ++ others, arguments, good)
  | .convert conversion :: rest, arguments =>
    let (bytes, fine) := convert conversion arguments.head?
    let (others, arguments, good) := fill rest arguments.tail
    (bytes ++ others, arguments, fine && good)

/-- Use directives again as long as arguments are left; each time takes one at least. -/
def fillAll (format : List Directive) : Nat → List Text → List UInt8 × Bool
  | 0, _ => ([], true)
  | n + 1, arguments =>
    let (bytes, rest, good) := fill format arguments
    if rest.isEmpty || rest.length == arguments.length then (bytes, good)
    else
      let (others, fine) := fillAll format n rest
      (bytes ++ others, good && fine)

/-- The bytes of a format and its arguments, and whether all of it was good. -/
def printf (format : Text) (arguments : List Text) : List UInt8 × Bool :=
  let (format, good) := directives format
  let (bytes, fine) := fillAll format (arguments.length + 1) arguments
  (bytes, good && fine)

end ShellWord.Format
