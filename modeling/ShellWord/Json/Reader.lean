import ShellWord.Json.Basic
import ShellWord.Text.Reader

/-!
# Reading JSON

A reader for JSON texts.  Every function here reads a value from the front of a text and gives it
together with the rest, or nothing when the text does not begin with one.  Arrays and objects may be
nested `maxDepth` deep; the reader is recursion on the depth that is left.

## Main definitions

* `Json.ofText?`: the value of a whole text
-/

namespace ShellWord.Json

/-- Blanks between the tokens of JSON. -/
def isSpace (c : Char) : Bool :=
  c == ' ' || c == '\t' || c == '\n' || c == '\r'

/-- Skip blanks. -/
def skip (t : Text) : Text :=
  t.dropWhile isSpace

/-! ### Strings -/

/-- The number that four hexadecimal digits denote. -/
def hexQuad? (a b c d : Char) : Option Nat := do
  let a ← Text.hexValue? a
  let b ← Text.hexValue? b
  let c ← Text.hexValue? c
  let d ← Text.hexValue? d
  return ((a * 16 + b) * 16 + c) * 16 + d

/-- The first halves of surrogate pairs. -/
def isHighSurrogate (n : Nat) : Bool := 0xD800 ≤ n && n < 0xDC00

/-- The second halves of surrogate pairs. -/
def isLowSurrogate (n : Nat) : Bool := 0xDC00 ≤ n && n < 0xE000

/-- The character that a surrogate pair denotes. -/
def pairChar (high low : Nat) : Char :=
  Char.ofNat (0x10000 + (high - 0xD800) * 0x400 + (low - 0xDC00))

/-- The character that a short escape denotes. -/
def shortEscape? (c : Char) : Option Char :=
  if c == '\x22' || c == '\\' || c == '/' then some c
  else if c == 'b' then some '\x08'
  else if c == 'f' then some '\x0c'
  else if c == 'n' then some '\n'
  else if c == 'r' then some '\r'
  else if c == 't' then some '\t'
  else none

/-- The characters of a string up to its closing quote.  Half a surrogate pair is refused. -/
def chars : Text.Reader Text
  | [] => none
  | '\\' :: 'u' :: a :: b :: c :: d :: '\\' :: 'u' :: e :: f :: g :: h :: t =>
    match hexQuad? a b c d with
    | none => none
    | some n =>
      if isHighSurrogate n then
        match hexQuad? e f g h with
        | none => none
        | some m =>
          if isLowSurrogate m then (chars t).map fun (s, rest) => (pairChar n m :: s, rest)
          else none
      else if isLowSurrogate n then none
      else
        (chars ('\\' :: 'u' :: e :: f :: g :: h :: t)).map fun (s, rest) => (Char.ofNat n :: s, rest)
  | '\\' :: 'u' :: a :: b :: c :: d :: t =>
    match hexQuad? a b c d with
    | none => none
    | some n =>
      if isHighSurrogate n || isLowSurrogate n then none
      else (chars t).map fun (s, rest) => (Char.ofNat n :: s, rest)
  | '\\' :: c :: t =>
    match shortEscape? c with
    | none => none
    | some d => (chars t).map fun (s, rest) => (d :: s, rest)
  | c :: t =>
    if c == '\x22' then some ([], t)
    else if c == '\\' || c.toNat < 0x20 then none
    else (chars t).map fun (s, rest) => (c :: s, rest)

/-- A string, from its opening quote on. -/
def string? : Text.Reader Text
  | c :: t => if c == '\x22' then chars t else none
  | [] => none

/-! ### Numbers -/

/-- The integral digits of a number: no zero in front of others. -/
def integral? : Text.Reader Text := fun t =>
  match Text.digits? t with
  | some (['0'], rest) => some (['0'], rest)
  | some ('0' :: _, _) => none
  | other => other

/-- The fraction of a number, if there is one. -/
def fraction? : Text.Reader Text
  | '.' :: t => (Text.digits? t).map fun (run, rest) => ('.' :: run, rest)
  | t => some ([], t)

/-- The exponent of a number, if there is one. -/
def exponent? : Text.Reader Text
  | c :: t =>
    if c == 'e' || c == 'E' then
      match t with
      | '+' :: t => (Text.digits? t).map fun (run, rest) => (c :: '+' :: run, rest)
      | '-' :: t => (Text.digits? t).map fun (run, rest) => (c :: '-' :: run, rest)
      | t => (Text.digits? t).map fun (run, rest) => (c :: run, rest)
    else some ([], c :: t)
  | [] => some ([], [])

/-- A number without its sign. -/
def magnitude? : Text.Reader Text := fun t => do
  let (whole, t) ← integral? t
  let (part, t) ← fraction? t
  let (scale, t) ← exponent? t
  return (whole ++ part ++ scale, t)

/-- A number, kept as it is written. -/
def number? : Text.Reader Json
  | '-' :: t => (magnitude? t).map fun (run, rest) => (.number ('-' :: run), rest)
  | t => (magnitude? t).map fun (run, rest) => (.number run, rest)

/-! ### Arrays and objects -/

/-- Further items of a list, each after a comma, up to the closing character.  Every item takes at
least one character, so the length of the text bounds their number. -/
def itemsTail {α : Type} (item : Text.Reader α) (close : Char) : Nat → Text.Reader (List α)
  | 0, _ => none
  | n + 1, t =>
    match skip t with
    | [] => none
    | c :: t =>
      if c == close then some ([], t)
      else if c == ',' then do
        let (first, t) ← item (skip t)
        let (others, t) ← itemsTail item close n t
        return (first :: others, t)
      else none

/-- The items of a list up to the closing character. -/
def items {α : Type} (item : Text.Reader α) (close : Char) : Text.Reader (List α) := fun t =>
  match skip t with
  | [] => none
  | c :: rest =>
    if c == close then some ([], rest)
    else do
      let (first, t) ← item (c :: rest)
      let (others, t) ← itemsTail item close (t.length + 1) t
      return (first :: others, t)

/-- A field of an object: a name, a colon and a value. -/
def field (value : Text.Reader Json) : Text.Reader (Text × Json) := fun t => do
  let (name, t) ← string? t
  match skip t with
  | ':' :: t => do
    let (v, t) ← value (skip t)
    return ((name, v), t)
  | _ => none

/-- A value without parts. -/
def scalar? : Text.Reader Json := fun t =>
  match Text.after? "null".toList t with
  | some rest => some (.null, rest)
  | none =>
    match Text.after? "true".toList t with
    | some rest => some (.bool true, rest)
    | none =>
      match Text.after? "false".toList t with
      | some rest => some (.bool false, rest)
      | none =>
        match string? t with
        | some (s, rest) => some (.string s, rest)
        | none => number? t

/-- A value whose arrays and objects are nested at most so deep. -/
def value : Nat → Text.Reader Json
  | 0, t => scalar? t
  | depth + 1, t =>
    match t with
    | '[' :: t => (items (value depth) ']' t).map fun (list, rest) => (.array list, rest)
    | c :: t =>
      if c == '\x7b' then
        (items (field (value depth)) '\x7d' t).map fun (list, rest) => (.object list, rest)
      else scalar? (c :: t)
    | [] => none

/-- How deep arrays and objects may be nested. -/
def maxDepth : Nat := 127

/-- The value that a whole text denotes. -/
def ofText? (t : Text) : Option Json :=
  match value maxDepth (skip t) with
  | some (v, rest) => if (skip rest).isEmpty then some v else none
  | none => none

end ShellWord.Json
