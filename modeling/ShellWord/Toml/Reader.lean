import ShellWord.Toml.Scalar

/-!
# Reading TOML

A reader for documents: keys, texts in four kinds of quotes, arrays, inline tables, and the lines they
stand on.

## Main definitions

* `Toml.key?`: a key, possibly with dots
* `Toml.value`: a value
* `Toml.ofText?`: the table that a text denotes
-/

namespace ShellWord.Toml

/-- Blanks within a line. -/
def isSpace (c : Char) : Bool :=
  c == ' ' || c == '\t'

/-- Skip blanks within a line. -/
def skip (t : Text) : Text :=
  t.dropWhile isSpace

/-- The characters that may be written as they are: no control characters other than the tab. -/
def isPlain (c : Char) : Bool :=
  c == '\t' || (0x20 ≤ c.toNat && c.toNat != 0x7f)

/-- Skip a comment, up to the end of its line. -/
def skipComment? : Text → Option Text
  | '#' :: t =>
    match t.dropWhile isPlain with
    | [] => some []
    | '\n' :: rest => some ('\n' :: rest)
    | '\r' :: '\n' :: rest => some ('\r' :: '\n' :: rest)
    | _ => none
  | t => some t

/-- The rest after the end of a line. -/
def newline? : Text → Option Text
  | '\n' :: t => some t
  | '\r' :: '\n' :: t => some t
  | _ => none

/-- The rest after blanks, a comment and the end of the line; the text may end here. -/
def endOfLine? (t : Text) : Option Text := do
  let t ← skipComment? (skip t)
  if t.isEmpty then return [] else newline? t

/-- Skip blanks, comments and line ends. -/
def skipLines : Nat → Text → Option Text
  | 0, t => some t
  | n + 1, t => do
    let t ← skipComment? (skip t)
    match newline? t with
    | some rest => skipLines n rest
    | none => return t

/-! ### Texts -/

/-- The number that hexadecimal digits denote, and the rest; exactly so many digits. -/
def hex? : (size : Nat) → (value : Nat) → Text → Option (Nat × Text)
  | 0, value, t => some (value, t)
  | size + 1, value, c :: t =>
    match Text.hexValue? c with
    | some d => hex? size (value * 16 + d) t
    | none => none
  | _ + 1, _, [] => none

/-- The character of a code point that has one. -/
def codePoint? (n : Nat) : Option Char :=
  if n < 0xD800 || (0xE000 ≤ n && n < 0x110000) then some (Char.ofNat n) else none

/-- The character of an escape, given what follows the backslash. -/
def escape? : Text.Reader Char
  | [] => none
  | c :: t =>
    if c == 'b' then some ('\x08', t)
    else if c == 't' then some ('\t', t)
    else if c == 'n' then some ('\n', t)
    else if c == 'f' then some ('\x0c', t)
    else if c == 'r' then some ('\r', t)
    else if c == '\x22' then some ('\x22', t)
    else if c == '\\' then some ('\\', t)
    else if c == 'u' then (hex? 4 0 t).bind fun (n, t) => (codePoint? n).map fun c => (c, t)
    else if c == 'U' then (hex? 8 0 t).bind fun (n, t) => (codePoint? n).map fun c => (c, t)
    else none

/-- A character in front of the text found. -/
def consFound (c : Char) (found : Option (Text × Text)) : Option (Text × Text) :=
  found.map fun (text, rest) => (c :: text, rest)

/-- A text in double quotes, from inside of it; its length is bounded by that of the text. -/
def basic : Nat → Text.Reader Text
  | 0, _ => none
  | _ + 1, [] => none
  | n + 1, c :: t =>
    if c == '\x22' then some ([], t)
    else if c == '\\' then
      match escape? t with
      | some (d, t) => consFound d (basic n t)
      | none => none
    else if isPlain c then consFound c (basic n t)
    else none

/-- A text in single quotes, from inside of it. -/
def literal : Text.Reader Text
  | [] => none
  | c :: t =>
    if c == '\x27' then some ([], t)
    else if isPlain c then consFound c (literal t)
    else none

/-- The quotes at the front of a text. -/
def quotes (quote : Char) (t : Text) : Nat :=
  (t.takeWhile (· == quote)).length

/-- The end of a text of several lines: three quotes, after up to two that belong to the text. -/
def closing? (quote : Char) (t : Text) : Option (Text × Text) :=
  let n := quotes quote t
  if 3 ≤ n then
    let inner := min (n - 3) 2
    some (List.replicate inner quote, t.drop (inner + 3))
  else none

/-- Drop the end of a line, and blanks and empty lines after it; `none` if the line goes on. -/
def continuation? (t : Text) : Option Text :=
  match newline? (skip t) with
  | some rest => some (rest.dropWhile fun c => isSpace c || c == '\n' || c == '\r')
  | none => none

/-- A text of several lines in double quotes, from inside of it.  Every line end counts as a newline. -/
def basicLines : Nat → Text.Reader Text
  | 0, _ => none
  | _ + 1, [] => none
  | n + 1, c :: t =>
    match closing? '\x22' (c :: t) with
    | some found => some found
    | none =>
      if c == '\\' then
        match continuation? t with
        | some rest => basicLines n rest
        | none =>
          match escape? t with
          | some (d, t) => consFound d (basicLines n t)
          | none => none
      else if c == '\r' then
        match t with
        | '\n' :: t => consFound '\n' (basicLines n t)
        | _ => none
      else if isPlain c || c == '\n' then consFound c (basicLines n t)
      else none

/-- A text of several lines in single quotes, from inside of it.  Every line end counts as a
newline. -/
def literalLines : Text.Reader Text
  | [] => none
  | c :: t =>
    match closing? '\x27' (c :: t) with
    | some found => some found
    | none =>
      if c == '\r' && t.head? == some '\n' then literalLines t
      else if isPlain c || c == '\n' then consFound c (literalLines t)
      else none

/-- The rest after a line end that follows the opening quotes at once. -/
def afterOpening (t : Text) : Text :=
  (newline? t).getD t

/-- A text on one line. -/
def lineString? : Text.Reader Text
  | c :: t =>
    if c == '\x22' then basic (t.length + 1) t
    else if c == '\x27' then literal t
    else none
  | [] => none

/-- A text in any of the four kinds of quotes. -/
def string? (t : Text) : Option (Text × Text) :=
  match Text.after? ['\x22', '\x22', '\x22'] t with
  | some t => basicLines (t.length + 1) (afterOpening t)
  | none =>
    match Text.after? ['\x27', '\x27', '\x27'] t with
    | some t => literalLines (afterOpening t)
    | none => lineString? t

/-! ### Keys -/

/-- The characters of keys without quotes. -/
def isBare (c : Char) : Bool :=
  Text.isLetter c || Text.isDigit c || c == '_' || c == '-'

/-- A key without dots. -/
def simpleKey? : Text.Reader Text := fun t =>
  match Text.run? isBare t with
  | some found => some found
  | none => lineString? t

/-- A key, with blanks around it and around its dots. -/
def keyAt : Nat → Text.Reader (List Text)
  | 0, _ => none
  | n + 1, t => do
    let (first, t) ← simpleKey? (skip t)
    match skip t with
    | '.' :: t => do
      let (others, t) ← keyAt n t
      return (first :: others, t)
    | t => return ([first], t)

/-- A key. -/
def key? (t : Text) : Option (List Text × Text) :=
  keyAt (t.length + 1) t

/-! ### Values -/

/-- The items of an array from inside of it; a comma may follow the last one. -/
def arrayItems (value : Text.Reader Toml) : Nat → Text.Reader (List Toml)
  | 0, _ => none
  | n + 1, t => do
    let t ← skipLines (t.length + 1) t
    match t with
    | ']' :: t => return ([], t)
    | t =>
      let (first, t) ← value t
      let t ← skipLines (t.length + 1) t
      match t with
      | ',' :: t =>
        let (others, t) ← arrayItems value n t
        return (first :: others, t)
      | ']' :: t => return ([first], t)
      | _ => none

/-- An assignment, without what follows it on its line. -/
def assignment (value : Text.Reader Toml) : Text.Reader (List Text × Toml) := fun t => do
  let (path, t) ← key? t
  match t with
  | '=' :: t =>
    let (v, t) ← value (skip t)
    return ((path, v), t)
  | _ => none

/-- The assignments of an inline table from inside of it. -/
def inlineItems (value : Text.Reader Toml) : Nat → Text.Reader (List (List Text × Toml))
  | 0, _ => none
  | n + 1, t => do
    let (first, t) ← assignment value t
    match skip t with
    | ',' :: t =>
      let (others, t) ← inlineItems value n t
      return (first :: others, t)
    | c :: t => if c == '\x7d' then return ([first], t) else none
    | [] => none

/-- An inline table from inside of it. -/
def inlineTable (value : Text.Reader Toml) : Text.Reader Toml := fun t =>
  match skip t with
  | [] => none
  | c :: rest =>
    if c == '\x7d' then some (.table .inline [], rest)
    else do
      let (assignments, t) ← inlineItems value (t.length + 1) (c :: rest)
      let table ← inlineTable? assignments
      return (table, t)

/-- A value whose arrays and inline tables are nested at most so deep. -/
def value : Nat → Text.Reader Toml
  | _, [] => none
  | 0, t => scalarOrString t
  | depth + 1, c :: t =>
    if c == '[' then
      (arrayItems (value depth) (t.length + 1) t).map fun (items, rest) => (.array items, rest)
    else if c == '\x7b' then inlineTable (value depth) t
    else scalarOrString (c :: t)
where
  /-- A value without parts. -/
  scalarOrString (t : Text) : Option (Toml × Text) :=
    if t.head? == some '\x22' || t.head? == some '\x27' then
      (string? t).map fun (s, rest) => (.string s, rest)
    else scalar? t

/-- How deep arrays and inline tables may be nested. -/
def maxDepth : Nat := 80

/-! ### Documents -/

/-- A statement and the rest of the document after its line. -/
def statement? (t : Text) : Option (Statement × Text) :=
  match t with
  | '[' :: '[' :: t => do
    let (path, t) ← key? t
    let t ← Text.after? [']', ']'] t
    let t ← endOfLine? t
    return (.repeatable path, t)
  | '[' :: t => do
    let (path, t) ← key? t
    let t ← Text.after? [']'] t
    let t ← endOfLine? t
    return (.header path, t)
  | t => do
    let ((path, v), t) ← assignment (value maxDepth) t
    let t ← endOfLine? t
    return (.assign path v, t)

/-- The statements of a document; there are at most as many as characters. -/
def statements : Nat → Text → Option (List Statement)
  | 0, t => if t.isEmpty then some [] else none
  | n + 1, t => do
    let t ← skipLines (t.length + 1) t
    if t.isEmpty then
      return []
    else
      let (first, t) ← statement? t
      let others ← statements n t
      return first :: others

/-- The table that a text denotes.  A byte order mark in front does not count. -/
def ofText? (t : Text) : Option Entries := do
  let t := if t.head? == some '\ufeff' then t.tail else t
  let list ← statements (t.length + 1) t
  ofStatements? list

end ShellWord.Toml
