import ShellWord.Text.Basic

/-!
# JSON values

Commands are handed over as JSON.  An object keeps its fields in the order in which they were
written, repeated ones included, so that a reader of records can refuse a repeated field.  Numbers
occur in no record, and a number is kept as it was written.

## Main definitions

* `Json`: the values
* `Json.render`: the compact text of a value
* `Json.depth`: how deep arrays and objects are nested
* `Json.record?`: the fields of a record
* `Json.tagged?`: the tag of a variant, and the rest of it
-/

namespace ShellWord

/-- A JSON value. -/
inductive Json where
  | null
  | bool (b : Bool)
  | number (numeral : Text)
  | string (text : Text)
  | array (items : List Json)
  | object (fields : List (Text × Json))

namespace Json

/-- A text as a JSON string. -/
def str (s : String) : Json :=
  .string s.toList

/-- A natural number. -/
def nat (n : Nat) : Json :=
  .number (Text.ofNat n)

/-- An optional value; `null` when there is none. -/
def option {α : Type} (f : α → Json) : Option α → Json
  | none => .null
  | some a => f a

/-- A hexadecimal digit, in lower case. -/
def hexDigit (n : Nat) : Char :=
  if n < 10 then Char.ofNat (0x30 + n) else Char.ofNat (0x61 + (n - 10))

/-- A character as it is written between the quotes of a string: quotes, backslashes and control
characters are escaped. -/
def escapeChar (c : Char) : Text :=
  if c == '\x22' then ['\\', '\x22']
  else if c == '\\' then ['\\', '\\']
  else if c == '\x08' then ['\\', 'b']
  else if c == '\x0c' then ['\\', 'f']
  else if c == '\n' then ['\\', 'n']
  else if c == '\r' then ['\\', 'r']
  else if c == '\t' then ['\\', 't']
  else if c.toNat < 0x20 then
    ['\\', 'u', '0', '0', hexDigit (c.toNat / 16), hexDigit (c.toNat % 16)]
  else [c]

/-- A text between the quotes of a string. -/
def quote (t : Text) : Text :=
  '\x22' :: (t.flatMap escapeChar ++ ['\x22'])

mutual

/-- The compact text of a value. -/
def render : Json → Text
  | .null => ['n', 'u', 'l', 'l']
  | .bool true => ['t', 'r', 'u', 'e']
  | .bool false => ['f', 'a', 'l', 's', 'e']
  | .number numeral => numeral
  | .string text => quote text
  | .array [] => ['[', ']']
  | .array (item :: items) => '[' :: (item.render ++ renderItems items ++ [']'])
  | .object [] => ['\x7b', '\x7d']
  | .object ((name, value) :: fields) =>
    '\x7b' :: (quote name ++ ':' :: value.render ++ renderFields fields ++ ['\x7d'])

/-- Further items of an array, each after a comma. -/
def renderItems : List Json → Text
  | [] => []
  | item :: items => ',' :: (item.render ++ renderItems items)

/-- Further fields of an object, each after a comma. -/
def renderFields : List (Text × Json) → Text
  | [] => []
  | (name, value) :: fields => ',' :: (quote name ++ ':' :: value.render ++ renderFields fields)

end

mutual

/-- How deep arrays and objects are nested. -/
def depth : Json → Nat
  | .array items => depthItems items + 1
  | .object fields => depthFields fields + 1
  | _ => 0

/-- How deep the items of an array are nested. -/
def depthItems : List Json → Nat
  | [] => 0
  | item :: items => max item.depth (depthItems items)

/-- How deep the fields of an object are nested. -/
def depthFields : List (Text × Json) → Nat
  | [] => 0
  | (_, value) :: fields => max value.depth (depthFields fields)

end

/-! ### Records and variants -/

/-- The value of a field; a repeated field has none. -/
def single? (fields : List (Text × Json)) (name : Text) : Option (Option Json) :=
  match fields.filter fun field => field.1 == name with
  | [] => some none
  | [field] => some (some field.2)
  | _ => none

/-- The values of the named fields of a record, where a field may be absent.  A record is an object,
whose other fields are ignored, or an array of its values in order. -/
def record? (names : List Text) : Json → Option (List (Option Json))
  | .object fields => names.mapM (single? fields)
  | .array items =>
    if items.length ≤ names.length then
      some (items.map some ++ List.replicate (names.length - items.length) none)
    else
      none
  | _ => none

/-- The tag of a variant, and the rest of it as a record.  The tag of an array is its first item. -/
def tagged? (tag : Text) : Json → Option (Text × Json)
  | .object fields =>
    match single? fields tag with
    | some (some (.string name)) =>
      some (name, .object (fields.filter fun field => !(field.1 == tag)))
    | _ => none
  | .array (.string name :: items) => some (name, .array items)
  | _ => none

end Json

end ShellWord
