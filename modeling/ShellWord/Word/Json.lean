import ShellWord.Json.Basic
import ShellWord.Word.Basic

/-!
# Words as JSON

The parser of the shell hands commands over as JSON: a command is a record of words, a word is a
record of parts, and parts, expansions and operators are variants with a tag.  `toJson` writes every
field of a record, with `null` for what is absent; reading also takes records in which optional
fields are missing.

Words hold words again, in operands and replacements.  The readers of parts, expansions and operators
take the reader of inner words as an argument, and only the reader of words itself is recursive.

## Main definitions

* `Word.toJson`, `Expansion.toJson`, `Operator.toJson`: writing
* `Word.ofJson?`, `Expansion.ofJson?`, `Command.ofJson?`: reading
-/

namespace ShellWord

/-! ### Writing -/

/-- A record with the given fields. -/
def jsonRecord (fields : List (String × Json)) : Json :=
  .object (fields.map fun (name, value) => (name.toList, value))

/-- The name of a way to quote. -/
def Quote.toJson : Quote → Json
  | .single => .str "single"
  | .double => .str "double"
  | .ansiC => .str "ansi_c"

/-- The name of an anchor. -/
def Anchor.toJson : Anchor → Json
  | .start => .str "start"
  | .finish => .str "end"

/-- The name of a direction of case. -/
def CaseDirection.toJson : CaseDirection → Json
  | .upper => .str "upper"
  | .lower => .str "lower"

/-- The name of a direction of a process substitution. -/
def Flow.toJson : Flow → Json
  | .input => .str "input"
  | .output => .str "output"

mutual

/-- A word as JSON. -/
def Word.toJson : Word → Json
  | .mk parts quote =>
    jsonRecord [("parts", .array (partsToJson parts)), ("quote_type", .option Quote.toJson quote)]

/-- The parts of a word as JSON. -/
def partsToJson : List Part → List Json
  | [] => []
  | part :: parts => part.toJson :: partsToJson parts

/-- A part as JSON. -/
def Part.toJson : Part → Json
  | .literal text quote =>
    jsonRecord [("type", .str "literal"), ("text", .string text),
      ("quote", .option Quote.toJson quote)]
  | .expansion expansion quote =>
    jsonRecord [("type", .str "expansion"), ("expansion", expansion.toJson),
      ("quote", .option Quote.toJson quote)]

/-- An expansion as JSON. -/
def Expansion.toJson : Expansion → Json
  | .variable name => jsonRecord [("kind", .str "variable"), ("name", .string name)]
  | .parameter name operator word =>
    jsonRecord [("kind", .str "parameter"), ("parameter", .string name),
      ("operator", operatorToJson operator), ("word", wordToJson word)]
  | .command command backtick =>
    jsonRecord [("kind", .str "command_substitution"), ("command", .string command),
      ("backtick", .bool backtick)]
  | .arithmetic expression =>
    jsonRecord [("kind", .str "arithmetic"), ("expression", .string expression)]
  | .process flow command =>
    jsonRecord [("kind", .str "process_substitution"), ("direction", flow.toJson),
      ("command", .string command)]

/-- An operator as JSON. -/
def Operator.toJson : Operator → Json
  | .useDefault colon => jsonRecord [("op", .str "use_default"), ("colon", .bool colon)]
  | .assignDefault colon => jsonRecord [("op", .str "assign_default"), ("colon", .bool colon)]
  | .errorIfUnset colon => jsonRecord [("op", .str "error_if_unset"), ("colon", .bool colon)]
  | .useAlternative colon => jsonRecord [("op", .str "use_alternative"), ("colon", .bool colon)]
  | .trimFront longest => jsonRecord [("op", .str "remove_prefix"), ("longest", .bool longest)]
  | .trimBack longest => jsonRecord [("op", .str "remove_suffix"), ("longest", .bool longest)]
  | .replace all anchor replacement =>
    jsonRecord [("op", .str "replace"), ("all", .bool all), ("anchor", .option Anchor.toJson anchor),
      ("replacement", wordToJson replacement)]
  | .length => jsonRecord [("op", .str "length")]
  | .substring offset length =>
    jsonRecord [("op", .str "substring"), ("offset", .string offset),
      ("length", .option .string length)]
  | .changeCase direction all =>
    jsonRecord [("op", .str "case_modification"), ("direction", direction.toJson),
      ("all", .bool all)]

/-- An operator as JSON, `null` when there is none. -/
def operatorToJson : Option Operator → Json
  | none => .null
  | some operator => operator.toJson

/-- A word as JSON, `null` when there is none. -/
def wordToJson : Option Word → Json
  | none => .null
  | some word => word.toJson

end

/-! ### Reading -/

/-- A text. -/
def textOfJson? : Json → Option Text
  | .string text => some text
  | _ => none

/-- A truth value. -/
def boolOfJson? : Json → Option Bool
  | .bool b => some b
  | _ => none

/-- A value that may be missing or `null`. -/
def optional {α : Type} (read? : Json → Option α) : Option Json → Option (Option α)
  | none => some none
  | some .null => some none
  | some j => (read? j).map some

/-- One of several values with names. -/
def namedOfJson? {α : Type} (values : List (String × α)) (j : Json) : Option α :=
  (textOfJson? j).bind fun name => values.lookup (String.ofList name)

/-- A way to quote. -/
def Quote.ofJson? : Json → Option Quote :=
  namedOfJson? [("single", .single), ("double", .double), ("ansi_c", .ansiC)]

/-- An anchor. -/
def Anchor.ofJson? : Json → Option Anchor :=
  namedOfJson? [("start", .start), ("end", .finish)]

/-- A direction of case. -/
def CaseDirection.ofJson? : Json → Option CaseDirection :=
  namedOfJson? [("upper", .upper), ("lower", .lower)]

/-- A direction of a process substitution. -/
def Flow.ofJson? : Json → Option Flow :=
  namedOfJson? [("input", .input), ("output", .output)]

/-- The fields of a record, by name. -/
def fieldsOfJson? (names : List String) (j : Json) : Option (List (Option Json)) :=
  j.record? (names.map String.toList)

/-- A variant with one truth value. -/
def flagOfJson? (name : String) (j : Json) : Option Bool := do
  match ← fieldsOfJson? [name] j with
  | [some flag] => boolOfJson? flag
  | _ => none

/-- An operator, given its tag and the rest of its record. -/
def Operator.ofFields? (word? : Json → Option Word) (tag : String) (j : Json) : Option Operator :=
  match tag with
  | "use_default" => (flagOfJson? "colon" j).map .useDefault
  | "assign_default" => (flagOfJson? "colon" j).map .assignDefault
  | "error_if_unset" => (flagOfJson? "colon" j).map .errorIfUnset
  | "use_alternative" => (flagOfJson? "colon" j).map .useAlternative
  | "remove_prefix" => (flagOfJson? "longest" j).map .trimFront
  | "remove_suffix" => (flagOfJson? "longest" j).map .trimBack
  | "replace" => do
    match ← fieldsOfJson? ["all", "anchor", "replacement"] j with
    | [some all, anchor, replacement] =>
      return .replace (← boolOfJson? all) (← optional Anchor.ofJson? anchor)
        (← optional word? replacement)
    | _ => none
  | "length" => (fieldsOfJson? [] j).map fun _ => .length
  | "substring" => do
    match ← fieldsOfJson? ["offset", "length"] j with
    | [some offset, count] =>
      return .substring (← textOfJson? offset) (← optional textOfJson? count)
    | _ => none
  | "case_modification" => do
    match ← fieldsOfJson? ["direction", "all"] j with
    | [some direction, some all] =>
      return .changeCase (← CaseDirection.ofJson? direction) (← boolOfJson? all)
    | _ => none
  | _ => none

/-- An operator. -/
def Operator.ofJsonWith? (word? : Json → Option Word) (j : Json) : Option Operator := do
  let (tag, rest) ← j.tagged? "op".toList
  ofFields? word? (String.ofList tag) rest

/-- A braced expansion, from a record of its name, operator and operand. -/
def Expansion.parameterOfJsonWith? (word? : Json → Option Word) (j : Json) : Option Expansion := do
  match ← fieldsOfJson? ["parameter", "operator", "word"] j with
  | [some name, operator, word] =>
    return .parameter (← textOfJson? name) (← optional (Operator.ofJsonWith? word?) operator)
      (← optional word? word)
  | _ => none

/-- An expansion, given its tag and the rest of its record. -/
def Expansion.ofFields? (word? : Json → Option Word) (tag : String) (j : Json) : Option Expansion :=
  match tag with
  | "variable" => do
    match ← fieldsOfJson? ["name"] j with
    | [some name] => return .variable (← textOfJson? name)
    | _ => none
  | "parameter" => parameterOfJsonWith? word? j
  | "command_substitution" => do
    match ← fieldsOfJson? ["command", "backtick"] j with
    | [some text, none] => return .command (← textOfJson? text) false
    | [some text, some backtick] =>
      return .command (← textOfJson? text) (← boolOfJson? backtick)
    | _ => none
  | "arithmetic" => do
    match ← fieldsOfJson? ["expression"] j with
    | [some expression] => return .arithmetic (← textOfJson? expression)
    | _ => none
  | "process_substitution" => do
    match ← fieldsOfJson? ["direction", "command"] j with
    | [some flow, some text] =>
      return .process (← Flow.ofJson? flow) (← textOfJson? text)
    | _ => none
  | _ => none

/-- An expansion. -/
def Expansion.ofJsonWith? (word? : Json → Option Word) (j : Json) : Option Expansion := do
  let (tag, rest) ← j.tagged? "kind".toList
  ofFields? word? (String.ofList tag) rest

/-- A part, given its tag and the rest of its record. -/
def Part.ofFields? (word? : Json → Option Word) (tag : String) (j : Json) : Option Part :=
  match tag with
  | "literal" => do
    match ← fieldsOfJson? ["text", "quote"] j with
    | [some text, quote] =>
      return .literal (← textOfJson? text) (← optional Quote.ofJson? quote)
    | _ => none
  | "expansion" => do
    match ← fieldsOfJson? ["expansion", "quote"] j with
    | [some inner, quote] =>
      return .expansion (← Expansion.ofJsonWith? word? inner) (← optional Quote.ofJson? quote)
    | _ => none
  | _ => none

/-- A part. -/
def Part.ofJsonWith? (word? : Json → Option Word) (j : Json) : Option Part := do
  let (tag, rest) ← j.tagged? "type".toList
  ofFields? word? (String.ofList tag) rest

/-- A word, where `word?` reads the words inside of it. -/
def Word.ofJsonWith? (word? : Json → Option Word) (j : Json) : Option Word := do
  match ← fieldsOfJson? ["parts", "quote_type"] j with
  | [some (.array parts), quote] =>
    return .mk (← parts.mapM (Part.ofJsonWith? word?)) (← optional Quote.ofJson? quote)
  | _ => none

/-- A word in which words are nested at most so deep. -/
def Word.ofJsonAt : (depth : Nat) → Json → Option Word
  | 0 => ofJsonWith? fun _ => none
  | depth + 1 => ofJsonWith? (ofJsonAt depth)

/-- A word.  Words cannot be nested deeper than the JSON they are written in. -/
def Word.ofJson? (j : Json) : Option Word :=
  ofJsonAt j.depth j

/-- An expansion. -/
def Expansion.ofJson? (j : Json) : Option Expansion :=
  ofJsonWith? (Word.ofJsonAt j.depth) j

/-- A braced expansion, without its tag. -/
def Expansion.parameterOfJson? (j : Json) : Option Expansion :=
  parameterOfJsonWith? (Word.ofJsonAt j.depth) j

/-- A command. -/
def Command.ofJson? (j : Json) : Option Command := do
  match ← fieldsOfJson? ["words"] j with
  | [some (.array words)] => return ⟨← words.mapM Word.ofJson?⟩
  | _ => none

end ShellWord
