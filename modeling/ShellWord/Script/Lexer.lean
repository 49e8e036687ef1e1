import ShellWord.Arith.Paren
import ShellWord.Script.Basic
import ShellWord.Word.Form

/-!
# Tokens of scripts

A script is cut into words and operators.  A word is read into its parts: literal text, quoted text and
expansions.

## Main definitions

* `Script.wordParts`: the parts at the front of a text
* `Script.Token`: a word or an operator
* `Script.tokens?`: the tokens of a script
-/

namespace ShellWord.Script

/-- The characters that end a word outside quotes. -/
def isDelimiter (c : Char) : Bool :=
  c == ' ' || c == '\t' || c == '\n' || c == ';' || c == '&' || c == '|' || c == '<' || c == '>' ||
    c == '(' || c == ')'

/-- Where the parts of a word end: at a delimiter, at a double quote, or at a closing brace. -/
inductive Stop where
  | delimiter
  | doubleQuote
  | brace
  deriving DecidableEq, Repr

/-- The parts end at a character. -/
def Stop.at (stop : Stop) (c : Char) : Bool :=
  match stop with
  | .delimiter => isDelimiter c
  | .doubleQuote => c == '\x22'
  | .brace => c == '\x7d'

/-- The quotes that parts have where they end at `stop`. -/
def Stop.quote : Stop → Option Quote
  | .doubleQuote => some .double
  | _ => none

/-- Literal text in front of other parts; it joins literal text in the same quotes. -/
def consLiteral (text : Text) (quote : Option Quote) : List Part → List Part
  | .literal next own :: parts =>
    if own == quote then .literal (text ++ next) own :: parts
    else .literal text quote :: .literal next own :: parts
  | parts => .literal text quote :: parts

/-- The text between backticks, and what follows them. -/
def backticks : Text → Option (Text × Text)
  | [] => none
  | '\\' :: c :: t => (backticks t).map fun (body, rest) => ('\\' :: c :: body, rest)
  | c :: t =>
    if c == '\x60' then some ([], t)
    else (backticks t).map fun (body, rest) => (c :: body, rest)

/-- The operator of a braced expansion that takes a word, and the text after it. -/
def operator? : Text → Option (Operator × Text)
  | ':' :: '-' :: t => some (.useDefault true, t)
  | '-' :: t => some (.useDefault false, t)
  | ':' :: '=' :: t => some (.assignDefault true, t)
  | '=' :: t => some (.assignDefault false, t)
  | ':' :: '?' :: t => some (.errorIfUnset true, t)
  | '?' :: t => some (.errorIfUnset false, t)
  | ':' :: '+' :: t => some (.useAlternative true, t)
  | '+' :: t => some (.useAlternative false, t)
  | '#' :: '#' :: t => some (.trimFront true, t)
  | '#' :: t => some (.trimFront false, t)
  | '%' :: '%' :: t => some (.trimBack true, t)
  | '%' :: t => some (.trimBack false, t)
  | _ => none

/-- The special parameters of one character. -/
def isSpecialChar (c : Char) : Bool :=
  Text.isDigit c || c == '@' || c == '*' || c == '#' || c == '?' || c == '$' || c == '!' || c == '-'

/-- The name of a parameter at the front of a text: an identifier, digits or one special character. -/
def parameterName? : Text → Option (Text × Text)
  | [] => none
  | c :: t =>
    if Text.isNameStart c then
      some (c :: t.takeWhile Text.isNameChar, t.dropWhile Text.isNameChar)
    else if Text.isDigit c then
      some (c :: t.takeWhile Text.isDigit, t.dropWhile Text.isDigit)
    else if isSpecialChar c then some ([c], t)
    else none

mutual

/-- The parts of a word up to its end, which is not read.  Every step takes a character, so the length
of the text bounds their number. -/
def wordParts (stop : Stop) : Nat → Text → Option (List Part × Text)
  | 0, _ => none
  | _ + 1, [] => if stop == .delimiter then some ([], []) else none
  | n + 1, c :: t =>
    if stop.at c then some ([], c :: t)
    else if c == '$' then do
      let (part, rest) ← dollar stop.quote n t
      let (parts, rest) ← wordParts stop n rest
      return (part :: parts, rest)
    else if c == '\x60' then do
      let (body, rest) ← backticks t
      let (parts, rest) ← wordParts stop n rest
      return (.expansion (.command body true) stop.quote :: parts, rest)
    else if c == '\\' then
      match t with
      | [] => some ([.literal ['\\'] stop.quote], [])
      | d :: t => do
        let (parts, rest) ← wordParts stop n t
        if stop == .doubleQuote then
          return (consLiteral ['\\', d] stop.quote parts, rest)
        else if d == '\n' then
          return (parts, rest)
        else
          return (consLiteral [d] (some .single) parts, rest)
    else if c == '\x27' && stop != .doubleQuote then
      match Text.cutAt? (· == '\x27') t with
      | some (text, rest) => do
        let (parts, rest) ← wordParts stop n rest
        return (.literal text (some .single) :: parts, rest)
      | none => none
    else if c == '\x22' then do
      let (inner, rest) ← wordParts .doubleQuote n t
      let (parts, rest) ← wordParts stop n (rest.drop 1)
      return ((if inner.isEmpty then [.literal [] (some .double)] else inner) ++ parts, rest)
    else do
      let (parts, rest) ← wordParts stop n t
      return (consLiteral [c] stop.quote parts, rest)

/-- What follows a dollar sign: an expansion, or nothing special. -/
def dollar (quote : Option Quote) : Nat → Text → Option (Part × Text)
  | 0, _ => none
  | n + 1, t =>
    match t with
    | '(' :: _ =>
      match Paren.closePair? t with
      | some (body, rest) => some (.expansion (.arithmetic body) quote, rest)
      | none =>
        match Paren.close? t with
        | some (body, rest) => some (.expansion (.command body false) quote, rest)
        | none => none
    | c :: inner =>
      if c == '\x7b' then
        match inner with
        | '#' :: d :: rest =>
          if d == '\x7d' then some (.expansion (.variable ['#']) quote, rest)
          else do
            let (name, rest) ← parameterName? (d :: rest)
            let rest ← Text.after? ['\x7d'] rest
            return (.expansion (.parameter name (some .length) none) quote, rest)
        | inner => do
          let (name, rest) ← parameterName? inner
          match Text.after? ['\x7d'] rest with
          | some rest => return (.expansion (.parameter name none none) quote, rest)
          | none =>
            let (operator, rest) ← operator? rest
            let (parts, rest) ← wordParts .brace n rest
            let rest ← Text.after? ['\x7d'] rest
            return (.expansion (.parameter name (some operator) (some (.mk parts none))) quote, rest)
      else if Text.isNameStart c then
        some (.expansion (.variable (c :: inner.takeWhile Text.isNameChar)) quote,
          inner.dropWhile Text.isNameChar)
      else if isSpecialChar c then some (.expansion (.variable [c]) quote, inner)
      else some (.literal ['$'] quote, c :: inner)
    | [] => some (.literal ['$'] quote, [])

end

/-- A token of a script. -/
inductive Token where
  | word (word : Word)
  /-- the end of a line -/
  | newline
  /-- `;`, `&`, `&&`, `||`, `|`, `(` or `)` -/
  | symbol (text : Text)
  /-- a redirection, with its descriptor -/
  | redirect (descriptor : Nat) (kind : RedirectKind)

/-- The redirection at the front of a text. -/
def redirection? : Text → Option (Nat × RedirectKind × Text)
  | '<' :: '&' :: t => some (0, .duplicate, t)
  | '<' :: t => some (0, .read, t)
  | '>' :: '>' :: t => some (1, .append, t)
  | '>' :: '&' :: t => some (1, .duplicate, t)
  | '>' :: '|' :: t => some (1, .write, t)
  | '>' :: t => some (1, .write, t)
  | _ => none

/-- A redirection, possibly with a digit for its descriptor in front. -/
def numbered? : Text → Option (Nat × RedirectKind × Text)
  | c :: t =>
    if Text.isDigit c then
      (redirection? t).map fun (_, kind, rest) => (c.toNat - 0x30, kind, rest)
    else redirection? (c :: t)
  | [] => none

/-- The tokens of a script; there are at most as many as characters. -/
def tokensAt : Nat → Text → Option (List Token)
  | 0, _ => none
  | _ + 1, [] => some []
  | n + 1, c :: t =>
    if c == ' ' || c == '\t' then tokensAt n t
    else if c == '#' then tokensAt n (t.dropWhile (· != '\n'))
    else
      match numbered? (c :: t) with
      | some (descriptor, kind, rest) => (tokensAt n rest).map (.redirect descriptor kind :: ·)
      | none =>
        if c == '&' && t.head? == some '&' then
          (tokensAt n (t.drop 1)).map (.symbol ['&', '&'] :: ·)
        else if c == '|' && t.head? == some '|' then
          (tokensAt n (t.drop 1)).map (.symbol ['|', '|'] :: ·)
        else if c == '\n' then (tokensAt n t).map (.newline :: ·)
        else if c == ';' || c == '&' || c == '|' || c == '(' || c == ')' then
          (tokensAt n t).map (.symbol [c] :: ·)
        else do
          let (parts, rest) ← wordParts .delimiter (2 * t.length + 4) (c :: t)
          let tokens ← tokensAt n rest
          return if parts.isEmpty then tokens else .word (.mk parts none) :: tokens

/-- The tokens of a script. -/
def tokens? (t : Text) : Option (List Token) :=
  tokensAt (t.length + 1) t

end ShellWord.Script
