import ShellWord.Arith.Numeral
import ShellWord.Regex.Basic
import ShellWord.Regex.Engine

/-!
# Reading regular expressions

An expression is written with characters, escaped characters, `.`, the anchors `^` and `$`, classes
`[…]`, groups `(?:…)`, the repetitions `*`, `+` and `?`, and bars between alternatives.  It begins with
the flag `(?s)`, which lets the dot stand for every character.

Within a class a hyphen between two members makes a range.  Some classes are refused: those with a
class inside, with a range whose ends are in the wrong order, or with one of the doubled marks `&&`,
`~~` and `--`, which are reserved.

## Main definitions

* `Regex.escape?`: what an escape stands for
* `Regex.class?`: the set that a class lists
* `Regex.read?`: the expression that a text denotes
* `Regex.engine`: expressions of limited depth, with the matching of `Regex.finds`
-/

namespace ShellWord.Regex

/-! ### Characters -/

/-- The characters that stand for themselves after a backslash. -/
def isEscapable (c : Char) : Bool :=
  ['\\', '.', '+', '*', '?', '(', ')', '|', '[', ']', '\x7b', '\x7d', '^', '$', '#', '&', '-', '~'].contains c

/-- The characters that a letter after a backslash stands for. -/
def controls : List (Char × Char) :=
  [('a', '\x07'), ('f', '\x0c'), ('t', '\t'), ('n', '\n'), ('r', '\r'), ('v', '\x0b')]

/-- The character that an escape stands for, given the text after the backslash, and what follows it. -/
def escape? : Text → Option (Char × Text)
  | [] => none
  | 'x' :: a :: b :: t => (Numeral.natural? 16 [a, b]).map fun n => (Char.ofNat n, t)
  | c :: t => if isEscapable c then some (c, t) else (controls.lookup c).map (·, t)

/-! ### Classes -/

/-- A member of a class, or an end of a range. -/
def member? : Text → Option (Char × Text)
  | [] => none
  | '\\' :: t => escape? t
  | c :: t => some (c, t)

/-- A text that begins with a doubled mark, which is reserved in classes. -/
def isDoubled : Text → Bool
  | c :: d :: _ => c == d && (c == '&' || c == '~' || c == '-')
  | _ => false

/-- The text after the hyphen of a range.  A hyphen in front of the closing bracket or of another
hyphen makes no range. -/
def rangeEnd? : Text → Option Text
  | '-' :: d :: t => if d == ']' || d == '-' then none else some (d :: t)
  | _ => none

/-- The ranges that the members of a class list, up to its closing bracket, and what follows it.  The
number bounds how many members there are. -/
def members : (bound : Nat) → Text → Option (List (Char × Char) × Text)
  | 0, _ => none
  | _ + 1, ']' :: t => some ([], t)
  | _ + 1, '[' :: _ => none
  | bound + 1, t =>
    if isDoubled t then none
    else
      match member? t with
      | none => none
      | some (low, rest) =>
        match rangeEnd? rest with
        | none => Text.extend (low, low) (members bound rest)
        | some rest =>
          match member? rest with
          | none => none
          | some (high, rest) =>
            if low ≤ high then Text.extend (low, high) (members bound rest) else none

/-- Characters that a class begins with and that are members there whatever they are elsewhere: any
hyphens, or else a closing bracket. -/
def leading (t : Text) : Text × Text :=
  match t with
  | ']' :: rest => ([']'], rest)
  | t => (t.takeWhile (· == '-'), t.dropWhile (· == '-'))

/-- The set that the members of a class list, and what follows the class. -/
def listed (negated : Bool) (t : Text) : Option (CharSet × Text) :=
  (members ((leading t).2.length + 1) (leading t).2).map fun (ranges, rest) =>
    (⟨negated, (leading t).1.map (fun c => (c, c)) ++ ranges⟩, rest)

/-- The set of a class, given the text after its opening bracket, and what follows the class. -/
def class? : Text → Option (CharSet × Text)
  | '^' :: t => listed true t
  | t => listed false t

/-! ### Expressions -/

/-- What reads an expression off the front of a text. -/
abbrev Reader := Text → Option (Regex × Text)

/-- The characters that do not stand for themselves. -/
def isReserved (c : Char) : Bool :=
  ['\\', '(', ')', '[', '\x7b', '|', '*', '+', '?'].contains c

/-- An expression that is not made of others, or a group, where `inner` reads what is between
parentheses. -/
def atom (inner : Reader) : Reader
  | [] => none
  | '(' :: '?' :: ':' :: t =>
    match inner t with
    | some (r, ')' :: rest) => some (.group r, rest)
    | _ => none
  | '[' :: t => (class? t).map fun (set, rest) => (.one set, rest)
  | '\\' :: t => (escape? t).map fun (c, rest) => (.one (.single c), rest)
  | '.' :: t => some (.one .all, t)
  | '^' :: t => some (.start, t)
  | '$' :: t => some (.finish, t)
  | c :: t => if isReserved c then none else some (.one (.single c), t)

/-- The repetition that a character denotes. -/
def repetition? (c : Char) : Option Repetition :=
  if c == '*' then some .anyNumber
  else if c == '+' then some .atLeastOnce
  else if c == '?' then some .atMostOnce
  else none

/-- An expression with the repetition that follows it. -/
def withRepetition (r : Regex) : Text → Regex × Text
  | [] => (r, [])
  | c :: t =>
    match repetition? c with
    | some count => (.repeated count r, t)
    | none => (r, c :: t)

/-- An atom with its repetition. -/
def factor (inner : Reader) : Reader := fun t =>
  (atom inner t).map fun (r, rest) => withRepetition r rest

/-- Here a sequence ends: at the end of the text, in front of a bar or of a closing parenthesis. -/
def isBranchEnd : Text → Bool
  | [] => true
  | c :: _ => c == '|' || c == ')'

/-- One after the other, where nothing may follow. -/
def followedBy (first : Regex) : Regex → Regex
  | .empty => first
  | others => .seq first others

/-- A sequence of at most so many factors. -/
def branch (inner : Reader) : (bound : Nat) → Reader
  | 0, _ => none
  | bound + 1, t =>
    if isBranchEnd t then some (.empty, t)
    else
      match factor inner t with
      | none => none
      | some (first, rest) => (branch inner bound rest).map fun (others, rest) => (followedBy first others, rest)

/-- At most so many alternatives. -/
def whole (inner : Reader) : (bound : Nat) → Reader
  | 0, _ => none
  | bound + 1, t =>
    match branch inner (t.length + 1) t with
    | some (first, '|' :: rest) => (whole inner bound rest).map fun (others, rest) => (.either first others, rest)
    | found => found

/-- Expressions whose groups are nested less deep than `depth`. -/
def wholeAt : (depth : Nat) → Reader
  | 0 => fun _ => none
  | depth + 1 => fun t => whole (wholeAt depth) (t.length + 1) t

/-- The expression that a whole text denotes. -/
def read? (t : Text) : Option Regex :=
  match wholeAt (t.length + 1) t with
  | some (r, []) => some r
  | _ => none

/-! ### Limits -/

/-- How deep groups are nested. -/
def nesting : Regex → Nat
  | .group inner => inner.nesting + 1
  | .seq first second => max first.nesting second.nesting
  | .either first second => max first.nesting second.nesting
  | .repeated _ inner => inner.nesting
  | _ => 0

/-- The height of the tree of an expression, in which a sequence, and likewise a choice, is one node
however many parts it has, and a group is none. -/
def height : Regex → Nat
  | .group inner => inner.height
  | .seq first second =>
    max (first.height + 1) (match second with | .seq _ _ => second.height | _ => second.height + 1)
  | .either first second =>
    max (first.height + 1) (match second with | .either _ _ => second.height | _ => second.height + 1)
  | .repeated _ inner => inner.height + 1
  | _ => 0

/-- How deep an expression may be. -/
def nestLimit : Nat := 50

/-- The expression is not too deep. -/
def isShallow (r : Regex) : Bool :=
  r.nesting ≤ nestLimit && r.height ≤ nestLimit

/-- The flag that lets the dot stand for every character. -/
def dotFlag : Text := "(?s)".toList

/-- The engine of these expressions. -/
def engine : Engine := fun text => do
  let body ← Text.after? dotFlag text
  let r ← read? body
  if r.isShallow then some r.finds else none

end ShellWord.Regex
