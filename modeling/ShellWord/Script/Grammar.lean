import ShellWord.Script.Lexer

/-!
# Grammar of scripts

Commands are read from tokens.  A reserved word counts only where a command may begin, and only
without quotes.  Lists bind weakest, then `&&` and `||`, which are read from the left, then pipelines.

## Main definitions

* `Script.commands?`: a list of commands at the front of the tokens
* `Script.ofText?`: read a script
-/

namespace ShellWord.Script

/-- The text of a word without quotes and expansions. -/
def Token.plain? : Token → Option Text
  | .word (.mk [.literal text none] none) => some text
  | _ => none

/-- The token is a given word without quotes. -/
def Token.isPlain (text : String) (token : Token) : Bool :=
  token.plain? == some text.toList

/-- The token is a given symbol. -/
def Token.isSymbol (text : String) : Token → Bool
  | .symbol own => own == text.toList
  | _ => false

/-- The tokens after a word that has to come first. -/
def expect? (text : String) : List Token → Option (List Token)
  | token :: rest => if token.isPlain text then some rest else none
  | [] => none

/-- The tokens without the line ends at their front. -/
def skipLines : List Token → List Token
  | .newline :: rest => skipLines rest
  | tokens => tokens

/-- The reserved words that end a list of commands. -/
def closers : List String := ["then", "else", "elif", "fi", "do", "done", "\x7d"]

/-- A list of commands ends in front of the tokens. -/
def atEnd : List Token → Bool
  | [] => true
  | token :: _ => token.isSymbol ")" || closers.any token.isPlain

/-- One command after the other, if there is another. -/
def followedBy (first : Script) : Script → Script
  | .simple [] [] => first
  | others => .seq first others

/-- The assignment that a word is: a name, and the word after the equals sign. -/
def assignment? : Word → Option (Text × Word)
  | .mk (.literal text none :: parts) none =>
    match Text.cutAt? (· == '=') text with
    | some (name, value) =>
      if Text.isName name then
        some (name, .mk (if value.isEmpty then parts else .literal value none :: parts) none)
      else none
    | none => none
  | _ => none

/-- The pieces of a simple command. -/
structure Simple where
  assignments : List (Text × Word) := []
  words : List Word := []
  redirects : List Redirect := []

/-- There is nothing. -/
def Simple.isEmpty (simple : Simple) : Bool :=
  simple.assignments.isEmpty && simple.words.isEmpty && simple.redirects.isEmpty

/-- The command with its redirections. -/
def redirectedBy (body : Script) : List Redirect → Script
  | [] => body
  | redirects => .redirected body redirects

/-- The pieces of a simple command; assignments come before the first word. -/
def simplePieces (named : Bool) : List Token → Simple × List Token
  | .redirect descriptor kind :: .word target :: rest =>
    let (pieces, rest) := simplePieces named rest
    ({ pieces with redirects := ⟨descriptor, kind, target⟩ :: pieces.redirects }, rest)
  | .word word :: rest =>
    match if named then none else assignment? word with
    | some assignment =>
      let (pieces, rest) := simplePieces named rest
      ({ pieces with assignments := assignment :: pieces.assignments }, rest)
    | none =>
      let (pieces, rest) := simplePieces true rest
      ({ pieces with words := word :: pieces.words }, rest)
  | tokens => ({}, tokens)

/-- The redirections after a compound command. -/
def redirects : List Token → List Redirect × List Token
  | .redirect descriptor kind :: .word target :: rest =>
    let (others, rest) := redirects rest
    (⟨descriptor, kind, target⟩ :: others, rest)
  | tokens => ([], tokens)

/-- The words of a `for` command. -/
def wordList : List Token → List Word × List Token
  | .word word :: rest =>
    let (words, rest) := wordList rest
    (word :: words, rest)
  | tokens => ([], tokens)

/-- The `do` of a loop, possibly after a separator. -/
def expectDo? (tokens : List Token) : Option (List Token) :=
  match tokens with
  | token :: rest =>
    if token.isSymbol ";" then expect? "do" (skipLines rest) else expect? "do" (skipLines tokens)
  | [] => none

mutual

/-- A list of commands.  The number bounds the depth of the reading. -/
def commands? : Nat → List Token → Option (Script × List Token)
  | 0, _ => none
  | n + 1, tokens =>
    let tokens := skipLines tokens
    if atEnd tokens then some (.nothing, tokens)
    else do
      let (first, rest) ← andOr? n tokens
      match rest with
      | .newline :: rest =>
        let (others, rest) ← commands? n rest
        return (first.followedBy others, rest)
      | token :: rest =>
        if token.isSymbol ";" || token.isSymbol "&" then
          let (others, rest) ← commands? n rest
          return (first.followedBy others, rest)
        else return (first, token :: rest)
      | [] => return (first, [])

/-- Pipelines joined by `&&` and `||`. -/
def andOr? : Nat → List Token → Option (Script × List Token)
  | 0, _ => none
  | n + 1, tokens => do
    let (first, rest) ← pipeline? n tokens
    andOrAfter? n first rest

/-- What follows a command that may be joined to others. -/
def andOrAfter? : Nat → Script → List Token → Option (Script × List Token)
  | 0, _, _ => none
  | n + 1, left, tokens =>
    match tokens with
    | token :: rest =>
      if token.isSymbol "&&" then do
        let (right, rest) ← pipeline? n (skipLines rest)
        andOrAfter? n (.both left right) rest
      else if token.isSymbol "||" then do
        let (right, rest) ← pipeline? n (skipLines rest)
        andOrAfter? n (.unless left right) rest
      else some (left, token :: rest)
    | [] => some (left, [])

/-- Commands joined by `|`, possibly negated. -/
def pipeline? : Nat → List Token → Option (Script × List Token)
  | 0, _ => none
  | n + 1, tokens =>
    match expect? "!" tokens with
    | some rest => (pipeline? n rest).map fun (body, rest) => (.negated body, rest)
    | none => do
      let (first, rest) ← command? n tokens
      match rest with
      | token :: rest =>
        if token.isSymbol "|" then
          let (others, rest) ← pipeline? n (skipLines rest)
          return (.pipe first others, rest)
        else return (first, token :: rest)
      | [] => return (first, [])

/-- One command. -/
def command? : Nat → List Token → Option (Script × List Token)
  | 0, _ => none
  | _ + 1, [] => none
  | n + 1, token :: rest =>
    if token.isSymbol "(" then do
      let (body, rest) ← commands? n rest
      match rest with
      | token :: rest =>
        if token.isSymbol ")" then
          let (changes, rest) := redirects rest
          return (redirectedBy (.subshell body) changes, rest)
        else none
      | [] => none
    else
      match token.plain?.map String.ofList with
      | some "\x7b" => do
        let (body, rest) ← commands? n rest
        let (changes, rest) := redirects (← expect? "\x7d" rest)
        return (redirectedBy body changes, rest)
      | some "if" => do
        let (body, rest) ← conditional? n rest
        let (changes, rest) := redirects rest
        return (redirectedBy body changes, rest)
      | some "while" => do
        let (body, rest) ← loop? n false rest
        let (changes, rest) := redirects rest
        return (redirectedBy body changes, rest)
      | some "until" => do
        let (body, rest) ← loop? n true rest
        let (changes, rest) := redirects rest
        return (redirectedBy body changes, rest)
      | some "for" => do
        let (body, rest) ← each? n rest
        let (changes, rest) := redirects rest
        return (redirectedBy body changes, rest)
      | _ =>
        if closers.any token.isPlain then none
        else
          let (pieces, rest) := simplePieces false (token :: rest)
          if pieces.isEmpty then none
          else some (redirectedBy (.simple pieces.assignments pieces.words) pieces.redirects, rest)

/-- What follows `if` or `elif`. -/
def conditional? : Nat → List Token → Option (Script × List Token)
  | 0, _ => none
  | n + 1, tokens => do
    let (condition, rest) ← commands? n tokens
    let (yes, rest) ← commands? n (← expect? "then" rest)
    match expect? "elif" rest with
    | some rest =>
      let (no, rest) ← conditional? n rest
      return (.choose condition yes no, rest)
    | none =>
      match expect? "else" rest with
      | some rest =>
        let (no, rest) ← commands? n rest
        return (.choose condition yes no, ← expect? "fi" rest)
      | none => return (.choose condition yes .nothing, ← expect? "fi" rest)

/-- What follows `while` or `until`. -/
def loop? : Nat → Bool → List Token → Option (Script × List Token)
  | 0, _, _ => none
  | n + 1, awaited, tokens => do
    let (condition, rest) ← commands? n tokens
    let (body, rest) ← commands? n (← expect? "do" rest)
    return (.loop awaited condition body, ← expect? "done" rest)

/-- What follows `for`. -/
def each? : Nat → List Token → Option (Script × List Token)
  | 0, _ => none
  | n + 1, tokens => do
    match tokens with
    | token :: rest =>
      let name ← token.plain?
      let (words, rest) := match expect? "in" (skipLines rest) with
        | some rest => let (words, rest) := wordList rest; (some words, rest)
        | none => (none, rest)
      let (body, rest) ← commands? n (← expectDo? rest)
      return (.each name words body, ← expect? "done" rest)
    | [] => none

end

/-- Read a script. -/
def ofText? (t : Text) : Option Script := do
  let tokens ← tokens? t
  match ← commands? (8 * tokens.length + 8) tokens with
  | (script, []) => return script
  | _ => none

end ShellWord.Script
