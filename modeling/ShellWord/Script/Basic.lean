import ShellWord.Word.Basic

/-!
# Scripts

A small command language: enough of the shell's own to run the commands of substitutions where no
other shell is at hand.  Its words are the words of this library, and they are expanded by it.

## Main definitions

* `Script.Redirect`: a redirection of input or output
* `Script`: the commands
-/

namespace ShellWord

/-- What a redirection does with a descriptor. -/
inductive Script.RedirectKind where
  /-- `<` -/
  | read
  /-- `>` -/
  | write
  /-- `>>` -/
  | append
  /-- `>&` and `<&` -/
  | duplicate
  deriving DecidableEq, Repr

/-- A redirection of a descriptor to what a word names. -/
structure Script.Redirect where
  descriptor : Nat
  kind : Script.RedirectKind
  target : Word

/-- A command. -/
inductive Script where
  /-- assignments, and a command with its arguments -/
  | simple (assignments : List (Text × Word)) (words : List Word)
  /-- a command with redirections -/
  | redirected (body : Script) (redirects : List Script.Redirect)
  /-- `left | right` -/
  | pipe (left right : Script)
  /-- `! body` -/
  | negated (body : Script)
  /-- `left && right` -/
  | both (left right : Script)
  /-- `left || right` -/
  | unless (left right : Script)
  /-- `left; right` -/
  | seq (left right : Script)
  /-- `(body)` -/
  | subshell (body : Script)
  /-- `if condition; then yes; else no; fi` -/
  | choose (condition yes no : Script)
  /-- `while condition; do body; done`, or the same with `until` -/
  | loop (awaited : Bool) (condition body : Script)
  /-- `for name in words; do body; done`; over the positional parameters when words are missing -/
  | each (name : Text) (words : Option (List Word)) (body : Script)

/-- The command that does nothing. -/
def Script.nothing : Script :=
  .simple [] []

end ShellWord
