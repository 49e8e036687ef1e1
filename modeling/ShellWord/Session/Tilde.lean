import ShellWord.Session.Lookup

/-!
# Tilde prefixes

A leading `~` and the text after it, up to the first slash, stand for a directory: the home directory,
the home directory of a user, the working directory (`~+`) or the one before it (`~-`).  A prefix that
cannot be resolved stays as it is.

## Main definitions

* `Session.tildeDirectory?`: the directory that a prefix stands for
* `Session.expandTilde`: expand the prefix of a text
* `Session.tildePrefix?`: the prefix of the first literal of a word
-/

namespace ShellWord

/-- The characters of login names. -/
def isLoginChar (c : Char) : Bool :=
  Text.isLetter c || Text.isDigit c || c == '_' || c == '-' || c == '.'

namespace Session

variable {World : Type}

/-- The directory that the text after a tilde stands for. -/
def tildeDirectory? (host : Host World) (s : Session World) (name : Text) : Option Text :=
  let vars := s.shell.vars
  match name with
  | [] => (vars.get? "HOME".toList).or (host.home s.world none)
  | ['+'] => vars.get? "PWD".toList
  | ['-'] => vars.get? "OLDPWD".toList
  | name => if name.all isLoginChar then host.home s.world (some name) else none

/-- Expand the tilde prefix of a text. -/
def expandTilde (host : Host World) (s : Session World) (t : Text) : Text :=
  match t with
  | '~' :: rest =>
    match s.tildeDirectory? host (rest.takeWhile (· != '/')) with
    | some dir => dir ++ rest.dropWhile (· != '/')
    | none => t
  | _ => t

/-- The directory that the tilde prefix of the first literal of a word stands for, and the rest of the
literal.  If the word goes on after the literal, the prefix has to end within it. -/
def tildePrefix? (host : Host World) (s : Session World) (t : Text) (continues : Bool) :
    Option (Text × Text) :=
  match t with
  | '~' :: rest =>
    if continues && !rest.contains '/' then none
    else
      (s.tildeDirectory? host (rest.takeWhile (· != '/'))).map fun dir =>
        (dir, rest.dropWhile (· != '/'))
  | _ => none

end Session

end ShellWord
