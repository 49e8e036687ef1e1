import ShellWord.Pattern.Escape

/-!
# Escapes in literal text

A backslash in the literal text of a word is removed or kept by rules that depend on the quotes.
Unquoted text becomes a pattern as well: what was escaped is literal in it, what was not is active.

## Main definitions

* `Literal`: a text together with the pattern it contributes
* `Literal.ofUnquoted`: the rules outside quotes
* `unescapeDoubleQuoted`: the rules between double quotes
* `unescapeBackticks`: the rules between backticks
-/

namespace ShellWord

/-- A text as it appears in an argument, and the same text as a pattern. -/
@[ext] structure Literal where
  text : Text
  pattern : Text
  deriving DecidableEq, Repr

namespace Literal

/-- The empty literal. -/
def empty : Literal := ⟨[], []⟩

/-- One literal after the other. -/
def append (a b : Literal) : Literal :=
  ⟨a.text ++ b.text, a.pattern ++ b.pattern⟩

instance : Append Literal := ⟨append⟩

@[simp] theorem text_append (a b : Literal) : (a ++ b).text = a.text ++ b.text := rfl

@[simp] theorem pattern_append (a b : Literal) : (a ++ b).pattern = a.pattern ++ b.pattern := rfl

theorem append_assoc (a b c : Literal) : a ++ b ++ c = a ++ (b ++ c) :=
  Literal.ext (List.append_assoc _ _ _) (List.append_assoc _ _ _)

@[simp] theorem append_empty (a : Literal) : a ++ empty = a :=
  Literal.ext (List.append_nil _) (List.append_nil _)

@[simp] theorem empty_append (a : Literal) : empty ++ a = a := rfl

/-- Quoted text is literal in patterns. -/
def quoted (text : Text) : Literal :=
  ⟨text, Pattern.escape text⟩

/-- Unquoted text whose characters are all active in patterns. -/
def active (text : Text) : Literal :=
  ⟨text, text⟩

/-- The characters that a backslash outside quotes escapes. -/
def isEscapable (c : Char) : Bool :=
  c == '$' || c == '\\' || c == '\x60' || c == '\x22' || c == '\x27' || c == '~' || c == ' ' ||
    c == '*' || c == '?' || c == '['

/-- Remove the backslashes of unquoted text.  Before an escapable character the backslash goes and
the character is literal; a backslash and the newline after it both go; any other backslash stands
for itself. -/
def ofUnquoted : Text → Literal
  | [] => empty
  | '\\' :: '\n' :: t => ofUnquoted t
  | '\\' :: c :: t =>
    if isEscapable c then ⟨[c], Pattern.escapeChar c⟩ ++ ofUnquoted t
    else ⟨['\\'], ['\\', '\\']⟩ ++ ofUnquoted (c :: t)
  | ['\\'] => ⟨['\\'], ['\\', '\\']⟩
  | c :: t => ⟨[c], [c]⟩ ++ ofUnquoted t

end Literal

/-- Remove the backslashes between double quotes: those before `$`, a backslash, a double quote or a
backtick, and those that continue a line. -/
def unescapeDoubleQuoted : Text → Text
  | [] => []
  | '\\' :: '\n' :: t => unescapeDoubleQuoted t
  | '\\' :: c :: t =>
    if c == '$' || c == '\\' || c == '\x22' || c == '\x60' then c :: unescapeDoubleQuoted t
    else '\\' :: unescapeDoubleQuoted (c :: t)
  | c :: t => c :: unescapeDoubleQuoted t

/-- Remove the backslashes that quoting between backticks adds: those before `$`, a backtick or a
backslash. -/
def unescapeBackticks : Text → Text
  | [] => []
  | '\\' :: c :: t =>
    if c == '$' || c == '\x60' || c == '\\' then c :: unescapeBackticks t
    else '\\' :: unescapeBackticks (c :: t)
  | c :: t => c :: unescapeBackticks t

end ShellWord
