import ShellWord.Text.Basic

/-!
# Splitting at field separators

The value of `IFS` names the characters that separate fields.  Space, tab and newline among them are
soft: a run of them separates once, and runs at the ends of the text are ignored.  Every other
separator is hard: together with the soft ones around it, it ends one field, so that two in a row
have an empty field between them; a hard separator at the end adds no empty last field.

## Main definitions

* `Ifs`: the separators, with `isSoft`, `isHard` and `isSeparator`
* `Ifs.Split`: the fields of one text, and whether it began or ended with a separator
* `Ifs.split`: split one text
* `Ifs.words`: the fields alone
-/

namespace ShellWord

/-- The field separators, as the value of `IFS` lists them. -/
structure Ifs where
  chars : Text
  deriving DecidableEq, Repr

namespace Ifs

/-- The separators in force while `IFS` is unset: space, tab and newline. -/
def standard : Ifs := ⟨[' ', '\t', '\n']⟩

/-- Space, tab and newline are soft when they are separators at all. -/
def isIfsBlank (c : Char) : Bool :=
  c == ' ' || c == '\t' || c == '\n'

/-- The character separates fields. -/
def isSeparator (ifs : Ifs) (c : Char) : Bool :=
  ifs.chars.contains c

/-- The character is a soft separator. -/
def isSoft (ifs : Ifs) (c : Char) : Bool :=
  ifs.isSeparator c && isIfsBlank c

/-- The character is a hard separator. -/
def isHard (ifs : Ifs) (c : Char) : Bool :=
  ifs.isSeparator c && !isIfsBlank c

/-- Drop one delimiter: soft separators, at most one hard separator, soft separators. -/
def dropDelimiter (ifs : Ifs) (t : Text) : Text :=
  match t.dropWhile ifs.isSoft with
  | [] => []
  | c :: rest => if ifs.isHard c then rest.dropWhile ifs.isSoft else c :: rest

/-- Dropping a delimiter never lengthens the text. -/
theorem length_dropDelimiter_le (ifs : Ifs) (t : Text) :
    (ifs.dropDelimiter t).length ≤ t.length := by
  have soft := Text.length_dropWhile_le ifs.isSoft t
  unfold dropDelimiter
  split
  · exact Nat.zero_le _
  · next c rest h =>
    rw [h] at soft
    split
    · exact Nat.le_trans (Text.length_dropWhile_le ifs.isSoft rest)
        (Nat.le_trans (Nat.le_succ _) soft)
    · exact soft

/-- A text that begins with a separator gets shorter when a delimiter is dropped. -/
theorem length_dropDelimiter_lt (ifs : Ifs) {c : Char} (t : Text) (h : ifs.isSeparator c = true) :
    (ifs.dropDelimiter (c :: t)).length < (c :: t).length := by
  unfold dropDelimiter
  by_cases blank : isIfsBlank c = true
  · have soft : ifs.isSoft c = true := by simp [isSoft, h, blank]
    rw [List.dropWhile_cons, if_pos soft]
    exact Nat.lt_succ_of_le (ifs.length_dropDelimiter_le t)
  · have notSoft : ¬ ifs.isSoft c = true := by simp [isSoft, blank]
    have hard : ifs.isHard c = true := by simp [isHard, h, blank]
    rw [List.dropWhile_cons, if_neg notSoft]
    simp only [hard, if_true]
    exact Nat.lt_succ_of_le (Text.length_dropWhile_le ifs.isSoft t)

private theorem ifs_separator_of_dropWhile (p : Char → Bool) {t : Text} {c : Char} {rest : Text}
    (h : t.dropWhile (fun d => !p d) = c :: rest) : p c = true := by
  have := List.head?_dropWhile_not (fun d => !p d) t
  rw [h] at this
  simpa using this

/-- What follows the first field and its delimiter is shorter than the text. -/
theorem length_dropDelimiter_dropWhile_lt (ifs : Ifs) {t : Text} {c : Char} {rest : Text}
    (h : t.dropWhile (fun d => !ifs.isSeparator d) = c :: rest) :
    (ifs.dropDelimiter (c :: rest)).length < t.length := by
  have short := Text.length_dropWhile_le (fun d => !ifs.isSeparator d) t
  rw [h] at short
  have separator := ifs_separator_of_dropWhile ifs.isSeparator h
  exact Nat.lt_of_lt_of_le (ifs.length_dropDelimiter_lt rest separator) short

/-- The fields of a text from its first field on, and whether a delimiter ended the last of them. -/
def fields (ifs : Ifs) (t : Text) : List Text × Bool :=
  let field := t.takeWhile fun c => !ifs.isSeparator c
  match atDelimiter : t.dropWhile fun c => !ifs.isSeparator c with
  | [] => ([field], false)
  | c :: rest =>
    have shorter := ifs.length_dropDelimiter_dropWhile_lt atDelimiter
    match ifs.dropDelimiter (c :: rest), shorter with
    | [], _ => ([field], true)
    | d :: next, _ =>
      let (more, trailing) := fields ifs (d :: next)
      (field :: more, trailing)
termination_by t.length
decreasing_by assumption

/-- What splitting one text gives: its fields, whether it began with a soft separator, and whether it
ended with a separator. -/
structure Split where
  words : List Text
  leading : Bool
  trailing : Bool
  deriving DecidableEq, Repr

/-- Split one text.  Without separators the text is one field, or none when it is empty. -/
def split (ifs : Ifs) (t : Text) : Split :=
  if ifs.chars.isEmpty then
    { words := if t.isEmpty then [] else [t], leading := false, trailing := false }
  else
    let leading := (t.takeWhile ifs.isSoft).length > 0
    match t.dropWhile ifs.isSoft with
    | [] => { words := [], leading := leading, trailing := leading }
    | c :: rest =>
      let (words, trailing) := ifs.fields (c :: rest)
      { words := words, leading := leading, trailing := trailing }

/-- The fields of one text.  Without separators the text itself is the only field, even when it is
empty. -/
def words (ifs : Ifs) (t : Text) : List Text :=
  if ifs.chars.isEmpty then [t] else (ifs.split t).words

end Ifs

end ShellWord
