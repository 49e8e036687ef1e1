/-!
# Texts

Everything the shell handles is text: literal words, values of variables, patterns, names of files.
A text is a list of characters, so that scanning is recursion on the list, and cutting a text in two
is an equation `t = a ++ b`.  Characters are Unicode scalar values; where an offset is asked in
bytes, it is the offset in the UTF-8 form (`Text.utf8Size`).

## Main definitions

* `Text`: a list of characters
* `Text.isNameStart`, `Text.isNameChar`, `Text.isName`: the identifiers `[A-Za-z_][A-Za-z0-9_]*`
* `Text.ofNat`, `Text.ofInt`: decimal numerals
* `Text.splitAtByte?`: cut a text at a byte offset of its UTF-8 form
* `Text.extend`: a step of a scan that gives what it passed and what follows
-/

namespace ShellWord

/-- A text is a finite sequence of characters. -/
abbrev Text := List Char

namespace Text

/-! ### Character classes of the portable character set -/

/-- The letters `A-Z` and `a-z`. -/
def isLetter (c : Char) : Bool :=
  ('a' ≤ c && c ≤ 'z') || ('A' ≤ c && c ≤ 'Z')

/-- The digits `0-9`. -/
def isDigit (c : Char) : Bool :=
  '0' ≤ c && c ≤ '9'

/-- The characters that may begin a variable name. -/
def isNameStart (c : Char) : Bool :=
  isLetter c || c == '_'

/-- The characters that may continue a variable name. -/
def isNameChar (c : Char) : Bool :=
  isLetter c || isDigit c || c == '_'

/-- A variable name is a letter or underscore followed by letters, digits and underscores. -/
def isName : Text → Bool
  | [] => false
  | c :: rest => isNameStart c && rest.all isNameChar

@[simp] theorem isName_nil : isName [] = false := rfl

theorem isName_cons (c : Char) (rest : Text) :
    isName (c :: rest) = (isNameStart c && rest.all isNameChar) := rfl

/-- The texts that are a non-empty run of digits. -/
def isDigits (t : Text) : Bool :=
  !t.isEmpty && t.all isDigit

/-! ### Decimal numerals -/

/-- The decimal numeral of a natural number. -/
def ofNat (n : Nat) : Text :=
  Nat.toDigits 10 n

/-- The decimal numeral of an integer, with a minus sign in front of a negative one. -/
def ofInt : Int → Text
  | .ofNat n => ofNat n
  | .negSucc n => '-' :: ofNat (n + 1)

/-! ### Offsets in bytes -/

/-- The number of bytes of the UTF-8 form. -/
def utf8Size (t : Text) : Nat :=
  t.foldr (fun c n => c.utf8Size + n) 0

@[simp] theorem utf8Size_nil : utf8Size [] = 0 := rfl

@[simp] theorem utf8Size_cons (c : Char) (t : Text) :
    utf8Size (c :: t) = c.utf8Size + utf8Size t := rfl

/-- Cut a text at a byte offset of its UTF-8 form.  There is no such cut inside a character or
beyond the end. -/
def splitAtByte? : Nat → Text → Option (Text × Text)
  | 0, t => some ([], t)
  | _ + 1, [] => none
  | n + 1, c :: t =>
    if c.utf8Size ≤ n + 1 then
      (splitAtByte? (n + 1 - c.utf8Size) t).map fun (a, b) => (c :: a, b)
    else
      none

/-! ### Cutting at characters -/

/-- Cut at the first character that satisfies `p`: what stands before it and what stands after it. -/
def cutAt? (p : Char → Bool) : Text → Option (Text × Text)
  | [] => none
  | c :: t =>
    if p c then some ([], t)
    else (cutAt? p t).map fun (a, b) => (c :: a, b)

@[simp] theorem cutAt?_nil (p : Char → Bool) : cutAt? p [] = none := rfl

/-- One more element in front of what was found before a rest. -/
def extend {α : Type} (a : α) : Option (List α × Text) → Option (List α × Text)
  | none => none
  | some (found, rest) => some (a :: found, rest)

/-- What comes of an extension: the rest is kept, and the element stands in front. -/
theorem extend_eq_some_iff {α : Type} {a : α} {found : Option (List α × Text)} {taken : List α}
    {rest : Text} :
    extend a found = some (taken, rest) ↔ ∃ inner, found = some (inner, rest) ∧ taken = a :: inner := by
  cases found with
  | none => simp [extend]
  | some pair =>
    obtain ⟨inner, after⟩ := pair
    simp only [extend, Option.some.injEq, Prod.mk.injEq]
    constructor
    · rintro ⟨rfl, rfl⟩
      exact ⟨inner, ⟨rfl, rfl⟩, rfl⟩
    · rintro ⟨_, ⟨rfl, rfl⟩, rfl⟩
      exact ⟨rfl, rfl⟩

/-- Extending does not touch the rest. -/
theorem exists_of_extend {α : Type} {a : α} {found : Option (List α × Text)} {taken : List α}
    {rest : Text} (h : extend a found = some (taken, rest)) : ∃ inner, found = some (inner, rest) := by
  obtain ⟨inner, same, _⟩ := extend_eq_some_iff.1 h
  exact ⟨inner, same⟩

/-- The pieces between the characters that satisfy `p`; one more piece than such characters. -/
def splitAt (p : Char → Bool) : Text → List Text
  | [] => [[]]
  | c :: t =>
    if p c then [] :: splitAt p t
    else
      match splitAt p t with
      | [] => [[c]]
      | piece :: pieces => (c :: piece) :: pieces

/-- What follows `front` in a text that begins with it. -/
def after? : (front : Text) → Text → Option Text
  | [], t => some t
  | c :: front, d :: t => if c == d then after? front t else none
  | _ :: _, [] => none

@[simp] theorem after?_nil (t : Text) : after? [] t = some t := by
  cases t <;> rfl

/-- The last case of a scan that takes a mark together with the character behind it: here is no mark. -/
theorem ne_of_single_of_pair {c mark : Char} {t : Text} (single : c = mark → t = [] → False)
    (pair : ∀ d rest, c = mark → t = d :: rest → False) : c ≠ mark := by
  intro same
  cases t with
  | nil => exact single same rfl
  | cons d rest => exact pair d rest same rfl

/-- Dropping characters from the front never lengthens a text. -/
theorem length_dropWhile_le (p : Char → Bool) (t : Text) : (t.dropWhile p).length ≤ t.length := by
  induction t with
  | nil => simp
  | cons c t ih =>
    rw [List.dropWhile_cons]
    split
    · exact Nat.le_succ_of_le ih
    · exact Nat.le_refl _

/-- The text without its trailing newlines. -/
def trimNewlines (t : Text) : Text :=
  (t.reverse.dropWhile (· == '\n')).reverse

end Text

end ShellWord
