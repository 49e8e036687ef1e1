import ShellWord.Text.Basic

/-!
# Reading from the front of a text

A reader takes a value off the front of a text and gives it together with the rest, or nothing when the
text does not begin with one.

## Main definitions

* `Text.Reader`: the readers
* `Text.digits?`: a run of digits
-/

namespace ShellWord.Text

/-- What reads a value from the front of a text, and gives the rest. -/
abbrev Reader (α : Type) := Text → Option (α × Text)

/-- A non-empty run of characters of a class. -/
def run? (p : Char → Bool) : Reader Text := fun t =>
  match t.takeWhile p with
  | [] => none
  | run => some (run, t.dropWhile p)

/-- A non-empty run of digits. -/
def digits? : Reader Text :=
  run? isDigit

/-- The value of a hexadecimal digit. -/
def hexValue? (c : Char) : Option Nat :=
  if isDigit c then some (c.toNat - 0x30)
  else if 'a' ≤ c ∧ c ≤ 'f' then some (c.toNat - 0x61 + 10)
  else if 'A' ≤ c ∧ c ≤ 'F' then some (c.toNat - 0x41 + 10)
  else none

end ShellWord.Text
