import ShellWord.Text.Basic

/-!
# Blank characters

Arithmetic skips blanks and trims values; a blank there is a character with the Unicode property
`White_Space`.  Field splitting knows a smaller class, which stands with it.

## Main definitions

* `Text.isBlank`: the characters with the property `White_Space`
* `Text.trim`, `Text.trimStart`, `Text.trimEnd`: a text without blanks at its ends
-/

namespace ShellWord.Text

/-- The ranges of code points with the Unicode property `White_Space`. -/
def blankRanges : List (Nat × Nat) :=
  [(0x0009, 0x000D), (0x0020, 0x0020), (0x0085, 0x0085), (0x00A0, 0x00A0), (0x1680, 0x1680),
    (0x2000, 0x200A), (0x2028, 0x2029), (0x202F, 0x202F), (0x205F, 0x205F), (0x3000, 0x3000)]

/-- A blank is a character with the Unicode property `White_Space`. -/
def isBlank (c : Char) : Bool :=
  blankRanges.any fun (low, high) => low ≤ c.toNat && c.toNat ≤ high

/-- The text without the blanks it begins with. -/
def trimStart (t : Text) : Text :=
  t.dropWhile isBlank

/-- The text without the blanks it ends with. -/
def trimEnd (t : Text) : Text :=
  (t.reverse.dropWhile isBlank).reverse

/-- The text without the blanks at either end. -/
def trim (t : Text) : Text :=
  trimEnd (trimStart t)

@[simp] theorem trimStart_nil : trimStart [] = [] := rfl

@[simp] theorem trimEnd_nil : trimEnd [] = [] := rfl

@[simp] theorem trim_nil : trim [] = [] := rfl

end ShellWord.Text
