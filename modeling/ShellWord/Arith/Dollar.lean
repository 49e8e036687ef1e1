import ShellWord.Arith.Numeral
import ShellWord.Arith.Paren

/-!
# Parameters in arithmetic text

Before anything else, `$x` and `${x}` in arithmetic text are replaced by the numbers they hold: zero
for a parameter that is unset or holds no decimal numeral.  Substitutions `$(…)` are left as they are.

## Main definitions

* `Dollar.numeric`: the number a parameter holds
* `Dollar.pieces`: a text as a sequence of plain text and parameters
* `Dollar.parameters`: the parameters of a text, in the order in which they are read
* `Dollar.fill`: put values in the place of parameters
-/

namespace ShellWord.Dollar

/-- The numeral of a value, without the blanks around it; zero for a value that is no decimal numeral
of 64 bits. -/
def numeric (value : Option Text) : Text :=
  match value with
  | some value => if Numeral.isDecimal (Text.trim value) then Text.trim value else ['0']
  | none => ['0']

/-- The special parameters of one character that are replaced without braces. -/
def isSpecialName (c : Char) : Bool :=
  Text.isDigit c || c == '?' || c == '$' || c == '!' || c == '#' || c == '@' || c == '*'

/-- What follows a brace is shorter than the text. -/
theorem length_cutAt?_lt {p : Char → Bool} {t a b : Text} (h : Text.cutAt? p t = some (a, b)) :
    b.length < t.length := by
  induction t generalizing a with
  | nil => simp at h
  | cons c t ih =>
    unfold Text.cutAt? at h
    split at h
    · simp only [Option.some.injEq, Prod.mk.injEq] at h
      simp [← h.2]
    · obtain ⟨⟨inner, after⟩, found, heq⟩ := Option.map_eq_some_iff.1 h
      simp only [Prod.mk.injEq] at heq
      exact Nat.lt_succ_of_lt (ih (heq.2 ▸ found))

/-- A piece of arithmetic text. -/
inductive Piece where
  /-- text that stays -/
  | plain (text : Text)
  /-- a parameter, by its name -/
  | parameter (name : Text)
  deriving DecidableEq, Repr

/-- The pieces of a text.  A substitution or a brace that is never closed ends the replacing. -/
def pieces (t : Text) : List Piece :=
  match t with
  | [] => []
  | [c] => [.plain [c]]
  | c :: d :: rest =>
    if c != '$' then .plain [c] :: pieces (d :: rest)
    else if d == '(' then
      match closed : Paren.close? (d :: rest) with
      | some (body, after) =>
        have := Paren.length_close?_lt closed
        .plain ('$' :: '(' :: (body ++ [')'])) :: pieces after
      | none => [.plain (c :: d :: rest)]
    else if d == '\x7b' then
      match closed : Text.cutAt? (· == '\x7d') rest with
      | some (name, after) =>
        have := length_cutAt?_lt closed
        .parameter name :: pieces after
      | none => [.plain (c :: d :: rest)]
    else if Text.isNameStart d then
      .parameter (d :: rest.takeWhile Text.isNameChar) :: pieces (rest.dropWhile Text.isNameChar)
    else if isSpecialName d then
      .parameter [d] :: pieces rest
    else
      .plain ['$'] :: pieces (d :: rest)
termination_by t.length
decreasing_by
  · simp
  · simp only [List.length_cons] at *
    omega
  · simp only [List.length_cons] at *
    omega
  · have := Text.length_dropWhile_le Text.isNameChar rest
    simp only [List.length_cons]
    omega
  · simp only [List.length_cons]
    omega
  · simp

/-- The parameters of a text, in order; one that occurs twice is listed twice. -/
def parameters (t : Text) : List Text :=
  (pieces t).filterMap fun
    | .plain _ => none
    | .parameter name => some name

/-- Put pieces together, with the numbers that values hold in place of the parameters. -/
def fill : List Piece → List (Option Text) → Text
  | [], _ => []
  | .plain text :: pieces, values => text ++ fill pieces values
  | .parameter _ :: pieces, values => numeric (values.headD none) ++ fill pieces values.tail

/-- Replace the parameters of a text where a parameter has one value. -/
def replace (lookup : Text → Option Text) (t : Text) : Text :=
  fill (pieces t) ((parameters t).map lookup)

end ShellWord.Dollar
