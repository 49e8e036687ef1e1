import ShellWord.Text.Basic
import ShellWord.Text.CaseTable

/-!
# Upper and lower case

The full case mapping of a single character, without regard to what stands around it.  It may give
several characters: `ß` in upper case is `SS`.

## Main definitions

* `Text.upper`, `Text.lower`: a character in upper and in lower case
-/

namespace ShellWord.Text

/-- Map a character by a table of runs and a table of exceptions; a character in neither is kept. -/
def mapCase (runs : List CaseRun) (special : List (Nat × List Nat)) (c : Char) : Text :=
  match special.lookup c.toNat with
  | some codes => codes.map Char.ofNat
  | none =>
    match runs.findSome? (·.map? c.toNat) with
    | some code => [Char.ofNat code]
    | none => [c]

/-- A character in upper case. -/
def upper (c : Char) : Text :=
  mapCase upperRuns upperSpecial c

/-- A character in lower case. -/
def lower (c : Char) : Text :=
  mapCase lowerRuns lowerSpecial c

end ShellWord.Text
