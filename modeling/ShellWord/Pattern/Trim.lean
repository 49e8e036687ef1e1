import ShellWord.Regex.Engine
import ShellWord.Word.Basic

/-!
# Trimming and replacing

`${x#p}` and `${x%p}` take the shortest or the longest match off an end of a value, `${x/p/r}`
replaces matches within it.  Nothing here depends on what a pattern is: it is any predicate on texts.

## Main definitions

* `cuts`: all ways to cut a text in two
* `trimFront`, `trimBack`: take a match off an end
* `boundaries`: the places where a text can be cut
* `replaceFront`, `replaceBack`: replace the longest match at an end
* `replaceFrom`: replace the leftmost longest matches
-/

namespace ShellWord

/-- All ways to cut a text in two, the shortest first part first. -/
def cuts : Text → List (Text × Text)
  | [] => [([], [])]
  | c :: t => ([], c :: t) :: (cuts t).map fun (a, b) => (c :: a, b)

@[simp] theorem cuts_nil : cuts [] = [([], [])] := rfl

/-- The two parts of a cut make up the text. -/
theorem append_of_mem_cuts {t : Text} {cut : Text × Text} (h : cut ∈ cuts t) :
    cut.1 ++ cut.2 = t := by
  induction t generalizing cut with
  | nil =>
    simp only [cuts, List.mem_singleton] at h
    simp [h]
  | cons c t ih =>
    simp only [cuts, List.mem_cons, List.mem_map] at h
    rcases h with rfl | ⟨inner, found, rfl⟩
    · rfl
    · simp [ih found]

/-- The matched front part and the rest: the longest or the shortest one. -/
def frontMatch? (p : Matcher) (longest : Bool) (t : Text) : Option (Text × Text) :=
  (if longest then (cuts t).reverse else cuts t).find? fun cut => p cut.1

/-- What stands before the matched back part, and that part: the longest or the shortest one. -/
def backMatch? (p : Matcher) (longest : Bool) (t : Text) : Option (Text × Text) :=
  (if longest then cuts t else (cuts t).reverse).find? fun cut => p cut.2

/-- Take the longest or the shortest match off the front. -/
def trimFront (p : Matcher) (longest : Bool) (t : Text) : Text :=
  match frontMatch? p longest t with
  | some (_, rest) => rest
  | none => t

/-- Take the longest or the shortest match off the back. -/
def trimBack (p : Matcher) (longest : Bool) (t : Text) : Text :=
  match backMatch? p longest t with
  | some (rest, _) => rest
  | none => t

/-- The boundaries of the characters of a text, from the front: how many characters stand before them. -/
def boundaries (t : Text) : List Nat :=
  List.range (t.length + 1)

/-- Replace the match at the front that ends at the last boundary. -/
def replaceFront (p : Matcher) (replacement t : Text) : Text :=
  match (boundaries t).reverse.find? fun n => p (t.take n) with
  | some n => replacement ++ t.drop n
  | none => t

/-- Replace the match at the back that begins at the first boundary. -/
def replaceBack (p : Matcher) (replacement t : Text) : Text :=
  match (boundaries t).find? fun n => p (t.drop n) with
  | some n => t.take n ++ replacement
  | none => t

/-- The text between two boundaries. -/
def between (t : Text) (start stop : Nat) : Text :=
  (t.take stop).drop start

/-- Where the longest match that begins at a boundary ends, counted in boundaries from the back.  A match
takes at least one character. -/
def longestFromBack? (p : Matcher) (t : Text) (start : Nat) : Option Nat :=
  ((boundaries t).drop (start + 1)).reverse.findIdx? fun stop => p (between t start stop)

/-- A match ends behind the boundary where it begins. -/
theorem lt_of_longestFromBack? {p : Matcher} {t : Text} {start fromBack : Nat}
    (h : longestFromBack? p t start = some fromBack) :
    start < (boundaries t).length - 1 - fromBack := by
  obtain ⟨inside, -⟩ := List.findIdx?_eq_some_iff_getElem.1 h
  rw [List.length_reverse, List.length_drop] at inside
  omega

/-- Replace the longest match at the first boundary where one begins, and all that follow it if `all` is
set; what stands before `start` is done. -/
def replaceFrom (p : Matcher) (all : Bool) (replacement t : Text) (start : Nat) : Text :=
  if start < (boundaries t).length - 1 then
    match found : longestFromBack? p t start with
    | some fromBack =>
      have := lt_of_longestFromBack? found
      let stop := (boundaries t).length - 1 - fromBack
      replacement ++ if all then replaceFrom p all replacement t stop else t.drop stop
    | none => between t start (start + 1) ++ replaceFrom p all replacement t (start + 1)
  else []
termination_by (boundaries t).length - 1 - start

/-- Replace by the rules of `${x/p/r}`: an anchor ties the match to an end of the value; without one
the first match or all of them are replaced. -/
def replaceMatches (p : Matcher) (all : Bool) (anchor : Option Anchor) (replacement t : Text) :
    Text :=
  match anchor with
  | some .start => replaceFront p replacement t
  | some .finish => replaceBack p replacement t
  | none => replaceFrom p all replacement t 0

end ShellWord
