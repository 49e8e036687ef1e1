import ShellWord.Text.Basic

/-!
# Matching parentheses

The body of `$(command)`, of `$((expression))` and of `<(command)` ends at the parenthesis that
matches the one before it.  A parenthesis between quotes or after a backslash does not count.

## Main definitions

* `Paren.scan`: the body up to the matching parenthesis, and what follows it
* `Paren.close?`: the same for a text that begins with the opening parenthesis
* `Paren.closePair?`: the body between `((` and `))`
* `Paren.offset?`, `Paren.pairOffset?`: the answers as byte offsets
-/

namespace ShellWord.Paren

/-- The quotes the scan is inside of. -/
inductive Mode where
  | plain
  | single
  | double
  deriving DecidableEq, Repr

/-- Scan from inside a parenthesis, with `depth` more parentheses open, to the parenthesis that
closes it.  Gives the text before that parenthesis and the text after it. -/
def scan : Mode → (depth : Nat) → Text → Option (Text × Text)
  | _, _, [] => none
  | .single, depth, c :: t =>
    Text.extend c (scan (if c == '\x27' then .plain else .single) depth t)
  | .double, depth, '\\' :: c :: t => Text.extend '\\' (Text.extend c (scan .double depth t))
  | .double, depth, c :: t =>
    Text.extend c (scan (if c == '\x22' then .plain else .double) depth t)
  | .plain, depth, '\\' :: c :: t => Text.extend '\\' (Text.extend c (scan .plain depth t))
  | .plain, depth, '(' :: t => Text.extend '(' (scan .plain (depth + 1) t)
  | .plain, 0, ')' :: t => some ([], t)
  | .plain, depth + 1, ')' :: t => Text.extend ')' (scan .plain depth t)
  | .plain, depth, c :: t =>
    Text.extend c (scan (if c == '\x27' then .single else if c == '\x22' then .double else .plain) depth t)

/-- The body of the parenthesis a text begins with, and what follows it. -/
def close? : Text → Option (Text × Text)
  | '(' :: t => scan .plain 0 t
  | _ => none

/-- The body between the `((` a text begins with and its `))`, and what follows it.  There is none
when the inner parenthesis does not close right before the outer one. -/
def closePair? : Text → Option (Text × Text)
  | '(' :: t =>
    match close? t with
    | some (body, ')' :: rest) => some (body, rest)
    | _ => none
  | _ => none

/-- What follows the matching parenthesis is shorter than the text. -/
theorem length_scan_lt {mode : Mode} {depth : Nat} {t body rest : Text}
    (h : scan mode depth t = some (body, rest)) : rest.length < t.length := by
  fun_induction scan mode depth t generalizing body rest with
  | case1 => simp at h
  | case2 depth c t ih =>
    obtain ⟨_, h⟩ := Text.exists_of_extend h
    exact Nat.lt_succ_of_lt (ih h)
  | case3 depth c t ih =>
    obtain ⟨_, h⟩ := Text.exists_of_extend h
    obtain ⟨_, h⟩ := Text.exists_of_extend h
    exact Nat.lt_succ_of_lt (Nat.lt_succ_of_lt (ih h))
  | case4 depth c t _ ih =>
    obtain ⟨_, h⟩ := Text.exists_of_extend h
    exact Nat.lt_succ_of_lt (ih h)
  | case5 depth c t ih =>
    obtain ⟨_, h⟩ := Text.exists_of_extend h
    obtain ⟨_, h⟩ := Text.exists_of_extend h
    exact Nat.lt_succ_of_lt (Nat.lt_succ_of_lt (ih h))
  | case6 depth t ih =>
    obtain ⟨_, h⟩ := Text.exists_of_extend h
    exact Nat.lt_succ_of_lt (ih h)
  | case7 t =>
    simp only [Option.some.injEq, Prod.mk.injEq] at h
    simp [h.2]
  | case8 depth t ih =>
    obtain ⟨_, h⟩ := Text.exists_of_extend h
    exact Nat.lt_succ_of_lt (ih h)
  | case9 depth c t _ _ _ _ ih =>
    obtain ⟨_, h⟩ := Text.exists_of_extend h
    exact Nat.lt_succ_of_lt (ih h)

/-- What follows a parenthesis is shorter than the text. -/
theorem length_close?_lt {t body rest : Text} (h : close? t = some (body, rest)) :
    rest.length < t.length := by
  unfold close? at h
  split at h
  · exact Nat.lt_succ_of_lt (length_scan_lt h)
  · simp at h

/-- What follows a pair of parentheses is shorter than the text. -/
theorem length_closePair?_lt {t body rest : Text} (h : closePair? t = some (body, rest)) :
    rest.length < t.length := by
  unfold closePair? at h
  split at h
  · next inner =>
    split at h
    · next _ after found =>
      simp only [Option.some.injEq, Prod.mk.injEq] at h
      have := length_close?_lt found
      simp only [List.length_cons] at this ⊢
      rw [← h.2]
      omega
    · simp at h
  · simp at h

/-- The byte offset of the parenthesis that matches the one at byte offset `start`. -/
def offset? (t : Text) (start : Nat) : Option Nat :=
  match Text.splitAtByte? start t with
  | some (_, rest) => (close? rest).map fun (body, _) => start + 1 + Text.utf8Size body
  | none => none

/-- The byte offset of the first of the two parentheses that match the pair at byte offset `start`. -/
def pairOffset? (t : Text) (start : Nat) : Option Nat :=
  match Text.splitAtByte? start t with
  | some (_, rest) => (closePair? rest).map fun (body, _) => start + 2 + Text.utf8Size body
  | none => none

end ShellWord.Paren
