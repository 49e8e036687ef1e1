import ShellWord.Text.Basic

/-!
# Groups of alternatives

An extended group `@(a|b)` lists alternatives between parentheses.  The mark in front says how often
they may occur: once (`@`), any number of times (`*`), at least once (`+`), at most once (`?`), or
not at all (`!`).  A backslash takes the meaning from the character after it; brackets do not shield
a parenthesis or a bar.

## Main definitions

* `Group.Mark`: the five marks
* `Group.close?`: the body of a group and what follows it
* `Group.alternatives`: the body, cut at its bars
-/

namespace ShellWord.Group

/-- How often the alternatives of a group occur. -/
inductive Mark where
  | once
  | anyNumber
  | atLeastOnce
  | atMostOnce
  | excluded
  deriving DecidableEq, Repr

/-- The mark that a character is. -/
def Mark.ofChar? (c : Char) : Option Mark :=
  if c == '@' then some .once
  else if c == '*' then some .anyNumber
  else if c == '+' then some .atLeastOnce
  else if c == '?' then some .atMostOnce
  else if c == '!' then some .excluded
  else none

/-- The body of a group, from inside of it with `depth` more parentheses open, and what follows its
closing parenthesis. -/
def close? : (depth : Nat) → Text → Option (Text × Text)
  | _, [] => none
  | _, ['\\'] => none
  | depth, '\\' :: c :: t => Text.extend '\\' (Text.extend c (close? depth t))
  | depth, '(' :: t => Text.extend '(' (close? (depth + 1) t)
  | 0, ')' :: t => some ([], t)
  | depth + 1, ')' :: t => Text.extend ')' (close? depth t)
  | depth, c :: t => Text.extend c (close? depth t)

/-- A group takes up its body and the closing parenthesis. -/
theorem length_close? {depth : Nat} {t body rest : Text}
    (h : close? depth t = some (body, rest)) : body.length + rest.length + 1 = t.length := by
  fun_induction close? depth t generalizing body with
  | case1 => simp at h
  | case2 => simp at h
  | case3 depth c t ih =>
    obtain ⟨_, extended, rfl⟩ := Text.extend_eq_some_iff.1 h
    obtain ⟨_, closed, rfl⟩ := Text.extend_eq_some_iff.1 extended
    simp only [List.length_cons, ← ih closed]
    omega
  | case4 depth t ih =>
    obtain ⟨_, closed, rfl⟩ := Text.extend_eq_some_iff.1 h
    simp only [List.length_cons, ← ih closed]
    omega
  | case5 t =>
    simp only [Option.some.injEq, Prod.mk.injEq] at h
    simp [← h.1, h.2]
  | case6 depth t ih =>
    obtain ⟨_, closed, rfl⟩ := Text.extend_eq_some_iff.1 h
    simp only [List.length_cons, ← ih closed]
    omega
  | case7 depth c t _ _ _ _ _ ih =>
    obtain ⟨_, closed, rfl⟩ := Text.extend_eq_some_iff.1 h
    simp only [List.length_cons, ← ih closed]
    omega

/-- A text in front of the first alternative. -/
def prepend (t : Text) : List Text → List Text
  | [] => [t]
  | first :: others => (t ++ first) :: others

/-- The alternatives of a body: it is cut at the bars outside of all inner parentheses. -/
def alternativesAt : (depth : Nat) → Text → List Text
  | _, [] => [[]]
  | depth, '\\' :: c :: t => prepend ['\\', c] (alternativesAt depth t)
  | depth, '(' :: t => prepend ['('] (alternativesAt (depth + 1) t)
  | depth, ')' :: t => prepend [')'] (alternativesAt (depth - 1) t)
  | 0, '|' :: t => [] :: alternativesAt 0 t
  | depth, c :: t => prepend [c] (alternativesAt depth t)

/-- The alternatives of a body. -/
def alternatives (body : Text) : List Text :=
  alternativesAt 0 body

/-- An alternative behind a text is no longer than the two together. -/
theorem length_le_of_mem_prepend {t alternative : Text} {alternatives : List Text} {bound : Nat}
    (shorter : ∀ a ∈ alternatives, a.length ≤ bound) (h : alternative ∈ prepend t alternatives) :
    alternative.length ≤ t.length + bound := by
  cases alternatives with
  | nil =>
    rw [prepend, List.mem_singleton] at h
    rw [h]
    exact Nat.le_add_right _ _
  | cons first others =>
    rcases List.mem_cons.1 h with rfl | h
    · rw [List.length_append]
      exact Nat.add_le_add_left (shorter first List.mem_cons_self) _
    · exact Nat.le_add_left_of_le (shorter _ (List.mem_cons_of_mem _ h))

/-- An alternative is no longer than the body. -/
theorem length_le_of_mem_alternativesAt {depth : Nat} {t alternative : Text}
    (h : alternative ∈ alternativesAt depth t) : alternative.length ≤ t.length := by
  fun_induction alternativesAt depth t generalizing alternative with
  | case1 =>
    rw [List.mem_singleton] at h
    simp [h]
  | case2 depth c t ih =>
    have := length_le_of_mem_prepend (fun _ => ih) h
    simp only [List.length_cons, List.length_nil] at this ⊢
    omega
  | case3 depth t ih =>
    have := length_le_of_mem_prepend (fun _ => ih) h
    simp only [List.length_cons, List.length_nil] at this ⊢
    omega
  | case4 depth t ih =>
    have := length_le_of_mem_prepend (fun _ => ih) h
    simp only [List.length_cons, List.length_nil] at this ⊢
    omega
  | case5 t ih =>
    rcases List.mem_cons.1 h with rfl | h
    · simp
    · exact Nat.le_succ_of_le (ih h)
  | case6 depth c t _ _ _ _ ih =>
    have := length_le_of_mem_prepend (fun _ => ih) h
    simp only [List.length_cons, List.length_nil] at this ⊢
    omega

end ShellWord.Group
