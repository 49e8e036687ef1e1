import ShellWord.Text.Basic

/-!
# Bracket expressions

A bracket expression `[…]` lists characters, ranges `a-z` and named classes `[:name:]`.  A leading
`!` or `^` negates it, a closing bracket right after the opening is a member, and a backslash makes
the next character a member as it is.

First the closing bracket is found; then what stands between the brackets is rewritten into the class
of a regular expression.  A hyphen at either end is a member and is escaped; elsewhere it is written as
it is, and what stands around it decides whether it makes a range.  A named class is replaced by the
members and ranges that it lists, and an unknown name by nothing.

## Main definitions

* `Bracket.close?`: what stands between the brackets, and what follows them
* `Bracket.classText`: the class of a regular expression that it becomes
-/

namespace ShellWord.Bracket

/-- The name of a class, given the text after `[:`, and what follows its `:]`. -/
def className? : Text → Option (Text × Text)
  | [] => none
  | ':' :: ']' :: t => some ([], t)
  | c :: t => Text.extend c (className? t)

/-- What follows the name of a class is shorter than the text. -/
theorem length_className?_lt {t name rest : Text} (h : className? t = some (name, rest)) :
    rest.length < t.length := by
  fun_induction className? t generalizing name with
  | case1 => simp at h
  | case2 t =>
    simp only [Option.some.injEq, Prod.mk.injEq] at h
    rw [← h.2]
    simp only [List.length_cons]
    omega
  | case3 c t _ ih =>
    obtain ⟨_, h⟩ := Text.exists_of_extend h
    exact Nat.lt_succ_of_lt (ih h)

/-! ### The closing bracket -/

/-- What stands in front of the closing bracket, and what follows it.  A bracket after a backslash or
within `[:name:]` does not close. -/
def contentTo (t : Text) : Option (Text × Text) :=
  match t with
  | [] => none
  | '\\' :: c :: t => Text.extend '\\' (Text.extend c (contentTo t))
  | '[' :: ':' :: t =>
    match found : className? t with
    | some (name, rest) =>
      have := length_className?_lt found
      (contentTo rest).map fun (content, after) =>
        ('[' :: ':' :: (name ++ ':' :: ']' :: content), after)
    | none => Text.extend '[' (contentTo (':' :: t))
  | c :: t => if c == ']' then some ([], t) else Text.extend c (contentTo t)
termination_by t.length
decreasing_by
  · exact Nat.lt_succ_of_lt (Nat.lt_succ_self _)
  · exact Nat.lt_succ_of_lt (Nat.lt_succ_of_lt this)
  · exact Nat.lt_succ_self _
  · exact Nat.lt_succ_self _

/-- The same behind the negation, where a closing bracket in front is a member. -/
def bodyTo : Text → Option (Text × Text)
  | ']' :: t => Text.extend ']' (contentTo t)
  | t => contentTo t

/-- What stands between the opening bracket, which is read, and the closing one, and what follows it.
There is none when the closing bracket is missing. -/
def close? : Text → Option (Text × Text)
  | '!' :: t => Text.extend '!' (bodyTo t)
  | '^' :: t => Text.extend '^' (bodyTo t)
  | t => bodyTo t

/-- What follows the closing bracket is shorter than the text. -/
theorem length_contentTo_lt {t content rest : Text} (h : contentTo t = some (content, rest)) :
    rest.length < t.length := by
  fun_induction contentTo t generalizing content with
  | case1 => simp at h
  | case2 c t ih =>
    obtain ⟨_, h⟩ := Text.exists_of_extend h
    obtain ⟨_, h⟩ := Text.exists_of_extend h
    exact Nat.lt_succ_of_lt (Nat.lt_succ_of_lt (ih h))
  | case3 t name after found shorter ih =>
    obtain ⟨⟨inner, tail⟩, closed, heq⟩ := Option.map_eq_some_iff.1 h
    simp only [Prod.mk.injEq] at heq
    have := ih (heq.2 ▸ closed)
    exact Nat.lt_succ_of_lt (Nat.lt_succ_of_lt (Nat.lt_trans this shorter))
  | case4 t _ ih =>
    obtain ⟨_, h⟩ := Text.exists_of_extend h
    exact Nat.lt_succ_of_lt (ih h)
  | case5 c t _ _ _ =>
    simp only [Option.some.injEq, Prod.mk.injEq] at h
    simp [← h.2]
  | case6 c t _ _ _ ih =>
    obtain ⟨_, h⟩ := Text.exists_of_extend h
    exact Nat.lt_succ_of_lt (ih h)

theorem length_bodyTo_lt {t content rest : Text} (h : bodyTo t = some (content, rest)) :
    rest.length < t.length := by
  unfold bodyTo at h
  split at h
  · obtain ⟨_, h⟩ := Text.exists_of_extend h
    exact Nat.lt_succ_of_lt (length_contentTo_lt h)
  · exact length_contentTo_lt h

/-- What follows a bracket expression is shorter than what follows its opening. -/
theorem length_close?_lt {t content rest : Text} (h : close? t = some (content, rest)) :
    rest.length < t.length := by
  unfold close? at h
  split at h
  · obtain ⟨_, h⟩ := Text.exists_of_extend h
    exact Nat.lt_succ_of_lt (length_bodyTo_lt h)
  · obtain ⟨_, h⟩ := Text.exists_of_extend h
    exact Nat.lt_succ_of_lt (length_bodyTo_lt h)
  · exact length_bodyTo_lt h

/-! ### The class of a regular expression -/

/-- The named classes, as they are written in a class of a regular expression. -/
def classes : List (Text × Text) :=
  [("alnum".toList, "a-zA-Z0-9".toList),
   ("alpha".toList, "a-zA-Z".toList),
   ("ascii".toList, "\\x00-\\x7F".toList),
   ("blank".toList, " \\t".toList),
   ("cntrl".toList, "\\x00-\\x1F\\x7F".toList),
   ("digit".toList, "0-9".toList),
   ("graph".toList, "!-~".toList),
   ("lower".toList, "a-z".toList),
   ("print".toList, " -~".toList),
   ("punct".toList, "!-/:-@\\[-\x60\x7b-~".toList),
   ("space".toList, " \\t\\n\\r\\f\\v".toList),
   ("upper".toList, "A-Z".toList),
   ("word".toList, "a-zA-Z0-9_".toList),
   ("xdigit".toList, "0-9A-Fa-f".toList)]

/-- The members of a named class; nothing for an unknown name. -/
def classMembers (name : Text) : Text :=
  (classes.lookup name).getD []

/-- A character that is a member.  What is special in a class is escaped. -/
def classLiteral (c : Char) : Text :=
  if c == '[' || c == ']' || c == '\\' || c == '^' || c == '-' then ['\\', c] else [c]

/-- The members of a class, from what stands between the brackets; `first` says that nothing but the
negation stands before. -/
def classBody (first : Bool) (t : Text) : Text :=
  match t with
  | [] => []
  | '[' :: ':' :: t =>
    match found : className? t with
    | some (name, rest) =>
      have := length_className?_lt found
      classMembers name ++ classBody false rest
    | none => classLiteral '[' ++ classBody false (':' :: t)
  | '\\' :: c :: t => classLiteral c ++ classBody false t
  | c :: t =>
    (if c == '-' && !first && !t.isEmpty then ['-'] else classLiteral c) ++ classBody false t
termination_by t.length
decreasing_by
  · exact Nat.lt_succ_of_lt (Nat.lt_succ_of_lt this)
  · exact Nat.lt_succ_self _
  · exact Nat.lt_succ_of_lt (Nat.lt_succ_self _)
  · exact Nat.lt_succ_self _

/-- The class of a regular expression that stands for what is between the brackets. -/
def classText : Text → Text
  | '!' :: t => '[' :: '^' :: (classBody true t ++ [']'])
  | '^' :: t => '[' :: '^' :: (classBody true t ++ [']'])
  | t => '[' :: (classBody true t ++ [']'])

end ShellWord.Bracket
