import ShellWord.Pattern.Bracket

/-!
# The two scans of a bracket expression

A bracket expression is gone over twice.  The first scan looks for the closing bracket, in a text that goes on behind
it; the second one rewrites what stands in front of that bracket, and sees nothing else.  Each has its own idea of what
belongs together: an escaped character, and a name between `[:` and `:]`.  If the first took something for a unit that
the second takes apart, or the other way round, the class that comes out would list other characters than the
expression.

`members` and `membersTo` say what the two scans find, as lists of `Member`s.  `membersTo_of_contentTo` says that they
find the same: the members of the content, cut off from what follows it, are those that were passed over in the whole
text.

## Main results

* `Bracket.contentTo_eq`: the first scan passes over the members of the text
* `Bracket.classBody_eq`: the second one rewrites the members of the content, one by one
* `Bracket.membersTo_of_contentTo`: these are the same members
-/

namespace ShellWord.Bracket

/-- What belongs together between brackets: a character as it is, one behind a backslash, or a named class. -/
inductive Member where
  | char (c : Char)
  | escaped (c : Char)
  | named (name : Text)
  deriving DecidableEq, Repr

/-- The member as it is written. -/
def Member.source : Member → Text
  | .char c => [c]
  | .escaped c => ['\\', c]
  | .named name => '[' :: ':' :: (name ++ [':', ']'])

/-! ### What the scans find -/

/-- The members that are passed over on the way to the closing bracket, and what follows that. -/
def membersTo (t : Text) : Option (List Member × Text) :=
  match t with
  | [] => none
  | '\\' :: c :: t => Text.extend (.escaped c) (membersTo t)
  | '[' :: ':' :: t =>
    match found : className? t with
    | some (name, rest) =>
      have := length_className?_lt found
      Text.extend (.named name) (membersTo rest)
    | none => Text.extend (.char '[') (membersTo (':' :: t))
  | c :: t => if c == ']' then some ([], t) else Text.extend (.char c) (membersTo t)
termination_by t.length
decreasing_by
  · exact Nat.lt_succ_of_lt (Nat.lt_succ_self _)
  · exact Nat.lt_succ_of_lt (Nat.lt_succ_of_lt this)
  · exact Nat.lt_succ_self _
  · exact Nat.lt_succ_self _

/-- The members of the content of a bracket expression. -/
def members (t : Text) : List Member :=
  match t with
  | [] => []
  | '[' :: ':' :: t =>
    match found : className? t with
    | some (name, rest) =>
      have := length_className?_lt found
      .named name :: members rest
    | none => .char '[' :: members (':' :: t)
  | '\\' :: c :: t => .escaped c :: members t
  | c :: t => .char c :: members t
termination_by t.length
decreasing_by
  · exact Nat.lt_succ_of_lt (Nat.lt_succ_of_lt this)
  · exact Nat.lt_succ_self _
  · exact Nat.lt_succ_of_lt (Nat.lt_succ_self _)
  · exact Nat.lt_succ_self _

/-- What members are rewritten into; `first` says that nothing but the negation stands before. -/
def classOf : (first : Bool) → List Member → Text
  | _, [] => []
  | first, .char c :: ms =>
    (if c == '-' && !first && !ms.isEmpty then ['-'] else classLiteral c) ++ classOf false ms
  | _, .escaped c :: ms => classLiteral c ++ classOf false ms
  | _, .named name :: ms => classMembers name ++ classOf false ms

/-! ### One member after the other -/

section

variable {t name rest : Text} {c : Char}

theorem contentTo_named (found : className? t = some (name, rest)) :
    contentTo ('[' :: ':' :: t) =
      (contentTo rest).map fun (content, after) => ('[' :: ':' :: (name ++ ':' :: ']' :: content), after) := by
  rw [contentTo]
  split
  · next same =>
    obtain ⟨rfl, rfl⟩ := Prod.mk.inj (Option.some.inj (same.symm.trans found))
    rfl
  · next same => cases same.symm.trans found

theorem contentTo_unnamed (found : className? t = none) :
    contentTo ('[' :: ':' :: t) = Text.extend '[' (contentTo (':' :: t)) := by
  rw [contentTo]
  split
  · next same => cases same.symm.trans found
  · rfl

theorem members_named (found : className? t = some (name, rest)) :
    members ('[' :: ':' :: t) = .named name :: members rest := by
  rw [members]
  split
  · next same =>
    obtain ⟨rfl, rfl⟩ := Prod.mk.inj (Option.some.inj (same.symm.trans found))
    rfl
  · next same => cases same.symm.trans found

theorem members_unnamed (found : className? t = none) :
    members ('[' :: ':' :: t) = .char '[' :: members (':' :: t) := by
  rw [members]
  split
  · next same => cases same.symm.trans found
  · rfl

end

/-! ### The first scan -/

/-- The first scan passes over the members of the text. -/
theorem contentTo_eq (t : Text) :
    contentTo t = (membersTo t).map fun (ms, rest) => (ms.flatMap Member.source, rest) := by
  fun_induction membersTo t with
  | case1 => rw [contentTo]; rfl
  | case2 c t ih =>
    rw [contentTo, ih]
    cases membersTo t <;> rfl
  | case3 t name rest found _ ih =>
    rw [contentTo_named found, ih]
    rcases membersTo rest with - | ⟨ms, after⟩
    · rfl
    · simp [Text.extend, Member.source]
  | case4 t found ih =>
    rw [contentTo_unnamed found, ih]
    cases membersTo (':' :: t) <;> rfl
  | case5 c t backslash opening closing =>
    rw [contentTo, if_pos closing]
    · rfl
    · exact backslash
    · exact opening
  | case6 c t backslash opening closing ih =>
    rw [contentTo, if_neg closing, ih]
    · cases membersTo t <;> rfl
    · exact backslash
    · exact opening

/-! ### The second scan -/

theorem isEmpty_members (t : Text) : (members t).isEmpty = t.isEmpty := by
  fun_cases members t <;> rfl

/-- The second scan rewrites the members of the content, one by one. -/
theorem classBody_eq (first : Bool) (t : Text) : classBody first t = classOf first (members t) := by
  fun_induction classBody first t with
  | case1 => simp [members, classOf]
  | case2 first t name rest found _ ih => rw [members_named found, classOf, ih]
  | case3 first t found ih => rw [members_unnamed found, classOf, ih]; rfl
  | case4 first c t ih => rw [members, classOf, ih]
  | case5 first c t opening backslash ih =>
    rw [members, classOf, ih, isEmpty_members]
    · exact opening
    · exact backslash

/-! ### They agree -/

/-- The name of a class ends at the first `:]`, whatever follows it. -/
theorem className?_eq_some {t name rest : Text} (h : className? t = some (name, rest)) :
    t = name ++ ':' :: ']' :: rest ∧ ∀ u, className? (name ++ ':' :: ']' :: u) = some (name, u) := by
  fun_induction className? t generalizing name with
  | case1 => cases h
  | case2 t =>
    obtain ⟨rfl, rfl⟩ := Prod.mk.inj (Option.some.inj h)
    exact ⟨rfl, fun u => rfl⟩
  | case3 c t notEnd ih =>
    obtain ⟨inner, found, rfl⟩ := Text.extend_eq_some_iff.1 h
    obtain ⟨rfl, anywhere⟩ := ih found
    refine ⟨rfl, fun u => ?_⟩
    rw [List.cons_append, className?, anywhere]
    · rfl
    · rintro t' rfl same
      cases inner with
      | nil => cases (List.cons.inj same).1
      | cons d inner =>
        obtain ⟨rfl, -⟩ := List.cons.inj same
        exact notEnd _ rfl rfl

theorem className?_append {t name rest : Text} (h : className? t = some (name, rest)) (u : Text) :
    className? (t ++ u) = some (name, rest ++ u) := by
  obtain ⟨rfl, same⟩ := className?_eq_some h
  rw [List.append_assoc]
  exact same _

/-- A member that was passed over is found again, in front of the members behind it. -/
theorem membersTo_eq_some {t rest : Text} {ms : List Member} (h : membersTo t = some (ms, rest)) :
    t = ms.flatMap Member.source ++ ']' :: rest ∧ members (ms.flatMap Member.source) = ms := by
  fun_induction membersTo t generalizing ms with
  | case1 => cases h
  | case2 c t ih =>
    obtain ⟨others, found, rfl⟩ := Text.extend_eq_some_iff.1 h
    obtain ⟨rfl, same⟩ := ih found
    exact ⟨rfl, by simp [Member.source, members, same]⟩
  | case3 t name after named _ ih =>
    obtain ⟨others, found, rfl⟩ := Text.extend_eq_some_iff.1 h
    obtain ⟨rfl, same⟩ := ih found
    obtain ⟨rfl, anywhere⟩ := className?_eq_some named
    refine ⟨by simp [Member.source], ?_⟩
    have source : (Member.named name :: others).flatMap Member.source =
        '[' :: ':' :: (name ++ ':' :: ']' :: others.flatMap Member.source) := by
      simp [Member.source]
    rw [source, members_named (anywhere _), same]
  | case4 t unnamed ih =>
    obtain ⟨others, found, rfl⟩ := Text.extend_eq_some_iff.1 h
    obtain ⟨parts, same⟩ := ih found
    refine ⟨by rw [parts]; rfl, ?_⟩
    change members ('[' :: others.flatMap Member.source) = _
    cases content : others.flatMap Member.source with
    | nil =>
      rw [content] at parts
      cases (List.cons.inj parts).1
    | cons d tail =>
      rw [content] at parts same
      obtain ⟨rfl, rfl⟩ := List.cons.inj parts
      -- a name that ends in the content ends in the whole text
      have inside : className? tail = none := by
        cases named : className? tail with
        | none => rfl
        | some pair => cases (className?_append named _).symm.trans unnamed
      rw [members_unnamed inside, same]
  | case5 c t _ _ closing =>
    obtain ⟨rfl, rfl⟩ := Prod.mk.inj (Option.some.inj h)
    rw [beq_iff_eq.1 closing]
    exact ⟨rfl, by simp [members]⟩
  | case6 c t backslash opening closing ih =>
    obtain ⟨others, found, rfl⟩ := Text.extend_eq_some_iff.1 h
    obtain ⟨rfl, same⟩ := ih found
    refine ⟨rfl, ?_⟩
    change members (c :: others.flatMap Member.source) = _
    rw [members, same]
    · rintro tail rfl content
      rw [content] at opening
      exact opening _ rfl rfl
    · rintro d tail rfl content
      rw [content] at backslash
      exact backslash _ _ rfl rfl

/-- **The two scans take the content apart in the same way.** -/
theorem membersTo_of_contentTo {t content rest : Text} (h : contentTo t = some (content, rest)) :
    membersTo t = some (members content, rest) := by
  rw [contentTo_eq] at h
  obtain ⟨⟨ms, after⟩, found, same⟩ := Option.map_eq_some_iff.1 h
  obtain ⟨rfl, rfl⟩ := Prod.mk.inj same
  rw [(membersTo_eq_some found).2, found]

end ShellWord.Bracket
