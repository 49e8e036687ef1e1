import ShellWord.Pattern.Basic

/-!
# Patterns without extended groups

Switching extended groups on should change nothing for a pattern that has none: every opener in it is escaped,
or part of a bracket expression, or never closed.  `groupFree` says this the way the translation sees it: at no
place where a piece may begin does it find a group.  Then the pattern is indeed rewritten into the same
expression with groups switched on and off (`translate_of_groupFree`), whatever engine compiles it.

The pattern as a whole is another matter.  Whether it is rewritten a second time, for what it must *not* match,
is decided by `excludes`, which looks for an unescaped `!(` anywhere in the text.  It does not know brackets, nor
does it ask for the closing parenthesis.  A pattern without groups that has such a pair, like `[!(]`, is
rewritten twice with the same outcome, and what it requires is also what it forbids.  So it matches nothing at
all once groups are switched on.  `accepts_extglob_iff_not_excludes` says that this is the only thing that goes
wrong.
-/

namespace ShellWord.Pattern

variable {extglob : Bool} {exclusion : Exclusion} {c : Char} {t body rest : Text}

/-! ### One piece after the other -/

/-- What follows the piece at the front of a text, where that is no group. -/
def following (c : Char) (t : Text) : Text :=
  if c == '[' then
    match Bracket.close? t with
    | some (_, rest) => rest
    | none => t
  else if c == '\\' then t.drop 1
  else t

/-- The expression of the piece at the front of a text, where that is no group. -/
def piece (c : Char) (t : Text) : Text :=
  if c == '\\' then literal (t.head?.getD '\\')
  else if c == '*' then ['.', '*']
  else if c == '?' then ['.']
  else if c == '[' then
    match Bracket.close? t with
    | some (content, _) => Bracket.classText content
    | none => ['\\', '[']
  else literal c

theorem length_following_le (c : Char) (t : Text) : (following c t).length ≤ t.length := by
  unfold following
  split
  · split
    · next closed => exact Nat.le_of_lt (Bracket.length_close?_lt closed)
    · exact Nat.le_refl _
  · split
    · rw [List.length_drop]
      exact Nat.sub_le _ _
    · exact Nat.le_refl _

theorem group?_false (c : Char) (t : Text) : group? false c t = none := rfl

@[simp] theorem translate_nil (extglob : Bool) (exclusion : Exclusion) :
    translate extglob exclusion [] = [] := by
  rw [translate]

/-- A group becomes a group of its alternatives. -/
theorem translate_cons_of_group {mark : Group.Mark}
    (h : group? extglob c t = some (mark, body, rest)) :
    translate extglob exclusion (c :: t) =
      mark.expression exclusion
          (List.intercalate ['|'] ((Group.alternatives body).map (translate extglob exclusion))) ++
        translate extglob exclusion rest := by
  rw [translate]
  split
  · next found =>
    obtain ⟨rfl, rfl, rfl⟩ : _ ∧ _ ∧ _ := by simpa using found.symm.trans h
    rw [List.attach_map_val]
  · next found =>
    rw [h] at found
    cases found

/-- Where there is no group, a piece is rewritten and then what follows it. -/
theorem translate_cons (h : group? extglob c t = none) :
    translate extglob exclusion (c :: t) = piece c t ++ translate extglob exclusion (following c t) := by
  rw [translate]
  split
  · next found =>
    rw [h] at found
    cases found
  by_cases backslash : c = '\\'
  · subst backslash
    cases t with
    | nil => simp [piece, following]
    | cons d t => simp [piece, following]
  by_cases any : c = '*'
  · subst any
    rfl
  by_cases all : c = '?'
  · subst all
    rfl
  by_cases opening : c = '['
  · subst opening
    simp only [piece, following, beq_iff_eq, any, all, backslash, if_false, if_true]
    split
    · next closed => simp only [closed]
    · next closed => simp only [closed, List.cons_append, List.nil_append]
  · simp [piece, following, any, all, opening, backslash]

/-! ### No groups -/

/-- The translation finds a group nowhere in the text. -/
def groupFree : Text → Bool
  | [] => true
  | c :: t => (group? true c t).isNone && groupFree (following c t)
termination_by t => t.length
decreasing_by exact Nat.lt_succ_of_le (length_following_le c t)

/-- Without groups there is one translation, whatever the switch says and however negated groups are
rewritten. -/
theorem translate_of_groupFree (free : groupFree t = true) (extglob : Bool) (exclusion : Exclusion) :
    translate extglob exclusion t = translate false .anything t := by
  fun_induction groupFree t with
  | case1 => rw [translate_nil, translate_nil]
  | case2 c t ih =>
    obtain ⟨none, rest⟩ := Bool.and_eq_true_iff.1 free
    have ungrouped : group? extglob c t = Option.none := by
      cases extglob with
      | false => exact group?_false c t
      | true => exact Option.isNone_iff_eq_none.1 none
    rw [translate_cons ungrouped, translate_cons (group?_false c t), ih rest]

/-! ### Compiling -/

/-- A pattern that is not rewritten twice has nothing to forbid. -/
theorem compile?_of_not_excludes (engine : Engine) (h : (extglob && excludes t) = false) :
    compile? engine extglob t =
      (engine (expression extglob .anything t)).map fun required => ⟨required, none⟩ := by
  unfold compile?
  cases engine (expression extglob .anything t) with
  | none => rfl
  | some required => simp [h]

/-- A pattern without groups is what it is with groups switched off; if it has an unescaped `!(`, it also
forbids what it requires. -/
theorem compile?_true_of_groupFree (engine : Engine) (free : groupFree t = true) :
    compile? engine true t = (engine (expression false .anything t)).map fun required =>
      ⟨required, if excludes t then some required else none⟩ := by
  have same (exclusion : Exclusion) : expression true exclusion t = expression false .anything t :=
    congrArg anchor (translate_of_groupFree free true exclusion)
  rw [compile?, same, same]
  cases engine (expression false .anything t) with
  | none => rfl
  | some required => cases h : excludes t <;> simp

/-! ### What is required and forbidden at once -/

/-- The bracket expression `[!(]`: any character but an opening parenthesis. -/
def noParenthesis : Text := ['[', '!', '(', ']']

theorem groupFree_noParenthesis : groupFree noParenthesis = true := by
  decide +kernel

/-- With groups switched off it matches a letter; with groups switched on it forbids what it requires. -/
theorem exists_compile?_noParenthesis :
    ∃ m, ofText? true noParenthesis = some ⟨m, some m⟩ ∧ ofText? false noParenthesis = some ⟨m, none⟩ ∧
      m ['a'] = true := by
  have letter : (Regex.engine (expression false .anything noParenthesis)).any (fun m => m ['a']) = true := by
    decide +kernel
  obtain ⟨m, compiled, matched⟩ := (Option.any_eq_true _ _).1 letter
  refine ⟨m, ?_, ?_, matched⟩
  · rw [ofText?, compile?_true_of_groupFree Regex.engine groupFree_noParenthesis, compiled]
    rfl
  · rw [ofText?, compile?_of_not_excludes Regex.engine (Bool.false_and _), compiled]
    rfl

/-- **Without groups, the switch matters only to an unescaped `!(`.**  Whatever engine compiles the expressions,
a text in which no group is found is a pattern with groups switched on exactly if it is one with groups switched
off.  With groups switched on it matches what it matches with groups switched off, unless an unescaped `!(` occurs
in it; then it matches nothing.  So the two agree on all texts exactly if there is no such pair, or nothing to be
matched anyway. -/
theorem accepts_extglob_iff_not_excludes (engine : Engine) (t : Text) (free : groupFree t = true) :
    (compile? engine true t).isSome = (compile? engine false t).isSome ∧
    ∀ p q, compile? engine true t = some p → compile? engine false t = some q →
      (∀ s, p.accepts s = (q.accepts s && !excludes t)) ∧
      ((∀ s, p.accepts s = q.accepts s) ↔ excludes t = false ∨ ∀ s, q.accepts s = false) := by
  rw [compile?_true_of_groupFree engine free, compile?_of_not_excludes engine (Bool.false_and _)]
  cases engine (expression false .anything t) with
  | none => exact ⟨rfl, fun p q h => nomatch h⟩
  | some m =>
    refine ⟨rfl, fun p q hp hq => ?_⟩
    obtain rfl := Option.some.inj hp
    obtain rfl := Option.some.inj hq
    have agree (s : Text) : (Pattern.mk m (if excludes t then some m else none)).accepts s =
        ((Pattern.mk m none).accepts s && !excludes t) := by
      cases excludes t <;> simp [accepts]
    refine ⟨agree, ?_⟩
    simp only [agree]
    cases excludes t <;> simp

/-- At `[!(]` the theorem applies, and with groups switched on nothing is matched. -/
theorem accepts_noParenthesis_eq_false :
    groupFree noParenthesis = true ∧
    ∃ p q, ofText? true noParenthesis = some p ∧ ofText? false noParenthesis = some q ∧
      (∀ s, p.accepts s = false) ∧ ¬ ∀ s, p.accepts s = q.accepts s := by
  obtain ⟨m, on, off, matched⟩ := exists_compile?_noParenthesis
  obtain ⟨agree, same⟩ :=
    (accepts_extglob_iff_not_excludes Regex.engine noParenthesis groupFree_noParenthesis).2 _ _ on off
  refine ⟨groupFree_noParenthesis, _, _, on, off, fun s => ?_, fun always => ?_⟩
  · rw [agree s]
    exact Bool.and_false _
  · rcases same.1 always with found | nothing
    · cases found
    · have : accepts ⟨m, none⟩ ['a'] = true := by simp [accepts, matched]
      exact absurd this (by simp [nothing ['a']])

/-- No group is found in `[!(]`, and still the letter `a`, which it matches with groups switched off, is not
matched with groups switched on. -/
theorem extglob_changes_noParenthesis :
    groupFree noParenthesis = true ∧
    ∃ p q, ofText? true noParenthesis = some p ∧ ofText? false noParenthesis = some q ∧
      q.accepts ['a'] = true ∧ p.accepts ['a'] = false := by
  obtain ⟨m, on, off, matched⟩ := exists_compile?_noParenthesis
  refine ⟨groupFree_noParenthesis, _, _, on, off, ?_, ?_⟩
  · simp [accepts, matched]
  · simp [accepts, matched]

end ShellWord.Pattern
