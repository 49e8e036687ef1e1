import Mathlib.Data.List.Chain
import ShellWord.Pattern.Escape
import ShellWord.Proofs.FieldPiece

/-!
# Which characters of a pattern are active

A pattern is read from left to right, and a backslash takes the meaning from whatever comes next.  The
pattern of a field is put together from pieces, and only some of them were written with this rule in
mind: quoted text and literals put a backslash of their own in front of what has to be literal (a mark
`Mark.escaped`), while the results of unquoted expansions go in as they are (`Mark.bare`).  A bare backslash
at the end of one piece meets the backslash of an escaped character in the next; the two make a pair, and
the character behind them is active after all.

`isActive_iff_slips` says that this is the only way: where no bare character is a wildcard, and no
parenthesis stands without a backslash if groups are switched on, the pattern is active exactly if some
escaped wildcard stands right behind a run of backslashes of which an odd number are bare (`Slips`).
Groups need nothing like it.  An opener is a character and the parenthesis next to it, and no reading of
the backslashes takes away the one that stands between the two (`hasGroup_of_parenGuarded`).
-/

namespace ShellWord

/-- A character of a pattern: as it is, or with a backslash in front. -/
inductive Mark where
  | bare (c : Char)
  | escaped (c : Char)
  deriving DecidableEq, Repr

namespace Mark

/-- How the character is written. -/
def pattern : Mark → Text
  | .bare c => [c]
  | .escaped c => ['\\', c]

/-- The character is a backslash. -/
def isBackslash : Mark → Bool
  | .bare c => c == '\\'
  | .escaped c => c == '\\'

/-- The marks of a pattern that was written in one piece. -/
def ofPattern : Text → List Mark
  | [] => []
  | ['\\'] => [.bare '\\']
  | '\\' :: c :: t => .escaped c :: ofPattern t
  | c :: t => .bare c :: ofPattern t

theorem flatMap_pattern_ofPattern (t : Text) : (ofPattern t).flatMap pattern = t := by
  fun_induction ofPattern t with
  | case1 => rfl
  | case2 => rfl
  | case3 c t ih => exact congrArg ('\\' :: c :: ·) ih
  | case4 c t _ _ ih => exact congrArg (c :: ·) ih

theorem ofPattern_cons {c : Char} (h : c ≠ '\\') (t : Text) :
    ofPattern (c :: t) = .bare c :: ofPattern t := by
  rw [ofPattern]
  · rintro rfl
    exact absurd rfl h
  · rintro _ _ rfl
    exact absurd rfl h

end Mark

/-- The marks of a piece: a fixed content is read as a pattern, a result goes in as it is. -/
def FieldPiece.marks : FieldPiece → List Mark
  | .fixed literal => Mark.ofPattern literal.pattern
  | .word text => text.map .bare

/-- The pattern of a field is that of the marks of its pieces. -/
theorem pattern_joinPieces_eq_marks (pieces : List FieldPiece) :
    (joinPieces pieces).pattern = (pieces.flatMap FieldPiece.marks).flatMap Mark.pattern := by
  rw [pattern_joinPieces, List.flatMap_assoc]
  congr 1
  funext piece
  cases piece with
  | fixed literal => exact (Mark.flatMap_pattern_ofPattern _).symm
  | word text =>
      change text = (text.map Mark.bare).flatMap Mark.pattern
      induction text with
      | nil => rfl
      | cons c text ih => exact congrArg (c :: ·) ih

/-- The characters that make a pattern active on their own. -/
def isWildcard (c : Char) : Bool :=
  c == '*' || c == '?' || c == '['

/-! ### Runs of backslashes -/

/-- After these marks the next character of the pattern loses its meaning: they end with a run of
backslashes of which an odd number are bare. -/
def Dangling (marks : List Mark) : Prop :=
  ((marks.reverse.takeWhile Mark.isBackslash).count (.bare '\\')) % 2 = 1

instance (marks : List Mark) : Decidable (Dangling marks) :=
  inferInstanceAs (Decidable (_ = _))

/-- An escaped wildcard loses its backslash to a run of backslashes before it. -/
def Slips (marks : List Mark) : Prop :=
  ∃ before c after, marks = before ++ .escaped c :: after ∧ isWildcard c = true ∧ Dangling before

theorem not_dangling_nil : ¬ Dangling [] := by
  decide

theorem dangling_concat_bare_backslash (marks : List Mark) :
    Dangling (marks ++ [.bare '\\']) ↔ ¬ Dangling marks := by
  simp only [Dangling, List.reverse_append, List.reverse_singleton, List.singleton_append,
    Mark.isBackslash, List.takeWhile_cons, beq_self_eq_true, if_true, List.count_cons_self]
  omega

theorem dangling_concat_escaped_backslash (marks : List Mark) :
    Dangling (marks ++ [.escaped '\\']) ↔ Dangling marks := by
  simp [Dangling, Mark.isBackslash]

theorem not_dangling_concat {mark : Mark} (h : mark.isBackslash = false) (marks : List Mark) :
    ¬ Dangling (marks ++ [mark]) := by
  simp [Dangling, h]

/-- Without bare backslashes nothing slips. -/
theorem not_slips_of_bare_ne_backslash {marks : List Mark} (h : .bare '\\' ∉ marks) :
    ¬ Slips marks := by
  rintro ⟨before, c, after, rfl, -, dangling⟩
  have none : ((before.reverse.takeWhile Mark.isBackslash).count (.bare '\\')) = 0 := by
    refine List.count_eq_zero.2 fun mem => h ?_
    have := List.mem_reverse.1 ((List.takeWhile_sublist _).subset mem)
    exact List.mem_append_left _ this
  rw [Dangling, none] at dangling
  cases dangling

/-! ### Wildcards -/

private theorem hasWildcard_backslash_cons (t : Text) :
    Pattern.hasWildcard ('\\' :: t) = Pattern.hasWildcard (t.drop 1) := by
  cases t <;> rfl

/-- What is read of a text behind these marks: if they end in a dangling backslash, it takes the first
character. -/
def unread (before : List Mark) (t : Text) : Text :=
  if Dangling before then t.drop 1 else t

theorem unread_of_dangling {before : List Mark} (h : Dangling before) (t : Text) :
    unread before t = t.drop 1 :=
  if_pos h

theorem unread_of_not_dangling {before : List Mark} (h : ¬ Dangling before) (t : Text) :
    unread before t = t :=
  if_neg h

/-- Some escaped wildcard among `marks` loses its backslash, with `before` in front of them. -/
def SlipsAfter (before marks : List Mark) : Prop :=
  ∃ between c after, marks = between ++ .escaped c :: after ∧ isWildcard c = true ∧
    Dangling (before ++ between)

theorem not_slipsAfter_nil (before : List Mark) : ¬ SlipsAfter before [] := by
  rintro ⟨between, c, after, h, -⟩
  simp at h

theorem slipsAfter_cons (before : List Mark) (mark : Mark) (marks : List Mark) :
    SlipsAfter before (mark :: marks) ↔
      (∃ c, mark = .escaped c ∧ isWildcard c = true ∧ Dangling before) ∨
        SlipsAfter (before ++ [mark]) marks := by
  constructor
  · rintro ⟨between, c, after, h, wildcard, dangling⟩
    cases between with
    | nil =>
        obtain ⟨rfl, -⟩ := List.cons.inj h
        exact .inl ⟨c, rfl, wildcard, by simpa using dangling⟩
    | cons first between =>
        obtain ⟨rfl, rfl⟩ := List.cons.inj h
        exact .inr ⟨between, c, after, rfl, wildcard, by simpa using dangling⟩
  · rintro (⟨c, rfl, wildcard, dangling⟩ | ⟨between, c, after, rfl, wildcard, dangling⟩)
    · exact ⟨[], c, marks, rfl, wildcard, by simpa using dangling⟩
    · exact ⟨mark :: between, c, after, rfl, wildcard, by simpa using dangling⟩

/-- One mark is read.  Either it is an escaped wildcard that the marks before it have laid open, or reading
goes on behind it. -/
theorem hasWildcard_unread_cons (before : List Mark) {mark : Mark} (t : Text)
    (h : ∀ c, mark = .bare c → isWildcard c = false) :
    Pattern.hasWildcard (unread before (mark.pattern ++ t)) = true ↔
      (∃ c, mark = .escaped c ∧ isWildcard c = true ∧ Dangling before) ∨
        Pattern.hasWildcard (unread (before ++ [mark]) t) = true := by
  -- a backslash decides what the next mark meets: a bare one flips it, an escaped one keeps it, and any
  -- other character settles that nothing dangles
  cases mark with
  | bare c =>
      have hc := h c rfl
      by_cases backslash : c = '\\'
      · subst backslash
        have flips := dangling_concat_bare_backslash before
        by_cases d : Dangling before
        · rw [unread_of_dangling d, unread_of_not_dangling fun d' => flips.1 d' d]
          simp [Mark.pattern]
        · rw [unread_of_not_dangling d, unread_of_dangling (flips.2 d)]
          simp [Mark.pattern, hasWildcard_backslash_cons]
      · have ends : ¬ Dangling (before ++ [.bare c]) :=
          not_dangling_concat (by simpa [Mark.isBackslash] using backslash) before
        rw [unread_of_not_dangling ends]
        by_cases d : Dangling before
        · rw [unread_of_dangling d]
          simp [Mark.pattern]
        · rw [unread_of_not_dangling d]
          rw [isWildcard] at hc
          simp [Mark.pattern, Pattern.hasWildcard_cons backslash, hc]
  | escaped c =>
      by_cases backslash : c = '\\'
      · subst backslash
        have keeps := dangling_concat_escaped_backslash before
        by_cases d : Dangling before
        · rw [unread_of_dangling d, unread_of_dangling (keeps.2 d)]
          simp [Mark.pattern, hasWildcard_backslash_cons, isWildcard]
        · rw [unread_of_not_dangling d, unread_of_not_dangling fun d' => d (keeps.1 d')]
          simp [Mark.pattern, hasWildcard_backslash_cons, isWildcard]
      · have ends : ¬ Dangling (before ++ [.escaped c]) :=
          not_dangling_concat (by simpa [Mark.isBackslash] using backslash) before
        rw [unread_of_not_dangling ends]
        by_cases d : Dangling before
        · rw [unread_of_dangling d]
          simp [Mark.pattern, Pattern.hasWildcard_cons backslash, isWildcard, d]
        · rw [unread_of_not_dangling d]
          simp [Mark.pattern, hasWildcard_backslash_cons, d]

theorem hasWildcard_unread_iff (before marks : List Mark)
    (h : ∀ c, .bare c ∈ marks → isWildcard c = false) :
    Pattern.hasWildcard (unread before (marks.flatMap Mark.pattern)) = true ↔
      SlipsAfter before marks := by
  induction marks generalizing before with
  | nil =>
      have nothing : Pattern.hasWildcard (unread before []) = false := by
        unfold unread
        split <;> rfl
      rw [List.flatMap_nil, nothing]
      exact iff_of_false (by decide) (not_slipsAfter_nil before)
  | cons mark marks ih =>
      have head : ∀ c, mark = .bare c → isWildcard c = false := by
        rintro c rfl
        exact h c List.mem_cons_self
      rw [List.flatMap_cons, hasWildcard_unread_cons before _ head, slipsAfter_cons,
        ih (before ++ [mark]) fun c mem => h c (List.mem_cons_of_mem _ mem)]

/-- Where no bare character is a wildcard, wildcards are active only by slipping. -/
theorem hasWildcard_iff_slips {marks : List Mark} (h : ∀ c, .bare c ∈ marks → isWildcard c = false) :
    Pattern.hasWildcard (marks.flatMap Mark.pattern) = true ↔ Slips marks := by
  have := hasWildcard_unread_iff [] marks h
  rwa [unread_of_not_dangling not_dangling_nil] at this

/-! ### Groups -/

/-- Every opening parenthesis of the text stands right behind a backslash. -/
def ParenGuarded (t : Text) : Prop :=
  t.head? ≠ some '(' ∧ t.IsChain fun a b => b = '(' → a = '\\'

namespace ParenGuarded

theorem nil : ParenGuarded [] :=
  ⟨by simp, .nil⟩

theorem of_not_mem {t : Text} (h : '(' ∉ t) : ParenGuarded t := by
  refine ⟨fun first => h (List.mem_of_mem_head? first), ?_⟩
  induction t with
  | nil => exact .nil
  | cons a t ih =>
      have rest := ih fun mem => h (List.mem_cons_of_mem _ mem)
      refine List.isChain_cons.2 ⟨fun b first paren => ?_, rest⟩
      subst paren
      exact absurd (List.mem_cons_of_mem _ (List.mem_of_mem_head? first)) h

theorem append {s t : Text} (hs : ParenGuarded s) (ht : ParenGuarded t) : ParenGuarded (s ++ t) := by
  refine ⟨?_, List.isChain_append.2 ⟨hs.2, ht.2, fun a _ b first paren => ?_⟩⟩
  · cases s with
    | nil => exact ht.1
    | cons a s => exact hs.1
  · subst paren
    exact absurd first ht.1

theorem flatMap {α : Type} {f : α → Text} {l : List α} (h : ∀ a ∈ l, ParenGuarded (f a)) :
    ParenGuarded (l.flatMap f) := by
  induction l with
  | nil => exact .nil
  | cons a l ih =>
      exact (h a List.mem_cons_self).append (ih fun b mem => h b (List.mem_cons_of_mem _ mem))

end ParenGuarded

/-- Behind a backslash a parenthesis opens no group. -/
theorem hasGroup_of_parenGuarded {t : Text} (h : ParenGuarded t) : Pattern.hasGroup t = false := by
  -- only the chain is kept under the induction: behind a backslash the text may begin with a parenthesis
  have chain := h.2
  clear h
  fun_induction Pattern.hasGroup t with
  | case1 => rfl
  | case2 => rfl
  | case3 c t ih => exact ih (List.isChain_cons.1 (List.isChain_cons.1 chain).2).2
  | case4 c d t backslash ih =>
      obtain ⟨next, rest⟩ := List.isChain_cons.1 chain
      rw [ih rest, Bool.or_false, Bool.and_eq_false_iff]
      by_cases paren : d = '('
      · have : c = '\\' := next d rfl paren
        exact .inl (by rw [this]; rfl)
      · exact .inr (by simpa using paren)

/-! ### Activity -/

/-- **A pattern whose bare characters are harmless is active exactly if a wildcard slips.** -/
theorem isActive_iff_slips {extglob : Bool} {marks : List Mark}
    (wildcards : ∀ c, .bare c ∈ marks → isWildcard c = false)
    (groups : extglob = true → ParenGuarded (marks.flatMap Mark.pattern)) :
    Pattern.isActive extglob (marks.flatMap Mark.pattern) = true ↔ Slips marks := by
  have noGroup : (extglob && Pattern.hasGroup (marks.flatMap Mark.pattern)) = false := by
    cases extglob with
    | false => rfl
    | true => exact hasGroup_of_parenGuarded (groups rfl)
  rw [Pattern.isActive, noGroup, Bool.or_false]
  exact hasWildcard_iff_slips wildcards

end ShellWord
