import ShellWord.Proofs.FieldDecomposition
import ShellWord.Proofs.Simulation

/-!
# Joining parameters and splitting them again

`$*` joins the positional parameters with the first separator.  Splitting the joined text gives the parameters
back, if none of them has a separator in it, the last one is not empty, and none at all is empty where the first
separator is soft.  The parameters and the separators between them are a decomposition of the joined text
(`Ifs.cut_joined`), and it has only one.
-/

namespace ShellWord

namespace Ifs

/-! ### The decomposition of a joined text -/

/-- Fields with a character between them. -/
def joined (c : Char) : List Text → List Delimited
  | [] => []
  | [field] => [⟨field, []⟩]
  | field :: next :: fields => ⟨field, [c]⟩ :: joined c (next :: fields)

theorem source_joined (c : Char) (fields : List Text) :
    source (joined c fields) = List.intercalate [c] fields := by
  fun_induction joined c fields with
  | case1 => rfl
  | case2 field => simp
  | case3 field next fields ih =>
      rw [source_cons, ih, List.intercalate_cons_cons]
      simp

theorem map_field_joined (c : Char) (fields : List Text) : (joined c fields).map Delimited.field = fields := by
  fun_induction joined c fields with
  | case1 => rfl
  | case2 field => rfl
  | case3 field next fields ih => rw [List.map_cons, ih]

/-- Fields can be told apart when the character `c` stands between them: they have no separators, the last one is
not empty, and none is empty if `c` is soft. -/
structure Joinable (ifs : Ifs) (c : Char) (fields : List Text) : Prop where
  plain : ∀ field ∈ fields, ∀ d ∈ field, ifs.isSeparator d = false
  last : ∀ field ∈ fields.getLast?, field ≠ []
  nonempty : ifs.isSoft c = true → ∀ field ∈ fields, field ≠ []

variable {ifs : Ifs} {c : Char} {field next : Text} {fields : List Text}

theorem Joinable.tail (h : ifs.Joinable c (field :: next :: fields)) : ifs.Joinable c (next :: fields) where
  plain other mem := h.plain other (List.mem_cons_of_mem _ mem)
  last other mem := h.last other (by rwa [List.getLast?_cons_cons])
  nonempty soft other mem := h.nonempty soft other (List.mem_cons_of_mem _ mem)

/-- A joined text begins with a character of its first field, or with a separator that is not soft. -/
theorem Joinable.head? (h : ifs.Joinable c (field :: fields)) :
    ∀ d ∈ (source (joined c (field :: fields))).head?,
      ifs.isSeparator d = false ∨ d = c ∧ ifs.isSoft c = false := by
  intro d mem
  cases field with
  | cons e rest =>
      left
      obtain rfl : e = d := by cases fields <;> simpa [joined] using mem
      exact h.plain (e :: rest) List.mem_cons_self e List.mem_cons_self
  | nil =>
      right
      cases fields with
      | nil => exact absurd rfl (h.last [] rfl)
      | cons next fields =>
          refine ⟨by simpa [joined] using mem.symm, ?_⟩
          by_contra soft
          exact h.nonempty (by simpa using soft) [] List.mem_cons_self rfl

/-- So it has no soft separators in front. -/
theorem Joinable.isSoft_head? (h : ifs.Joinable c fields) :
    ∀ d ∈ (source (joined c fields)).head?, ifs.isSoft d = false := by
  intro d mem
  cases fields with
  | nil => simp [joined] at mem
  | cons field fields =>
      rcases h.head? d mem with plain | ⟨rfl, hard⟩
      · exact isSoft_of_not_isSeparator plain
      · exact hard

/-- The character between two fields is a delimiter. -/
theorem Joinable.isDelimiter (separator : ifs.isSeparator c = true)
    (h : ifs.Joinable c (field :: next :: fields)) (before : Text) :
    ifs.IsDelimiter (before ++ field) [c] (source (joined c (next :: fields))) := by
  cases soft : ifs.isSoft c with
  | true =>
      have ne : field ≠ [] := h.nonempty soft field List.mem_cons_self
      refine .soft (List.cons_ne_nil _ _) (by simpa using soft) (fun d mem => ?_) fun d mem => ?_
      · exact h.plain field List.mem_cons_self d (Text.mem_of_getLast?_append ne mem)
      · rcases h.tail.head? d mem with plain | ⟨-, hard⟩
        · exact plain
        · rw [soft] at hard
          cases hard
  | false =>
      exact .hard (s := []) (by simp) (isHard_of_not_isSoft separator soft) (by simp) h.tail.isSoft_head?

/-- **Joined fields are cut where they were joined.** -/
theorem cut_joined (separator : ifs.isSeparator c = true) (h : ifs.Joinable c fields) (before : Text)
    (front : ∀ d ∈ before.getLast?, ifs.isSeparator d = true) : ifs.Cut before (joined c fields) := by
  fun_induction joined c fields generalizing before with
  | case1 => exact .nil
  | case2 field =>
      exact .last (h.last field rfl) ⟨h.plain field List.mem_cons_self, front, by simp⟩
  | case3 field next fields ih =>
      refine .cons ⟨h.plain field List.mem_cons_self, front, ?_⟩ (h.isDelimiter separator before)
        (ih h.tail _ ?_)
      · simpa using separator
      · simpa using separator

theorem words_split_intercalate (separator : ifs.isSeparator c = true) (h : ifs.Joinable c fields) :
    (ifs.split (List.intercalate [c] fields)).words = fields := by
  let d : ifs.Decomposition (List.intercalate [c] fields) :=
    ⟨[], joined c fields, source_joined c fields, by simp, h.isSoft_head?, cut_joined separator h [] (by simp)⟩
  rw [d.split_eq]
  exact map_field_joined c fields

end Ifs

/-! ### Positional parameters -/

/-- The first separator is a separator, and `IFS` has one unless it is empty. -/
theorem Shell.exists_separator {sh : Shell} (h : sh.vars.get? "IFS".toList ≠ some []) :
    ∃ c, sh.separator = [c] ∧ sh.ifs.isSeparator c = true := by
  have ne : sh.ifs.chars ≠ [] := by
    unfold Shell.ifs
    cases value : sh.vars.get? "IFS".toList with
    | none => simp [Ifs.standard]
    | some chars =>
        rintro rfl
        exact h value
  obtain ⟨c, rest, chars⟩ := List.exists_cons_of_ne_nil ne
  refine ⟨c, by rw [Shell.separator, chars]; rfl, by simp [Ifs.isSeparator, chars]⟩

/-- **Splitting undoes joining.**  Let `IFS` be unset or not empty.  If no positional parameter has a separator in
it, the last one is not empty, and none is empty where the first separator is a blank, then the fields of `$*` are
the positional parameters. -/
theorem words_star_eq_positional (sh : Shell) (set : sh.vars.get? "IFS".toList ≠ some [])
    (plain : ∀ param ∈ sh.positional, ∀ c ∈ param, sh.ifs.isSeparator c = false)
    (last : ∀ param ∈ sh.positional.getLast?, param ≠ [])
    (nonempty : ∀ c ∈ sh.separator, Ifs.isIfsBlank c = true → ∀ param ∈ sh.positional, param ≠ []) :
    ∃ text, sh.special? ['*'] = some text ∧ sh.ifs.words text = sh.positional := by
  obtain ⟨c, first, separator⟩ := Shell.exists_separator set
  have joinable : sh.ifs.Joinable c sh.positional := by
    refine ⟨plain, last, fun soft => nonempty c ?_ (Bool.and_eq_true_iff.1 soft).2⟩
    rw [first]
    exact List.mem_singleton_self c
  have notEmpty : sh.ifs.chars.isEmpty = false := by
    rw [List.isEmpty_eq_false_iff]
    intro none
    simp [Ifs.isSeparator, none] at separator
  refine ⟨_, rfl, ?_⟩
  rw [Ifs.words, notEmpty, first]
  exact Ifs.words_split_intercalate separator joinable

/-- A shell whose separators are a colon and a blank, with empty parameters in front and in the middle. -/
def Shell.colonFirst : Shell :=
  { Session.blank.shell with
    vars := ⟨[("IFS".toList, [':', ' '])]⟩
    positional := [[], ['a'], [], ['é', 'b']] }

/-- The statement at parameters of which the first and the third are empty. -/
theorem words_star_colonFirst :
    ∃ text, Shell.colonFirst.special? ['*'] = some text ∧
      Shell.colonFirst.ifs.words text = [[], ['a'], [], ['é', 'b']] := by
  have separators : Shell.colonFirst.ifs = ⟨[':', ' ']⟩ := rfl
  refine words_star_eq_positional .colonFirst (by decide) ?_ (by decide) ?_
  · rw [separators]
    simp [Shell.colonFirst, Ifs.isSeparator]
  · rw [Shell.separator, separators]
    simp [Ifs.isIfsBlank]

end ShellWord
