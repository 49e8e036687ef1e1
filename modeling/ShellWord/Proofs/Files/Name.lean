import ShellWord.Files.Pathname

/-!
# Names in paths

What stands between two slashes of a path is a name.  Going down name by name, either with `Path.join` to the
place of a file or with `Globber.extend` to the form in which it was found, writes the names one after the other,
each after a slash (`below`), whatever the directory is called at which one starts.  Hence nothing is gained or lost
when a run of names is joined in one step (`foldl_join_cons`, `foldl_extend_root`), and a written path gives its
names back (`intercalate_inj`).
-/

namespace ShellWord

/-- What stands between the characters at which a text is cut has none of them. -/
theorem Text.eq_false_of_mem_splitAt {p : Char → Bool} {t piece : Text} (h : piece ∈ Text.splitAt p t) {c : Char}
    (hc : c ∈ piece) : p c = false := by
  induction t generalizing piece with
  | nil =>
      obtain rfl : piece = [] := by simpa [Text.splitAt] using h
      cases hc
  | cons d t ih =>
      by_cases cut : p d = true
      · rw [Text.splitAt, if_pos cut, List.mem_cons] at h
        rcases h with rfl | later
        · cases hc
        · exact ih later hc
      · rw [Text.splitAt, if_neg cut] at h
        cases rest : Text.splitAt p t with
        | nil =>
            obtain rfl : piece = [d] := by simpa [rest] using h
            obtain rfl : c = d := by simpa using hc
            simpa using cut
        | cons first pieces =>
            rw [rest] at h ih
            rcases List.mem_cons.1 h with rfl | later
            · rcases List.mem_cons.1 hc with rfl | inside
              · simpa using cut
              · exact ih List.mem_cons_self inside
            · exact ih (List.mem_cons_of_mem _ later) hc

theorem Text.splitAt_ne_nil (p : Char → Bool) (t : Text) : Text.splitAt p t ≠ [] := by
  fun_cases Text.splitAt p t with
  | case1 => exact List.cons_ne_nil _ _
  | case2 => exact List.cons_ne_nil _ _
  | case3 => exact List.cons_ne_nil _ _
  | case4 => exact List.cons_ne_nil _ _

theorem Text.splitAt_cons_of_not {p : Char → Bool} {c : Char} (h : p c = false) (t : Text) :
    Text.splitAt p (c :: t) = (Text.splitAt p t).modifyHead (c :: ·) := by
  rw [Text.splitAt, if_neg (by simp [h])]
  cases pieces : Text.splitAt p t with
  | nil => exact absurd pieces (Text.splitAt_ne_nil p t)
  | cons piece pieces => rfl

/-- A cut at the very end leaves an empty piece behind it. -/
theorem Text.splitAt_concat {p : Char → Bool} {c : Char} (h : p c = true) (t : Text) :
    Text.splitAt p (t ++ [c]) = Text.splitAt p t ++ [[]] := by
  induction t with
  | nil => simp [Text.splitAt, h]
  | cons d t ih =>
      by_cases cut : p d = true
      · rw [List.cons_append, Text.splitAt, if_pos cut, ih, Text.splitAt, if_pos cut, List.cons_append]
      · rw [Bool.not_eq_true] at cut
        obtain ⟨piece, pieces, rest⟩ := List.exists_cons_of_ne_nil (Text.splitAt_ne_nil p t)
        rw [List.cons_append, Text.splitAt_cons_of_not cut, ih, Text.splitAt_cons_of_not cut, rest]
        rfl

namespace Pattern

theorem unescape_cons {c : Char} (backslash : c ≠ '\\') (t : Text) : unescape (c :: t) = c :: unescape t := by
  rw [unescape]
  · rintro rfl
    exact absurd rfl backslash
  · rintro _ _ rfl
    exact absurd rfl backslash

/-- A character that opens no group does not matter in front. -/
theorem hasGroup_cons {c : Char} (backslash : c ≠ '\\') (mark : isGroupMark c = false) (t : Text) :
    hasGroup (c :: t) = hasGroup t := by
  cases t with
  | nil => rfl
  | cons d t =>
      rw [hasGroup, mark, Bool.false_and, Bool.false_or]
      rintro rfl
      exact absurd rfl backslash

theorem ne_backslash_of_not_isSpecial {c : Char} (ordinary : isSpecial c = false) : c ≠ '\\' := by
  rintro rfl
  exact absurd ordinary (by decide)

/-- The backslashes that escaping adds are removed again. -/
theorem unescape_escape (t : Text) : unescape (escape t) = t := by
  induction t with
  | nil => rfl
  | cons c t ih =>
      rw [escape_cons, escapeChar]
      cases special : isSpecial c with
      | true =>
          change unescape ('\\' :: c :: escape t) = c :: t
          rw [unescape, ih]
      | false =>
          change unescape (c :: escape t) = c :: t
          rw [unescape_cons (ne_backslash_of_not_isSpecial special), ih]

/-- An escaped text has no active characters. -/
theorem isActive_escape (extglob : Bool) (t : Text) : isActive extglob (escape t) = false := by
  have none : hasWildcard (escape t) = false ∧ hasGroup (escape t) = false := by
    induction t with
    | nil => exact ⟨rfl, rfl⟩
    | cons c t ih =>
        rw [escape_cons, escapeChar]
        cases special : isSpecial c with
        | true => exact ih
        | false =>
            have backslash := ne_backslash_of_not_isSpecial special
            simp only [isSpecial, Bool.or_eq_false_iff, beq_eq_false_iff_ne] at special
            show hasWildcard (c :: escape t) = false ∧ hasGroup (c :: escape t) = false
            rw [hasWildcard_cons backslash, hasGroup_cons backslash (by simp [isGroupMark, special])]
            exact ⟨by simp [special, ih.1], ih.2⟩
  rw [isActive, none.1, none.2, Bool.and_false, Bool.or_false]

/-- A text may be escaped before or after it is cut, if it is cut at no special character. -/
theorem splitAt_escape {p : Char → Bool} (plain : ∀ c, isSpecial c = true → p c = false) (t : Text) :
    Text.splitAt p (escape t) = (Text.splitAt p t).map escape := by
  induction t with
  | nil => rfl
  | cons c t ih =>
      obtain ⟨piece, pieces, rest⟩ := List.exists_cons_of_ne_nil (Text.splitAt_ne_nil p t)
      rw [rest, List.map_cons] at ih
      cases special : isSpecial c with
      | true =>
          have kept := plain c special
          have backslash : p '\\' = false := plain _ (by decide)
          simp [Text.splitAt_cons_of_not kept, Text.splitAt_cons_of_not backslash, escape_cons, escapeChar, special,
            rest, ih]
      | false =>
          by_cases cut : p c = true
          · simp [Text.splitAt, escape_cons, escapeChar, special, cut, rest, ih]
          · rw [Bool.not_eq_true] at cut
            simp [Text.splitAt_cons_of_not cut, escape_cons, escapeChar, special, rest, ih]

theorem unescape_ne_nil {t : Text} (h : t ≠ []) : unescape t ≠ [] := by
  fun_cases unescape t with
  | case1 => exact absurd rfl h
  | case2 => exact List.cons_ne_nil _ _
  | case3 => exact List.cons_ne_nil _ _
  | case4 => exact List.cons_ne_nil _ _

theorem mem_of_mem_unescape {c : Char} {t : Text} (h : c ∈ unescape t) : c ∈ t := by
  fun_induction unescape t with
  | case1 => exact h
  | case2 => exact h
  | case3 d t ih =>
      rcases List.mem_cons.1 h with rfl | later
      · simp
      · simp [ih later]
  | case4 d t _ _ ih =>
      rcases List.mem_cons.1 h with rfl | later
      · simp
      · simp [ih later]

end Pattern

namespace Path

/-- A name of a path is not empty and has no slash. -/
structure IsName (name : Text) : Prop where
  ne_nil : name ≠ []
  slash_notMem : '/' ∉ name

instance (name : Text) : Decidable (IsName name) :=
  decidable_of_iff (name ≠ [] ∧ '/' ∉ name) ⟨fun h => ⟨h.1, h.2⟩, fun h => ⟨h.1, h.2⟩⟩

/-- Names, each after a slash. -/
def below (names : List Text) : Text :=
  names.flatMap ('/' :: ·)

@[simp] theorem below_nil : below [] = [] := rfl

@[simp] theorem below_cons (name : Text) (names : List Text) :
    below (name :: names) = '/' :: (name ++ below names) := rfl

theorem intercalate_cons (name : Text) (names : List Text) :
    List.intercalate ['/'] (name :: names) = name ++ below names := by
  induction names generalizing name with
  | nil => simp
  | cons next names ih => simp [List.intercalate_cons_cons, ih]

/-- The names of a written path are what stands between its slashes. -/
theorem intercalate_inj {names names' : List Text} (hn : names ≠ []) (hn' : names' ≠ [])
    (good : ∀ name ∈ names, IsName name) (good' : ∀ name ∈ names', IsName name)
    (h : List.intercalate ['/'] names = List.intercalate ['/'] names') : names = names' := by
  rw [← List.splitOn_intercalate '/' (fun name mem => (good name mem).slash_notMem) hn, h,
    List.splitOn_intercalate '/' (fun name mem => (good' name mem).slash_notMem) hn']

/-! ### The place of a file -/

theorem IsName.isAbsolute_append {name : Text} (h : IsName name) (rest : Text) :
    isAbsolute (name ++ rest) = false := by
  cases name with
  | nil => exact absurd rfl h.ne_nil
  | cons c name =>
      have : c ≠ '/' := fun slash => h.slash_notMem (slash ▸ List.mem_cons_self)
      simpa [isAbsolute] using this

theorem IsName.isAbsolute {name : Text} (h : IsName name) : isAbsolute name = false := by
  simpa using h.isAbsolute_append []

theorem IsName.endsWithSlash_append {name : Text} (h : IsName name) (front : Text) :
    endsWithSlash (front ++ name) = false := by
  rw [endsWithSlash, List.getLast?_append]
  cases last : name.getLast? with
  | none => exact absurd (List.getLast?_eq_none_iff.1 last) h.ne_nil
  | some c =>
      have : c ≠ '/' := fun slash => h.slash_notMem (slash ▸ List.mem_of_getLast? last)
      simpa using this

theorem join_append {name : Text} (h : IsName name) (dir rest : Text) :
    join dir (name ++ rest) = join dir name ++ rest := by
  simp only [join, h.isAbsolute, h.isAbsolute_append, Bool.false_eq_true, if_false]
  split
  · rw [List.append_assoc]
  · rw [List.append_assoc, List.cons_append]

theorem join_ne_nil {name : Text} (h : IsName name) (dir : Text) : join dir name ≠ [] := by
  simp only [join, h.isAbsolute, Bool.false_eq_true, if_false]
  split
  · exact List.append_ne_nil_of_right_ne_nil dir h.ne_nil
  · exact List.append_ne_nil_of_right_ne_nil dir (List.cons_ne_nil _ _)

theorem endsWithSlash_join {name : Text} (h : IsName name) (dir : Text) :
    endsWithSlash (join dir name) = false := by
  simp only [join, h.isAbsolute, Bool.false_eq_true, if_false]
  split
  · exact h.endsWithSlash_append dir
  · rw [List.append_cons]
    exact h.endsWithSlash_append (dir ++ ['/'])

theorem foldl_join_below {names : List Text} (good : ∀ name ∈ names, IsName name) {dir : Text}
    (hdir : dir ≠ []) (slash : endsWithSlash dir = false) :
    names.foldl join dir = dir ++ below names := by
  induction names generalizing dir with
  | nil => simp
  | cons name names ih =>
      have hname := good name List.mem_cons_self
      have step : join dir name = dir ++ '/' :: name := by
        simp [join, hname.isAbsolute, slash, hdir]
      rw [List.foldl_cons, ih (fun n mem => good n (List.mem_cons_of_mem _ mem))
        (join_ne_nil hname dir) (endsWithSlash_join hname dir), step]
      simp

/-- Going down name by name is joining the names at once. -/
theorem foldl_join_cons {name : Text} {names : List Text} (hname : IsName name)
    (good : ∀ n ∈ names, IsName n) (dir : Text) :
    (name :: names).foldl join dir = join dir (List.intercalate ['/'] (name :: names)) := by
  rw [intercalate_cons, join_append hname, List.foldl_cons,
    foldl_join_below good (join_ne_nil hname dir) (endsWithSlash_join hname dir)]

end Path

namespace Globber

/-! ### The form in which a file was found -/

theorem foldl_extend_below {names : List Text} {found : Text} (hfound : found ≠ [])
    (root : found ≠ ['/']) : names.foldl extend found = found ++ Path.below names := by
  induction names generalizing found with
  | nil => simp
  | cons name names ih =>
      have step : extend found name = found ++ '/' :: name := by
        simp [extend, hfound, root]
      rw [List.foldl_cons, step, ih (by simp) ?_]
      · simp
      · intro slash
        have := congrArg List.length slash
        have := List.length_pos_iff.2 hfound
        simp only [List.length_append, List.length_cons, List.length_nil] at *
        omega

/-- What a path is written after: a slash if it is absolute. -/
def root (pattern : Text) : Text :=
  if Path.isAbsolute pattern then ['/'] else []

theorem foldl_extend_root {names : List Text} (good : ∀ name ∈ names, Path.IsName name) (pattern : Text) :
    names.foldl extend (root pattern) = root pattern ++ List.intercalate ['/'] names := by
  cases names with
  | nil => simp
  | cons name names =>
      have hname := good name List.mem_cons_self
      have notSlash : name ≠ ['/'] := fun slash => hname.slash_notMem (slash ▸ List.mem_cons_self)
      have step : extend (root pattern) name = root pattern ++ name := by
        unfold root
        split <;> rfl
      rw [List.foldl_cons, Path.intercalate_cons, step, ← List.append_assoc, foldl_extend_below]
      · exact List.append_ne_nil_of_right_ne_nil _ hname.ne_nil
      · unfold root
        split
        · simpa using hname.ne_nil
        · exact notSlash

/-! ### The parts of a pattern -/

theorem isName_of_mem_parts {pattern part : Text} (h : part ∈ parts pattern) : Path.IsName part := by
  simp only [parts, List.mem_filter, Bool.not_eq_true', List.isEmpty_eq_false_iff] at h
  refine ⟨h.2, fun slash => ?_⟩
  exact absurd (Text.eq_false_of_mem_splitAt h.1 slash) (by decide)

end Globber

theorem Path.IsName.unescape {part : Text} (h : Path.IsName part) : Path.IsName (Pattern.unescape part) where
  ne_nil := Pattern.unescape_ne_nil h.ne_nil
  slash_notMem slash := h.slash_notMem (Pattern.mem_of_mem_unescape slash)

end ShellWord
