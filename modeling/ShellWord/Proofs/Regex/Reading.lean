import ShellWord.Proofs.Regex.Syntax

/-!
# Reading expressions back

The reader of `ShellWord.Regex.Reader` takes the notation of `Regex.Reads` for what it denotes, and it
refuses the texts of `Regex.Faulty`.  Both are proved by induction on how the text is written, for every
level: each reader takes its part off the front of the text and leaves what follows, provided what
follows cannot be taken for a part of it.  The numbers that bound the readers are large enough as they
are counted in characters.

So `Regex.engine` is a standard engine, with the limit that `Regex.isShallow` states.

## Main results

* `Regex.Reads.read?`: a text that denotes an expression is read as this expression
* `Regex.Faulty.read?`: a text with a faulty class is not read
* `Regex.standard_engine`: the engine of `Regex` is standard
* `Regex.standard_unlimited`: without the limit it compiles whatever denotes an expression
-/

namespace ShellWord.Regex

/-! ### Members of classes -/

/-- A member is taken for the character it stands for. -/
theorem ClassChar.member? {u : Text} {c : Char} (h : ClassChar u c) (rest : Text) :
    member? (u ++ rest) = some (c, rest) := by
  cases h with
  | plain h =>
    rw [List.singleton_append, Regex.member?]
    rintro rfl
    exact absurd h (by decide)
  | escaped h =>
    simp only [isClassSpecial, List.contains_eq_mem, List.mem_cons, List.not_mem_nil, or_false,
      decide_eq_true_eq] at h
    rcases h with rfl | rfl | rfl | rfl | rfl <;> rfl
  | control h =>
    simp only [controls, List.mem_cons, Prod.mk.injEq, List.not_mem_nil, or_false] at h
    rcases h with ⟨rfl, rfl⟩ | ⟨rfl, rfl⟩ | ⟨rfl, rfl⟩ | ⟨rfl, rfl⟩ | ⟨rfl, rfl⟩ | ⟨rfl, rfl⟩ <;> rfl
  | @hexadecimal a b n h =>
    change (Numeral.natural? 16 [a, b]).map _ = _
    rw [h]
    rfl

/-- A member does not begin with what ends a class, opens one, negates one or makes a range. -/
theorem ClassChar.front {u : Text} {c : Char} (h : ClassChar u c) :
    ∃ d v, u = d :: v ∧ d ≠ ']' ∧ d ≠ '[' ∧ d ≠ '^' ∧ d ≠ '-' := by
  cases h with
  | plain h =>
    simp only [isClassSpecial, List.contains_eq_mem, List.mem_cons, List.not_mem_nil, or_false,
      decide_eq_false_iff_not, not_or] at h
    exact ⟨c, [], rfl, h.2.1, h.1, h.2.2.2.1, h.2.2.2.2⟩
  | escaped | control | hexadecimal => exact ⟨'\\', _, rfl, by decide⟩

/-- Only a bare member begins a doubled mark. -/
theorem ClassChar.eq_of_isDoubled {u v : Text} {c : Char} (h : ClassChar u c)
    (doubled : isDoubled (u ++ v) = true) :
    u = [c] ∧ v.head? = some c ∧ (c = '&' ∨ c = '~') := by
  cases h with
  | plain h =>
    have hyphen : c ≠ '-' := by
      rintro rfl
      exact absurd h (by decide)
    cases v with
    | nil => cases doubled
    | cons d v =>
      simp only [List.singleton_append, isDoubled, Bool.and_eq_true, beq_iff_eq, Bool.or_eq_true,
        hyphen, or_false] at doubled
      exact ⟨rfl, by rw [doubled.1, List.head?_cons], doubled.2⟩
  | escaped | control | hexadecimal => simp [isDoubled] at doubled

theorem isDoubled_append_close (t rest : Text) : isDoubled (t ++ ']' :: rest) = isDoubled t := by
  match t with
  | [] => cases rest <;> simp [isDoubled]
  | [c] =>
    simp only [List.singleton_append, isDoubled, Bool.and_eq_false_imp, beq_iff_eq]
    rintro rfl
    rfl
  | c :: d :: t => rfl

theorem head?_append_close_ne {t : Text} (h : t.head? ≠ some '-') (rest : Text) :
    (t ++ ']' :: rest).head? ≠ some '-' := by
  cases t with
  | nil => simp
  | cons => exact h

/-- A fault stays one when the class is closed behind it. -/
theorem ClassFault.append_close {t : Text} (h : ClassFault t) (rest : Text) :
    ClassFault (t ++ ']' :: rest) := by
  induction h with
  | doubled h => exact .doubled ((isDoubled_append_close _ rest).trans h)
  | disordered lower upper h => simpa using ClassFault.disordered lower upper h
  | char member single undoubled _ ih =>
    rw [← isDoubled_append_close _ rest, List.append_assoc] at undoubled
    rw [List.append_assoc]
    exact .char member (head?_append_close_ne single rest) undoubled ih
  | range lower upper ordered _ ih => simpa using ClassFault.range lower upper ordered ih
  | hyphen single _ ih => exact .hyphen (head?_append_close_ne single rest) ih

/-- Where no hyphen follows there is no range. -/
theorem rangeEnd?_eq_none {t : Text} (h : t.head? ≠ some '-') : rangeEnd? t = none := by
  unfold rangeEnd?
  split
  · exact absurd rfl h
  · rfl

theorem rangeEnd?_hyphen {w : Text} {c : Char} (h : ClassChar w c) (t : Text) :
    rangeEnd? ('-' :: (w ++ t)) = some (w ++ t) := by
  obtain ⟨d, v, rfl, close, -, -, hyphen⟩ := h.front
  simp [rangeEnd?, close, hyphen]

/-! ### Classes -/

/-- A member that is no end of a range. -/
theorem members_char {t rest : Text} {c : Char} (close : t.head? ≠ some ']')
    (opening : t.head? ≠ some '[') (undoubled : isDoubled t = false)
    (member : member? t = some (c, rest)) (single : rest.head? ≠ some '-') (bound : Nat) :
    members (bound + 1) t = Text.extend (c, c) (members bound rest) := by
  rw [members, if_neg (by simp [undoubled]), member]
  · simp only [rangeEnd?_eq_none single]
  · rintro t rfl
    exact close rfl
  · rintro t rfl
    exact opening rfl

/-- Two members with a hyphen between them. -/
theorem members_range {u w : Text} {low high : Char} (lower : ClassChar u low)
    (upper : ClassChar w high) (rest : Text) (bound : Nat) :
    members (bound + 1) (u ++ '-' :: (w ++ rest)) =
      if low ≤ high then Text.extend (low, high) (members bound rest) else none := by
  have undoubled : ¬ isDoubled (u ++ '-' :: (w ++ rest)) = true := by
    intro doubled
    obtain ⟨-, same, rfl | rfl⟩ := lower.eq_of_isDoubled doubled <;> cases same
  obtain ⟨d, v, rfl, close, opening, -, -⟩ := lower.front
  rw [members, if_neg undoubled, lower.member?]
  · simp only [rangeEnd?_hyphen upper, upper.member?]
  · rintro t same
    exact close (List.cons.inj same).1
  · rintro t same
    exact opening (List.cons.inj same).1

theorem ClassChar.members {u v : Text} {c : Char} (h : ClassChar u c)
    (single : v.head? ≠ some '-') (undoubled : isDoubled (u ++ v) = false) (bound : Nat) :
    Regex.members (bound + 1) (u ++ v) = Text.extend (c, c) (Regex.members bound v) := by
  obtain ⟨d, w, same, close, opening, -, -⟩ := h.front
  refine members_char ?_ ?_ undoubled (h.member? v) single bound
  · simp [same, close]
  · simp [same, opening]

theorem members_hyphen {v : Text} (single : v.head? ≠ some '-') (bound : Nat) :
    members (bound + 1) ('-' :: v) = Text.extend ('-', '-') (members bound v) := by
  refine members_char (by simp) (by simp) ?_ rfl single bound
  cases v with
  | nil => rfl
  | cons d v =>
    have : '-' ≠ d := fun same => single (congrArg some same.symm)
    simp [isDoubled, this]

/-- The members of a class are read up to its closing bracket. -/
theorem ClassBody.members {body : Text} {ranges : List (Char × Char)} (h : ClassBody body ranges)
    {bound : Nat} (enough : body.length < bound) (rest : Text) :
    Regex.members bound (body ++ ']' :: rest) = some (ranges, rest) := by
  obtain ⟨bound, rfl⟩ := Nat.exists_eq_add_one_of_ne_zero (Nat.ne_zero_of_lt enough)
  induction h generalizing bound with
  | nil => rfl
  | @char u v c ranges member single undoubled _ ih =>
    obtain ⟨d, w, rfl, -⟩ := member.front
    simp only [List.cons_append, List.length_cons, List.length_append] at enough
    obtain ⟨bound, rfl⟩ := Nat.exists_eq_add_one_of_ne_zero (n := bound) (by omega)
    rw [← isDoubled_append_close _ rest, List.append_assoc] at undoubled
    rw [List.append_assoc, member.members (head?_append_close_ne single rest) undoubled, ih bound (by omega)]
    rfl
  | @range u w v low high ranges lower upper ordered _ ih =>
    simp only [List.length_append, List.length_cons] at enough
    obtain ⟨bound, rfl⟩ := Nat.exists_eq_add_one_of_ne_zero (n := bound) (by omega)
    rw [List.append_assoc, List.cons_append, List.append_assoc, members_range lower upper,
      if_pos ordered, ih bound (by omega)]
    rfl
  | @hyphen v ranges single _ ih =>
    simp only [List.length_cons] at enough
    obtain ⟨bound, rfl⟩ := Nat.exists_eq_add_one_of_ne_zero (n := bound) (by omega)
    rw [List.cons_append, members_hyphen (head?_append_close_ne single rest), ih bound (by omega)]
    rfl

/-- A faulty class is not read, however many members it may have. -/
theorem ClassFault.members {t : Text} (h : ClassFault t) (bound : Nat) :
    Regex.members bound t = none := by
  induction h generalizing bound with
  | @doubled t h =>
    cases bound with
    | zero => rfl
    | succ bound =>
      rw [Regex.members, if_pos h]
      · rintro t rfl
        cases t <;> simp [isDoubled] at h
      · rintro t rfl
        cases t <;> simp [isDoubled] at h
  | disordered lower upper h =>
    cases bound with
    | zero => rfl
    | succ bound => rw [members_range lower upper, if_neg (Char.not_le.2 h)]
  | char member single undoubled _ ih =>
    cases bound with
    | zero => rfl
    | succ bound => rw [member.members single undoubled, ih]; rfl
  | range lower upper ordered _ ih =>
    cases bound with
    | zero => rfl
    | succ bound => rw [members_range lower upper, if_pos ordered, ih]; rfl
  | hyphen single _ ih =>
    cases bound with
    | zero => rfl
    | succ bound => rw [members_hyphen single, ih]; rfl

/-- Behind its opening a class is not taken for a negated one, and has no leading hyphens or bracket. -/
private theorem class?_negation {d : Char} (close : d ≠ ']') (caret : d ≠ '^') (hyphen : d ≠ '-')
    (v : Text) (negated : Bool) :
    class? (negation negated ++ d :: v) =
      (members ((d :: v).length + 1) (d :: v)).map fun (ranges, rest) =>
        (⟨negated, ranges⟩, rest) := by
  have front : leading (d :: v) = ([], d :: v) := by
    simp [leading, close, hyphen]
  have same : listed negated (d :: v) =
      (members ((d :: v).length + 1) (d :: v)).map fun (ranges, rest) => (⟨negated, ranges⟩, rest) := by
    rw [listed, front]
    rfl
  cases negated with
  | true => exact same
  | false =>
    rw [← same]
    simp [negation, class?, caret]

/-- A class is read as the set of its ranges. -/
theorem ClassBody.class? {body : Text} {ranges : List (Char × Char)} (h : ClassBody body ranges)
    (nonempty : body ≠ []) (front : body.head? ≠ some '-') (negated : Bool) (rest : Text) :
    Regex.class? (negation negated ++ (body ++ ']' :: rest)) =
      some (⟨negated, ranges⟩, rest) := by
  obtain ⟨d, v, rfl, close, caret, hyphen⟩ :
      ∃ d v, body = d :: v ∧ d ≠ ']' ∧ d ≠ '^' ∧ d ≠ '-' := by
    cases h with
    | nil => exact absurd rfl nonempty
    | char member =>
      obtain ⟨d, w, rfl, close, -, caret, hyphen⟩ := member.front
      exact ⟨d, _, rfl, close, caret, hyphen⟩
    | range lower =>
      obtain ⟨d, w, rfl, close, -, caret, hyphen⟩ := lower.front
      exact ⟨d, _, rfl, close, caret, hyphen⟩
    | hyphen => exact absurd rfl front
  have enough : (d :: v).length < (d :: v ++ ']' :: rest).length + 1 := by
    rw [List.length_append]
    omega
  rw [List.cons_append, class?_negation close caret hyphen, ← List.cons_append, h.members enough]
  rfl

/-- A faulty class is not read. -/
theorem ClassFault.class? {t : Text} (h : ClassFault t) (front : t.head? ≠ some '-')
    (negated : Bool) : Regex.class? (negation negated ++ t) = none := by
  obtain ⟨d, v, rfl, close, caret, hyphen⟩ :
      ∃ d v, t = d :: v ∧ d ≠ ']' ∧ d ≠ '^' ∧ d ≠ '-' := by
    cases h with
    | doubled h =>
      match t with
      | [] | [_] => cases h
      | c :: d :: t =>
        simp only [isDoubled, Bool.and_eq_true, beq_iff_eq, Bool.or_eq_true] at h
        obtain ⟨-, (rfl | rfl) | rfl⟩ := h
        · exact ⟨_, _, rfl, by decide⟩
        · exact ⟨_, _, rfl, by decide⟩
        · exact absurd rfl front
    | disordered lower | char lower | range lower =>
      obtain ⟨d, w, rfl, close, -, caret, hyphen⟩ := lower.front
      exact ⟨d, _, rfl, close, caret, hyphen⟩
    | hyphen => exact absurd rfl front
  rw [class?_negation close caret hyphen, h.members]
  rfl

/-! ### Expressions -/

/-- The text does not begin with a repetition. -/
def NoRepetition (t : Text) : Prop :=
  ∀ c rest, t = c :: rest → repetition? c = none

/-- The text begins with a part of an expression. -/
structure Opens (t : Text) : Prop where
  inside : isBranchEnd t = false
  noRepetition : NoRepetition t

theorem Opens.append {u : Text} (h : Opens u) (v : Text) : Opens (u ++ v) := by
  cases u with
  | nil => cases h.inside
  | cons c u =>
    refine ⟨h.inside, ?_⟩
    rintro d rest same
    exact h.noRepetition d u (by rw [(List.cons.inj same).1])

theorem NoRepetition.of_isBranchEnd {t : Text} (h : isBranchEnd t = true) : NoRepetition t := by
  rintro c rest rfl
  simp only [isBranchEnd, Bool.or_eq_true, beq_iff_eq] at h
  rcases h with rfl | rfl <;> rfl

/-- A character without a meaning, or one that opens an atom. -/
private theorem opens_cons {c : Char} (h : isMeta c = false ∨ c ∈ ['\\', '.', '^', '$', '[', '('])
    (t : Text) : Opens (c :: t) := by
  have ne {d : Char} (special : isMeta d = true)
      (other : d ∉ ['\\', '.', '^', '$', '[', '(']) : c ≠ d := by
    rintro rfl
    rcases h with h | h
    · rw [special] at h
      cases h
    · exact other h
  refine ⟨?_, ?_⟩
  · simp [isBranchEnd, ne (d := '|') (by decide) (by decide), ne (d := ')') (by decide) (by decide)]
  · rintro _ _ same
    obtain ⟨rfl, -⟩ := List.cons.inj same
    simp [repetition?, ne (d := '*') (by decide) (by decide), ne (d := '+') (by decide) (by decide),
      ne (d := '?') (by decide) (by decide)]

/-- What a text of each level begins with. -/
private def Front : Level → Text → Prop
  | .atom, u => Opens u
  | .factor, u => Opens u
  | .branch, u => u = [] ∨ Opens u
  | .whole, _ => True

private theorem Reads.front {level : Level} {u : Text} {r : Regex} (h : Reads level u r) :
    Front level u := by
  induction h with
  | char h => exact opens_cons (.inl h) _
  | escaped | dot | start | finish | listed | group => exact opens_cons (.inr (by decide)) _
  | once _ ih => exact ih
  | repeated count _ ih => exact ih.append _
  | nothing => exact .inl rfl
  | next _ _ ih => exact .inr (ih.append _)
  | last | more => trivial

/-- A character without a meaning stands for itself. -/
theorem atom_char {c : Char} (h : isMeta c = false) (inner : Reader) (t : Text) :
    atom inner (c :: t) = some (.one (.single c), t) := by
  have ne {d : Char} (special : isMeta d = true) : c ≠ d := by
    rintro rfl
    rw [special] at h
    cases h
  have reserved : isReserved c = false := by
    simp only [isMeta, List.contains_eq_mem, List.mem_cons, decide_eq_false_iff_not] at h
    simp only [isReserved, List.contains_eq_mem, List.mem_cons, List.not_mem_nil, or_false,
      decide_eq_false_iff_not]
    tauto
  rw [atom, if_neg (by simp [reserved])]
  · rintro _ rfl
    exact absurd rfl (ne (by decide))
  all_goals
    rintro rfl
    exact absurd rfl (ne (by decide))

/-- An escaped character stands for itself. -/
theorem atom_escaped {c : Char} (h : isMeta c = true) (inner : Reader) (t : Text) :
    atom inner ('\\' :: c :: t) = some (.one (.single c), t) := by
  have escapable : isEscapable c = true := by
    simp only [isMeta, List.contains_eq_mem, List.mem_cons, List.not_mem_nil, or_false,
      decide_eq_true_eq] at h
    simp only [isEscapable, List.contains_eq_mem, List.mem_cons, List.not_mem_nil, or_false,
      decide_eq_true_eq]
    tauto
  have letter : c ≠ 'x' := by
    rintro rfl
    exact absurd h (by decide)
  have : escape? (c :: t) = some (c, t) := by
    rw [escape?, if_pos escapable]
    rintro _ _ _ rfl
    exact absurd rfl letter
  simp only [atom, this, Option.map_some]

section

variable {inner : Reader} {t rest : Text} {r : Regex}

/-- A factor in front of a sequence. -/
theorem branch_of_factor (inside : isBranchEnd t = false) (first : factor inner t = some (r, rest)) (bound : Nat) :
    branch inner (bound + 1) t =
      (branch inner bound rest).map fun (others, rest) => (followedBy r others, rest) := by
  rw [branch, if_neg (by simp [inside]), first]

/-- The last alternative, behind which there is no bar. -/
theorem whole_of_branch (only : branch inner (t.length + 1) t = some (r, rest)) (noBar : ∀ u, rest ≠ '|' :: u)
    (bound : Nat) : whole inner (bound + 1) t = some (r, rest) := by
  rw [whole, only]
  split
  · next same =>
    obtain ⟨-, bar⟩ := Prod.mk.inj (Option.some.inj same)
    exact absurd bar (noBar _)
  · rfl

/-- An alternative in front of others. -/
theorem whole_of_bar (first : branch inner (t.length + 1) t = some (r, '|' :: rest)) (bound : Nat) :
    whole inner (bound + 1) t =
      (whole inner bound rest).map fun (others, rest) => (.either r others, rest) := by
  rw [whole, first]
  rfl

end

/-- What each reader makes of a text that denotes an expression: it leaves what follows the text.  The
numbers only have to be large enough. -/
private def ReadsBack : Level → Text → Regex → Prop
  | .atom, u, r => ∀ {depth : Nat}, u.length ≤ depth → ∀ rest,
    atom (wholeAt depth) (u ++ rest) = some (r, rest)
  | .factor, u, r => ∀ {depth : Nat}, u.length ≤ depth → ∀ {rest}, NoRepetition rest →
    factor (wholeAt depth) (u ++ rest) = some (r, rest)
  | .branch, u, r => ∀ {depth bound : Nat}, u.length ≤ depth → u.length < bound → ∀ {rest},
    isBranchEnd rest = true → branch (wholeAt depth) bound (u ++ rest) = some (r, rest)
  | .whole, u, r => ∀ {depth bound : Nat}, u.length ≤ depth → u.length < bound → ∀ {rest},
    isBranchEnd rest = true → (∀ t, rest ≠ '|' :: t) →
      whole (wholeAt depth) bound (u ++ rest) = some (r, rest)

private theorem Reads.readsBack {level : Level} {u : Text} {r : Regex} (h : Reads level u r) :
    ReadsBack level u r := by
  induction h with
  | char h => exact fun _ rest => atom_char h _ rest
  | escaped h => exact fun _ rest => atom_escaped h _ rest
  | dot | start | finish => exact fun _ _ => rfl
  | @listed negated body ranges members nonempty front =>
    intro depth _ rest
    have read := members.class? nonempty front negated rest
    rw [List.cons_append, List.append_assoc, List.append_assoc]
    simp only [atom, List.singleton_append, read, Option.map_some]
  | @group u r _ ih =>
    intro depth enough rest
    simp only [List.length_cons, List.length_append, List.length_nil] at enough
    obtain ⟨depth, rfl⟩ := Nat.exists_eq_add_one_of_ne_zero (n := depth) (by omega)
    have inner : wholeAt (depth + 1) (u ++ ')' :: rest) = some (r, ')' :: rest) :=
      ih (by omega) (by rw [List.length_append]; omega) rfl (by simp)
    simp only [List.cons_append, List.append_assoc, List.nil_append, atom, inner]
  | once _ ih =>
    intro depth enough rest noRepetition
    rw [factor, ih enough rest]
    cases rest with
    | nil => rfl
    | cons c rest => simp [withRepetition, noRepetition c rest rfl]
  | @repeated u r count _ ih =>
    intro depth enough rest _
    rw [List.length_append] at enough
    rw [factor, List.append_assoc, ih (Nat.le_of_add_right_le enough) _]
    cases count <;> rfl
  | nothing =>
    intro depth bound _ enough rest closed
    obtain ⟨bound, rfl⟩ := Nat.exists_eq_add_one_of_ne_zero (Nat.ne_zero_of_lt enough)
    rw [List.nil_append, branch, if_pos closed]
  | @next u v r s first others ih₁ ih₂ =>
    intro depth bound deep enough rest closed
    have opens : Opens u := first.front
    have follows : NoRepetition (v ++ rest) := by
      rcases others.front with rfl | opens
      · exact .of_isBranchEnd closed
      · exact (opens.append rest).noRepetition
    have nonempty : 0 < u.length := by
      cases u with
      | nil => cases opens.inside
      | cons => exact Nat.zero_lt_succ _
    rw [List.length_append] at deep enough
    obtain ⟨bound, rfl⟩ := Nat.exists_eq_add_one_of_ne_zero (n := bound) (by omega)
    rw [List.append_assoc, branch_of_factor (opens.append _).inside (ih₁ (by omega) follows),
      ih₂ (by omega) (by omega) closed, Option.map_some]
  | @last u r _ ih =>
    intro depth bound deep enough rest closed noBar
    obtain ⟨bound, rfl⟩ := Nat.exists_eq_add_one_of_ne_zero (Nat.ne_zero_of_lt enough)
    exact whole_of_branch (ih deep (by rw [List.length_append]; omega) closed) noBar bound
  | @more u v r s _ _ ih₁ ih₂ =>
    intro depth bound deep enough rest closed noBar
    rw [List.length_append, List.length_cons] at deep enough
    obtain ⟨bound, rfl⟩ := Nat.exists_eq_add_one_of_ne_zero (Nat.ne_zero_of_lt enough)
    rw [List.append_assoc, List.cons_append,
      whole_of_bar (ih₁ (by omega) (by rw [List.length_append]; omega) rfl),
      ih₂ (by omega) (by omega) closed noBar, Option.map_some]

/-- **A text that denotes an expression is read as this expression.** -/
theorem Reads.read? {u : Text} {r : Regex} (h : Reads .whole u r) : Regex.read? u = some r := by
  have read : wholeAt (u.length + 1) (u ++ []) = some (r, []) := by
    have back : ReadsBack .whole u r := h.readsBack
    exact back (Nat.le_refl _) (by simp) rfl (by simp)
  rw [List.append_nil] at read
  rw [Regex.read?, read]

/-! ### Faulty texts -/

/-- What each reader makes of a text with a faulty class. -/
private def Refused : Level → Text → Prop
  | .atom, t => Opens t ∧ ∀ {depth : Nat}, t.length ≤ depth → atom (wholeAt depth) t = none
  | .factor, t => Opens t ∧ ∀ {depth : Nat}, t.length ≤ depth → factor (wholeAt depth) t = none
  | .branch, t => Opens t ∧ ∀ {depth : Nat}, t.length ≤ depth → ∀ bound,
    branch (wholeAt depth) bound t = none
  | .whole, t => ∀ {depth : Nat}, t.length ≤ depth → ∀ bound, whole (wholeAt depth) bound t = none

private theorem Faulty.refused {level : Level} {t : Text} (h : Faulty level t) :
    Refused level t := by
  induction h with
  | @listed negated t fault front =>
    refine ⟨opens_cons (.inr (by decide)) _, fun _ => ?_⟩
    simp only [atom, fault.class? front negated, Option.map_none]
  | @group t _ ih =>
    refine ⟨opens_cons (.inr (by decide)) _, fun {depth} enough => ?_⟩
    simp only [List.length_cons] at enough
    obtain ⟨depth, rfl⟩ := Nat.exists_eq_add_one_of_ne_zero (n := depth) (by omega)
    have inner : wholeAt (depth + 1) t = none := ih (by omega) _
    simp only [atom, inner]
  | once _ ih =>
    refine ⟨ih.1, fun enough => ?_⟩
    rw [factor, ih.2 enough]
    rfl
  | @first t _ ih =>
    refine ⟨ih.1, fun enough bound => ?_⟩
    cases bound with
    | zero => rfl
    | succ bound => rw [branch, if_neg (by simp [ih.1.inside]), ih.2 enough]
  | @next u t r first _ ih =>
    have opens : Opens u := first.front
    refine ⟨opens.append t, fun {depth} enough bound => ?_⟩
    rw [List.length_append] at enough
    have back : ReadsBack .factor u r := first.readsBack
    cases bound with
    | zero => rfl
    | succ bound =>
      rw [branch_of_factor (opens.append t).inside (back (by omega) ih.1.noRepetition), ih.2 (by omega),
        Option.map_none]
  | @last t _ ih =>
    intro depth enough bound
    cases bound with
    | zero => rfl
    | succ bound => rw [whole, ih.2 enough]

/-- **A text with a faulty class is not read.** -/
theorem Faulty.read? {t : Text} (h : Faulty .whole t) : Regex.read? t = none := by
  have refused : Refused .whole t := h.refused
  have : wholeAt (t.length + 1) t = none := refused (Nat.le_refl _) _
  rw [Regex.read?, this]

/-! ### Depth -/

theorem nesting_sequence_le {rs : List Regex} {n : Nat} (h : ∀ r ∈ rs, r.nesting ≤ n) :
    (sequence rs).nesting ≤ n := by
  induction rs with
  | nil => exact Nat.zero_le n
  | cons r rs ih =>
    have first := h r List.mem_cons_self
    have others := ih fun s mem => h s (List.mem_cons_of_mem r mem)
    rw [sequence]
    cases same : sequence rs with
    | empty => exact first
    | _ => exact Nat.max_le.2 ⟨first, same ▸ others⟩

theorem nesting_choice_le {rs : List Regex} {n : Nat} (h : ∀ r ∈ rs, r.nesting ≤ n) :
    (choice rs).nesting ≤ n := by
  induction rs with
  | nil => exact Nat.zero_le n
  | cons r rs ih =>
    have first := h r List.mem_cons_self
    have others := ih fun s mem => h s (List.mem_cons_of_mem r mem)
    cases rs with
    | nil => exact first
    | cons s rs => exact Nat.max_le.2 ⟨first, others⟩

/-- In front of a sequence that is one node already, an expression adds no node. -/
theorem height_seq_le {r s : Regex} {n : Nat} (first : r.height ≤ n)
    (second : s.height ≤ n ∨ (∃ a b, s = .seq a b) ∧ s.height ≤ n + 1) : (Regex.seq r s).height ≤ n + 1 := by
  refine Nat.max_le.2 ⟨Nat.succ_le_succ first, ?_⟩
  rcases second with low | ⟨⟨a, b, rfl⟩, high⟩
  · split <;> omega
  · exact high

theorem height_either_le {r s : Regex} {n : Nat} (first : r.height ≤ n)
    (second : s.height ≤ n ∨ (∃ a b, s = .either a b) ∧ s.height ≤ n + 1) :
    (Regex.either r s).height ≤ n + 1 := by
  refine Nat.max_le.2 ⟨Nat.succ_le_succ first, ?_⟩
  rcases second with low | ⟨⟨a, b, rfl⟩, high⟩
  · split <;> omega
  · exact high

/-- A sequence is one node above its parts, however many there are. -/
theorem height_sequence_le {rs : List Regex} {n : Nat} (h : ∀ r ∈ rs, r.height ≤ n) :
    (sequence rs).height ≤ n + 1 := by
  have node : (sequence rs).height ≤ n ∨
      (∃ a b, sequence rs = .seq a b) ∧ (sequence rs).height ≤ n + 1 := by
    induction rs with
    | nil => exact .inl (Nat.zero_le n)
    | cons r rs ih =>
      have first := h r List.mem_cons_self
      have others := ih fun s mem => h s (List.mem_cons_of_mem r mem)
      rw [sequence]
      cases same : sequence rs with
      | empty => exact .inl first
      | _ => exact .inr ⟨⟨_, _, rfl⟩, height_seq_le first (same ▸ others)⟩
  exact node.elim Nat.le_succ_of_le And.right

/-- So is a choice. -/
theorem height_choice_le {rs : List Regex} {n : Nat} (h : ∀ r ∈ rs, r.height ≤ n) :
    (choice rs).height ≤ n + 1 := by
  have node : (choice rs).height ≤ n ∨
      (∃ a b, choice rs = .either a b) ∧ (choice rs).height ≤ n + 1 := by
    induction rs with
    | nil => exact .inl (Nat.zero_le n)
    | cons r rs ih =>
      have first := h r List.mem_cons_self
      have others := ih fun s mem => h s (List.mem_cons_of_mem r mem)
      cases rs with
      | nil => exact .inl first
      | cons s rs => exact .inr ⟨⟨r, _, rfl⟩, height_either_le first others⟩
  exact node.elim Nat.le_succ_of_le And.right

theorem isShallow_anchored_iff (r : Regex) :
    r.anchored.isShallow = true ↔ r.nesting + 1 ≤ nestLimit ∧ r.height + 1 ≤ nestLimit := by
  have nested : r.anchored.nesting = r.nesting + 1 := by simp [anchored, nesting]
  have high : r.anchored.height = r.height + 1 := by simp [anchored, height]
  rw [isShallow, nested, high, Bool.and_eq_true, decide_eq_true_iff, decide_eq_true_iff]

/-! ### The engine -/

/-- The expression of the text, if it has one, is not too deep. -/
def isWithinLimit (text : Text) : Bool :=
  ((Text.after? dotFlag text).bind read?).all isShallow

/-- The same engine without a limit. -/
def unlimited : Engine := fun text =>
  ((Text.after? dotFlag text).bind read?).map finds

theorem after?_dotFlag (u : Text) : Text.after? dotFlag (dotFlag ++ u) = some u := by
  simp [dotFlag, Text.after?]

theorem engine_dotFlag (u : Text) :
    engine (dotFlag ++ u) = (read? u).bind fun r => if r.isShallow then some r.finds else none := by
  simp only [engine, after?_dotFlag, Option.bind_eq_bind, Option.bind_some]

/-- The limit is one on the expression that the text denotes. -/
theorem Reads.isWithinLimit {u : Text} {r : Regex} (h : Reads .whole u r) :
    Regex.isWithinLimit (dotFlag ++ u) = r.isShallow := by
  simp [Regex.isWithinLimit, after?_dotFlag, h.read?]

/-- **The engine of `Regex` is standard, up to its limit.** -/
theorem standard_engine : engine.Standard fun text => isWithinLimit text = true where
  finds {u r m} reads compiled t := by
    rw [engine_dotFlag, reads.read?, Option.bind_some] at compiled
    split at compiled
    · obtain rfl := Option.some.inj compiled
      exact finds_iff r t
    · cases compiled
  compiles {u r} reads admitted := by
    rw [reads.isWithinLimit] at admitted
    exact ⟨r.finds, by rw [engine_dotFlag, reads.read?, Option.bind_some, if_pos admitted]⟩
  refuses {u} faulty := by rw [engine_dotFlag, faulty.read?, Option.bind_none]

/-- **Without the limit it compiles whatever denotes an expression.** -/
theorem standard_unlimited : unlimited.Standard fun _ => True where
  finds {u r m} reads compiled t := by
    rw [unlimited, after?_dotFlag, Option.bind_some, reads.read?] at compiled
    obtain rfl := Option.some.inj compiled
    exact finds_iff r t
  compiles {u r} reads _ :=
    ⟨r.finds, by rw [unlimited, after?_dotFlag, Option.bind_some, reads.read?, Option.map_some]⟩
  refuses {u} faulty := by
    rw [unlimited, after?_dotFlag, Option.bind_some, faulty.read?, Option.map_none]

end ShellWord.Regex
