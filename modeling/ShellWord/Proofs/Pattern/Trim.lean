import Mathlib.Tactic.MkIffOfInductiveProp
import ShellWord.Pattern.Trim

/-!
# Trimming takes the extremal match

`${x#p}` takes the shortest matched part off the front of a value and `${x##p}` the longest one; `${x%p}` and
`${x%%p}` do so at the back.  The program looks for the part in a list of all cuts, from the one or from the other
end, and takes the first that fits.  Which end is which is easy to get wrong: at the front the shortest part comes first
in the list, at the back the longest one.

Replacing a match that is tied to an end is another search: it goes over the boundaries between characters, and not
over cuts.

The order of the list is all that matters.  A search in an ordered list finds the least member that passes the
test (`find?_eq_some_iff_of_ordered`); the list of cuts is ordered by the length of the first part, and its reverse
by the length of the second (`pairwise_cuts`, `pairwise_reverse_cuts`).  `trim_extremal` is this, said for the four ways
to trim, and says that replacing at an end by nothing is one of them; for that, the cuts are those at the boundaries,
one by one (`cuts_eq_map_boundaries`).
-/

namespace ShellWord

/-! ### Searching -/

/-- In a list that is ordered by a measure, a search finds the least member that passes the test. -/
theorem find?_eq_some_iff_of_ordered {α : Type} {measure : α → Nat} {l : List α}
    (ordered : l.Pairwise fun x y => measure x < measure y) {q : α → Bool} {x : α} :
    l.find? q = some x ↔ x ∈ l ∧ q x = true ∧ ∀ y ∈ l, q y = true → measure x ≤ measure y := by
  induction l with
  | nil => simp
  | cons z l ih =>
      obtain ⟨first, ordered⟩ := List.pairwise_cons.1 ordered
      by_cases pass : q z = true
      · rw [List.find?_cons_of_pos pass]
        constructor
        · intro found
          obtain rfl := Option.some.inj found
          refine ⟨List.mem_cons_self, pass, fun y mem _ => ?_⟩
          rcases List.mem_cons.1 mem with rfl | mem
          · exact Nat.le_refl _
          · exact Nat.le_of_lt (first y mem)
        · rintro ⟨mem, -, least⟩
          rcases List.mem_cons.1 mem with rfl | mem
          · rfl
          · exact absurd (first x mem) (Nat.not_lt.2 (least z List.mem_cons_self pass))
      · rw [List.find?_cons_of_neg pass, ih ordered]
        constructor
        · rintro ⟨mem, passes, least⟩
          refine ⟨List.mem_cons_of_mem _ mem, passes, fun y mem' passes' => ?_⟩
          rcases List.mem_cons.1 mem' with rfl | mem'
          · exact absurd passes' pass
          · exact least y mem' passes'
        · rintro ⟨mem, passes, least⟩
          rcases List.mem_cons.1 mem with rfl | mem
          · exact absurd passes pass
          · exact ⟨mem, passes, fun y mem' => least y (List.mem_cons_of_mem _ mem')⟩

/-! ### Cuts -/

/-- The cuts of a text are all the ways to write it as two texts in a row. -/
theorem mem_cuts_iff {t : Text} {cut : Text × Text} : cut ∈ cuts t ↔ cut.1 ++ cut.2 = t := by
  refine ⟨append_of_mem_cuts, ?_⟩
  obtain ⟨a, b⟩ := cut
  rintro rfl
  induction a with
  | nil => cases b <;> simp [cuts]
  | cons c a ih =>
      rw [List.cons_append, cuts]
      exact List.mem_cons_of_mem _ (List.mem_map.2 ⟨(a, b), ih, rfl⟩)

/-- From one cut to the next the first part gets longer. -/
theorem pairwise_cuts (t : Text) : (cuts t).Pairwise fun x y => x.1.length < y.1.length := by
  induction t with
  | nil => simp
  | cons c t ih =>
      rw [cuts, List.pairwise_cons, List.pairwise_map]
      refine ⟨fun cut mem => ?_, ih.imp fun longer => Nat.succ_lt_succ longer⟩
      obtain ⟨inner, -, rfl⟩ := List.mem_map.1 mem
      exact Nat.succ_pos _

/-- Read from the end, the second part gets longer. -/
theorem pairwise_reverse_cuts (t : Text) :
    (cuts t).reverse.Pairwise fun x y => x.2.length < y.2.length := by
  rw [List.pairwise_reverse]
  refine (pairwise_cuts t).imp_of_mem fun {x y} memx memy longer => ?_
  have lengthx := congrArg List.length (mem_cuts_iff.1 memx)
  have lengthy := congrArg List.length (mem_cuts_iff.1 memy)
  rw [List.length_append] at lengthx lengthy
  omega

/-- The first cut that passes a test has the shortest first part of all that do. -/
theorem find?_cuts_eq_some_iff {t : Text} {q : Text × Text → Bool} {a b : Text} :
    (cuts t).find? q = some (a, b) ↔
      a ++ b = t ∧ q (a, b) = true ∧
        ∀ a' b', a' ++ b' = t → q (a', b') = true → a.length ≤ a'.length := by
  rw [find?_eq_some_iff_of_ordered (pairwise_cuts t), mem_cuts_iff]
  simp only [mem_cuts_iff, Prod.forall]

/-- The last one has the shortest second part. -/
theorem find?_reverse_cuts_eq_some_iff {t : Text} {q : Text × Text → Bool} {a b : Text} :
    (cuts t).reverse.find? q = some (a, b) ↔
      a ++ b = t ∧ q (a, b) = true ∧
        ∀ a' b', a' ++ b' = t → q (a', b') = true → b.length ≤ b'.length := by
  rw [find?_eq_some_iff_of_ordered (pairwise_reverse_cuts t), List.mem_reverse, mem_cuts_iff]
  simp only [List.mem_reverse, mem_cuts_iff, Prod.forall]

/-- Of two cuts of a text, the one with the shorter first part has the longer second part. -/
theorem length_le_iff_of_append_eq {a b a' b' : Text} (h : a ++ b = a' ++ b') :
    a.length ≤ a'.length ↔ b'.length ≤ b.length := by
  have lengths := congrArg List.length h
  rw [List.length_append, List.length_append] at lengths
  omega

/-! ### Matches at an end -/

/-- The text is `front ++ rest`, `front` is matched, and no other front part that is matched is longer, or none is
shorter. -/
@[mk_iff] structure IsFrontMatch (p : Matcher) (longest : Bool) (t front rest : Text) : Prop where
  parts : front ++ rest = t
  matched : p front = true
  extremal : ∀ other behind, other ++ behind = t → p other = true →
    if longest then other.length ≤ front.length else front.length ≤ other.length

/-- The text is `rest ++ back`, `back` is matched, and no other back part that is matched is longer, or none is
shorter. -/
@[mk_iff] structure IsBackMatch (p : Matcher) (longest : Bool) (t rest back : Text) : Prop where
  parts : rest ++ back = t
  matched : p back = true
  extremal : ∀ before other, before ++ other = t → p other = true →
    if longest then other.length ≤ back.length else back.length ≤ other.length

variable {p : Matcher} {longest : Bool} {t front rest back : Text}

theorem frontMatch?_eq_some_iff :
    frontMatch? p longest t = some (front, rest) ↔ IsFrontMatch p longest t front rest := by
  rw [isFrontMatch_iff]
  cases longest with
  | false => exact find?_cuts_eq_some_iff
  | true =>
      refine find?_reverse_cuts_eq_some_iff.trans (and_congr_right fun parts => and_congr_right fun _ => ?_)
      refine forall_congr' fun other => forall_congr' fun behind => ?_
      exact imp_congr_right fun parts' => imp_congr_right fun _ =>
        (length_le_iff_of_append_eq (parts'.trans parts.symm)).symm

/-- At the back the list is read from the other end. -/
theorem backMatch?_eq_some_iff :
    backMatch? p longest t = some (rest, back) ↔ IsBackMatch p longest t rest back := by
  rw [isBackMatch_iff]
  cases longest with
  | false => exact find?_reverse_cuts_eq_some_iff
  | true =>
      refine find?_cuts_eq_some_iff.trans (and_congr_right fun parts => and_congr_right fun _ => ?_)
      refine forall_congr' fun before => forall_congr' fun other => ?_
      exact imp_congr_right fun parts' => imp_congr_right fun _ =>
        length_le_iff_of_append_eq (parts.trans parts'.symm)

/-- A front part is found unless none is matched. -/
theorem frontMatch?_eq_none_iff :
    frontMatch? p longest t = none ↔ ∀ a b, a ++ b = t → p a = false := by
  have mem (cut : Text × Text) :
      (cut ∈ if longest then (cuts t).reverse else cuts t) ↔ cut.1 ++ cut.2 = t := by
    cases longest <;> simp [mem_cuts_iff]
  rw [frontMatch?, List.find?_eq_none]
  simp only [mem, Prod.forall, Bool.not_eq_true]

theorem backMatch?_eq_none_iff :
    backMatch? p longest t = none ↔ ∀ a b, a ++ b = t → p b = false := by
  have mem (cut : Text × Text) :
      (cut ∈ if longest then cuts t else (cuts t).reverse) ↔ cut.1 ++ cut.2 = t := by
    cases longest <;> simp [mem_cuts_iff]
  rw [backMatch?, List.find?_eq_none]
  simp only [mem, Prod.forall, Bool.not_eq_true]

/-! ### The search over boundaries -/

/-- The cuts of a text are those at its boundaries, in the same order. -/
theorem cuts_eq_map_boundaries (t : Text) :
    cuts t = (boundaries t).map fun n => (t.take n, t.drop n) := by
  unfold boundaries
  induction t with
  | nil => rfl
  | cons c t ih =>
      rw [cuts, ih, List.length_cons, List.range_succ_eq_map (n := t.length + 1), List.map_cons, List.map_map,
        List.map_map]
      rfl

/-- The last boundary up to which the text is matched is where the longest match at the front ends. -/
theorem replaceFront_eq (p : Matcher) (r t : Text) :
    replaceFront p r t =
      match frontMatch? p true t with
      | some (_, rest) => r ++ rest
      | none => t := by
  rw [replaceFront, frontMatch?, if_pos rfl, cuts_eq_map_boundaries, ← List.map_reverse, List.find?_map]
  change _ = match ((boundaries t).reverse.find? fun n => p (t.take n)).map fun n => (t.take n, t.drop n) with
    | some (_, rest) => r ++ rest
    | none => t
  cases (boundaries t).reverse.find? fun n => p (t.take n) <;> rfl

/-- The first boundary from which on the text is matched is where the longest match at the back begins. -/
theorem replaceBack_eq (p : Matcher) (r t : Text) :
    replaceBack p r t =
      match backMatch? p true t with
      | some (rest, _) => rest ++ r
      | none => t := by
  rw [replaceBack, backMatch?, if_pos rfl, cuts_eq_map_boundaries, List.find?_map]
  change _ = match ((boundaries t).find? fun n => p (t.drop n)).map fun n => (t.take n, t.drop n) with
    | some (rest, _) => rest ++ r
    | none => t
  cases (boundaries t).find? fun n => p (t.drop n) <;> rfl

/-! ### Trimming -/

theorem trimFront_cases (p : Matcher) (longest : Bool) (t : Text) :
    (∃ front rest, IsFrontMatch p longest t front rest ∧ trimFront p longest t = rest) ∨
      (∀ a b, a ++ b = t → p a = false) ∧ trimFront p longest t = t := by
  unfold trimFront
  cases found : frontMatch? p longest t with
  | none => exact .inr ⟨frontMatch?_eq_none_iff.1 found, rfl⟩
  | some cut => exact .inl ⟨cut.1, cut.2, frontMatch?_eq_some_iff.1 found, rfl⟩

theorem trimBack_cases (p : Matcher) (longest : Bool) (t : Text) :
    (∃ rest back, IsBackMatch p longest t rest back ∧ trimBack p longest t = rest) ∨
      (∀ a b, a ++ b = t → p b = false) ∧ trimBack p longest t = t := by
  unfold trimBack
  cases found : backMatch? p longest t with
  | none => exact .inr ⟨backMatch?_eq_none_iff.1 found, rfl⟩
  | some cut => exact .inl ⟨cut.1, cut.2, backMatch?_eq_some_iff.1 found, rfl⟩

/-- **Trimming takes the extremal match.**  For every pattern and every text: off the front comes the shortest or
the longest of all front parts that are matched, the empty one and the whole text among them, and off the back the
shortest or the longest of all back parts; where no such part is matched, the text stays as it is.  Taking the longest
one is the same as replacing it by nothing with the match tied to that end. -/
theorem trim_extremal (p : Matcher) (t : Text) :
    (∀ longest,
      ((∃ front rest, IsFrontMatch p longest t front rest ∧ trimFront p longest t = rest) ∨
        (∀ a b, a ++ b = t → p a = false) ∧ trimFront p longest t = t) ∧
      ((∃ rest back, IsBackMatch p longest t rest back ∧ trimBack p longest t = rest) ∨
        (∀ a b, a ++ b = t → p b = false) ∧ trimBack p longest t = t)) ∧
    ∀ all, trimFront p true t = replaceMatches p all (some .start) [] t ∧
      trimBack p true t = replaceMatches p all (some .finish) [] t := by
  refine ⟨fun longest => ⟨trimFront_cases p longest t, trimBack_cases p longest t⟩, fun all => ⟨?_, ?_⟩⟩
  · show trimFront p true t = replaceFront p [] t
    rw [replaceFront_eq, trimFront]
    cases frontMatch? p true t <;> rfl
  · show trimBack p true t = replaceBack p [] t
    rw [replaceBack_eq, trimBack]
    cases backMatch? p true t with
    | none => rfl
    | some cut => exact (List.append_nil cut.1).symm

end ShellWord
