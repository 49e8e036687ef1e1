import Mathlib.Tactic.ByContra
import ShellWord.Proofs.Pattern.Trim

/-!
# Replacing the leftmost longest matches

`${x//p/r}` goes through a value from left to right.  Where a match begins, it takes the longest one, puts the
replacement in its place and goes on behind it; where none begins, it copies a character.  A match of no characters
does not count, so every step leaves less of the value, also for a pattern that matches the empty text.

A `Marking` is a text with matches marked in it, and `Marking.IsLeftmostLongest` says which ones are to be
marked, without saying how they are found: each match is the longest at its place, and none begins in the text
between them.  Every text has exactly one such marking, and what the program gives is the marked text with the
replacement in the place of every match (`replaceMatches_leftmost_longest`).  The marking does not depend on the
replacement, so nothing that was put in is ever looked at again.

### What is load-bearing

A search for a match looks at all that is left of the text, and not at the piece up to the next match.  So
`NoMatchWithin p u after` speaks of matches that begin within `u` and may end in `after`, and the longest match at a
place is the longest in front of all the rest (`IsLongestMatch`).

The program holds the whole text and the boundary it has come to, and finds the end of a match by its distance from the
back.  What stands before the boundary plays no part any more (`longestFromBack?_eq`), so its steps are stated behind
any text `w`.
-/

namespace ShellWord

/-! ### Matches within a text -/

/-- In front of `after`, the text `m` is a match of at least one character, and no longer one begins at its place. -/
structure IsLongestMatch (p : Matcher) (m after : Text) : Prop where
  nonempty : m ≠ []
  matched : p m = true
  longest : ∀ other, other <+: m ++ after → m.length < other.length → p other = false

/-- In front of `after`, no match of at least one character begins within `u`. -/
def NoMatchWithin (p : Matcher) (u after : Text) : Prop :=
  ∀ a b, a ++ b = u → b ≠ [] → ∀ m, m ≠ [] → m <+: b ++ after → p m = false

variable {p : Matcher} {t u m v w after : Text}

theorem noMatchWithin_nil (p : Matcher) (after : Text) : NoMatchWithin p [] after := by
  intro a b parts ne
  exact absurd (List.append_eq_nil_iff.1 parts).2 ne

/-- No match begins within a text if none begins at its first character and none within the rest. -/
theorem noMatchWithin_cons {c : Char} :
    NoMatchWithin p (c :: u) after ↔
      (∀ m, m ≠ [] → m <+: c :: (u ++ after) → p m = false) ∧ NoMatchWithin p u after := by
  constructor
  · intro none
    refine ⟨none [] (c :: u) rfl (List.cons_ne_nil _ _), fun a b parts => none (c :: a) b ?_⟩
    rw [List.cons_append, parts]
  · rintro ⟨here, later⟩ a b parts ne
    cases a with
    | nil =>
        obtain rfl : b = c :: u := parts
        exact here
    | cons d a => exact later a b (List.cons.inj parts).2 ne

/-- With nothing behind it, no match begins within a text if no part of it is matched. -/
theorem noMatchWithin_nil_right_iff :
    NoMatchWithin p t [] ↔ ∀ m, m ≠ [] → m <:+: t → p m = false := by
  constructor
  · rintro none m ne ⟨a, b, parts⟩
    refine none a (m ++ b) (by rw [← List.append_assoc, parts]) (by simp [ne]) m ne ?_
    rw [List.append_nil]
    exact List.prefix_append m b
  · intro none a b parts _ m ne begins
    rw [List.append_nil] at begins
    exact none m ne (begins.isInfix.trans ⟨a, [], by rw [List.append_nil, parts]⟩)

/-! ### The search for the longest match -/

theorem length_boundaries (t : Text) : (boundaries t).length = t.length + 1 :=
  List.length_range

theorem between_append (w v : Text) (n : Nat) : between (w ++ v) w.length (w.length + n) = v.take n := by
  rw [between, List.take_length_add_append, List.drop_left]

/-- The ends that are tried for a match, from the back of the text on. -/
theorem reverse_drop_boundaries (w v : Text) :
    ((boundaries (w ++ v)).drop (w.length + 1)).reverse =
      (List.range v.length).map fun j => w.length + (v.length - j) := by
  apply List.ext_getElem
  · rw [List.length_reverse, List.length_drop, length_boundaries, List.length_append, List.length_map,
      List.length_range]
    omega
  · intro j _ inside
    rw [List.length_map, List.length_range] at inside
    simp only [boundaries, List.length_append, List.getElem_reverse, List.length_drop, List.length_range,
      List.getElem_drop, List.getElem_range, List.getElem_map]
    omega

/-- What stands before a boundary plays no part in the search from there on. -/
theorem longestFromBack?_eq (p : Matcher) (w v : Text) :
    longestFromBack? p (w ++ v) w.length =
      (List.range v.length).findIdx? fun j => p (v.take (v.length - j)) := by
  rw [longestFromBack?, reverse_drop_boundaries, List.findIdx?_map]
  simp only [Function.comp_def, between_append]

/-- The search stops at the length of what follows the longest match. -/
theorem longestFromBack?_eq_length_iff :
    longestFromBack? p (w ++ (m ++ after)) w.length = some after.length ↔ IsLongestMatch p m after := by
  have length : (m ++ after).length = m.length + after.length := List.length_append
  have whole : (m ++ after).take ((m ++ after).length - after.length) = m := by
    rw [length, Nat.add_sub_cancel, List.take_left]
  rw [longestFromBack?_eq, List.findIdx?_eq_some_iff_getElem]
  simp only [List.length_range, List.getElem_range, exists_prop, whole, Bool.not_eq_true]
  constructor
  · rintro ⟨shorter, matched, earlier⟩
    refine ⟨List.ne_nil_of_length_pos (by omega), matched, fun other begins longer => ?_⟩
    -- a longer match would end at a boundary that was tried before
    have within := begins.length_le
    have tried := earlier ((m ++ after).length - other.length) (by omega)
    rwa [Nat.sub_sub_self within, ← List.prefix_iff_eq_take.1 begins] at tried
  · rintro ⟨ne, matched, longest⟩
    have taken := List.length_pos_iff.2 ne
    refine ⟨by omega, matched, fun j earlier => longest _ (List.take_prefix _ _) ?_⟩
    rw [List.length_take]
    omega

/-- Where the search finds nothing, no match begins. -/
theorem longestFromBack?_eq_none_iff :
    longestFromBack? p (w ++ v) w.length = none ↔ ∀ m, m ≠ [] → m <+: v → p m = false := by
  rw [longestFromBack?_eq, List.findIdx?_eq_none_iff]
  simp only [List.mem_range]
  constructor
  · intro none m ne begins
    have within := begins.length_le
    have taken := List.length_pos_iff.2 ne
    have tried := none (v.length - m.length) (by omega)
    rwa [Nat.sub_sub_self within, ← List.prefix_iff_eq_take.1 begins] at tried
  · intro none j inside
    refine none _ (List.ne_nil_of_length_pos ?_) (List.take_prefix _ _)
    rw [List.length_take]
    omega

/-! ### One step -/

/-- The longest match is replaced, and what follows it comes next. -/
theorem IsLongestMatch.replaceFrom (h : IsLongestMatch p m after) (all : Bool) (r w : Text) :
    replaceFrom p all r (w ++ (m ++ after)) w.length =
      r ++ if all then ShellWord.replaceFrom p all r (w ++ (m ++ after)) (w ++ m).length else after := by
  have found := longestFromBack?_eq_length_iff (w := w).2 h
  have taken := List.length_pos_iff.2 h.nonempty
  have size : (w ++ (m ++ after)).length = w.length + (m.length + after.length) := by
    rw [List.length_append, List.length_append]
  have stop : (boundaries (w ++ (m ++ after))).length - 1 - after.length = (w ++ m).length := by
    rw [length_boundaries, size, List.length_append]
    omega
  have behind : (w ++ (m ++ after)).drop (w ++ m).length = after := by
    rw [← List.append_assoc, List.drop_left]
  rw [ShellWord.replaceFrom, if_pos (by rw [length_boundaries]; omega)]
  split
  · next fromBack same =>
    obtain rfl := Option.some.inj (same.symm.trans found)
    simp only [stop, behind]
  · next none => rw [found] at none; cases none

/-- Where no match begins, a character is copied. -/
theorem replaceFrom_of_none {c : Char} (none : ∀ m, m ≠ [] → m <+: c :: v → p m = false) (all : Bool)
    (r w : Text) :
    replaceFrom p all r (w ++ c :: v) w.length = c :: replaceFrom p all r (w ++ c :: v) (w ++ [c]).length := by
  have missed := longestFromBack?_eq_none_iff (w := w).2 none
  have first : between (w ++ c :: v) w.length (w.length + 1) = [c] := between_append w (c :: v) 1
  have inside : w.length < (boundaries (w ++ c :: v)).length - 1 := by
    rw [length_boundaries, List.length_append, List.length_cons]
    omega
  rw [replaceFrom, if_pos inside]
  split
  · next found => rw [missed] at found; cases found
  · rw [first, List.length_append]
    rfl

theorem replaceFrom_end (p : Matcher) (all : Bool) (r w : Text) : replaceFrom p all r w w.length = [] := by
  rw [replaceFrom, if_neg (by rw [length_boundaries]; omega)]

/-- A text in which no match begins is copied. -/
theorem NoMatchWithin.replaceFrom (h : NoMatchWithin p u after) (all : Bool) (r w : Text) :
    replaceFrom p all r (w ++ (u ++ after)) w.length =
      u ++ ShellWord.replaceFrom p all r (w ++ (u ++ after)) (w ++ u).length := by
  induction u generalizing w with
  | nil => rw [List.append_nil, List.nil_append, List.nil_append]
  | cons c u ih =>
      obtain ⟨here, later⟩ := noMatchWithin_cons.1 h
      have moved : w ++ c :: (u ++ after) = w ++ [c] ++ (u ++ after) := by simp
      have place : w ++ c :: u = w ++ [c] ++ u := by simp
      rw [List.cons_append, replaceFrom_of_none here, moved, ih later, place, List.cons_append]

/-- A text has a first match, or no part of it is matched. -/
theorem exists_first_match (p : Matcher) (t : Text) :
    NoMatchWithin p t [] ∨
      ∃ u m v, u ++ (m ++ v) = t ∧ NoMatchWithin p u (m ++ v) ∧ IsLongestMatch p m v := by
  induction t with
  | nil => exact .inl (noMatchWithin_nil p [])
  | cons c t ih =>
      cases here : longestFromBack? p (c :: t) 0 with
      | some fromBack =>
          have inside := lt_of_longestFromBack? here
          rw [length_boundaries] at inside
          have split := List.take_append_drop ((c :: t).length - fromBack) (c :: t)
          have behind : ((c :: t).drop ((c :: t).length - fromBack)).length = fromBack := by
            rw [List.length_drop]
            omega
          refine .inr ⟨[], _, _, split, noMatchWithin_nil p _, (longestFromBack?_eq_length_iff (w := [])).1 ?_⟩
          rw [behind, split]
          exact here
      | none =>
          have none := (longestFromBack?_eq_none_iff (w := [])).1 here
          rcases ih with later | ⟨u, m, v, rfl, before, longest⟩
          · exact .inl (noMatchWithin_cons.2 ⟨by rwa [List.append_nil], later⟩)
          · exact .inr ⟨c :: u, m, v, rfl, noMatchWithin_cons.2 ⟨none, before⟩, longest⟩

/-- A text in which no match begins ends before the first match. -/
theorem NoMatchWithin.length_le {u' m' v' : Text} (none : NoMatchWithin p u after)
    (longest : IsLongestMatch p m' v') (same : u ++ after = u' ++ (m' ++ v')) :
    u.length ≤ u'.length := by
  by_contra longer
  obtain ⟨b, rfl⟩ : u' <+: u :=
    List.prefix_of_prefix_length_le ⟨m' ++ v', same.symm⟩ (List.prefix_append u after) (by omega)
  have ne : b ≠ [] := by
    rintro rfl
    simp at longer
  rw [List.append_assoc] at same
  have missed := none u' b rfl ne m' longest.nonempty ⟨v', (List.append_cancel_left same).symm⟩
  rw [longest.matched] at missed
  cases missed

/-- A match in the place of the longest one is not longer. -/
theorem IsLongestMatch.length_le {m' v' : Text} (longest : IsLongestMatch p m v)
    (matched : p m' = true) (same : m ++ v = m' ++ v') : m'.length ≤ m.length := by
  by_contra longer
  have missed := longest.longest m' ⟨v', same.symm⟩ (Nat.not_le.1 longer)
  rw [matched] at missed
  cases missed

/-! ### Markings -/

/-- A text with matches marked in it. -/
inductive Marking where
  /-- the text behind the last match -/
  | last (u : Text)
  /-- the text before a match, the match, and what follows it -/
  | next (u m : Text) (rest : Marking)

namespace Marking

/-- The text. -/
def source : Marking → Text
  | .last u => u
  | .next u m rest => u ++ (m ++ rest.source)

/-- The text with `r` in the place of every match. -/
def replaced (r : Text) : Marking → Text
  | .last u => u
  | .next u _ rest => u ++ (r ++ rest.replaced r)

/-- What is marked are the leftmost longest matches: each is the longest at its place, and no match begins in the
text before it or behind the last. -/
def IsLeftmostLongest (p : Matcher) : Marking → Prop
  | .last u => NoMatchWithin p u []
  | .next u m rest =>
      NoMatchWithin p u (m ++ rest.source) ∧ IsLongestMatch p m rest.source ∧ rest.IsLeftmostLongest p

/-- Replacing all matches replaces those that are marked, behind any text that is done. -/
theorem IsLeftmostLongest.replaceFrom {d : Marking} (h : d.IsLeftmostLongest p) (r w : Text) :
    replaceFrom p true r (w ++ d.source) w.length = d.replaced r := by
  induction d generalizing w with
  | last u =>
      have copied := NoMatchWithin.replaceFrom h true r w
      rwa [List.append_nil, replaceFrom_end, List.append_nil] at copied
  | next u m rest ih =>
      obtain ⟨before, longest, later⟩ := h
      rw [source, before.replaceFrom, replaced, ← List.append_assoc w, longest.replaceFrom, if_pos rfl,
        ← List.append_assoc (w ++ u), ih later]

/-- Every text can be marked. -/
theorem exists_isLeftmostLongest (p : Matcher) (t : Text) :
    ∃ d : Marking, d.source = t ∧ d.IsLeftmostLongest p := by
  -- a match takes at least one character, so the induction is on the length
  induction length : t.length using Nat.strongRecOn generalizing t with
  | ind n ih =>
      rcases exists_first_match p t with none | ⟨u, m, v, parts, before, longest⟩
      · exact ⟨.last t, rfl, none⟩
      · have shorter : v.length < n := by
          have taken := List.length_pos_iff.2 longest.nonempty
          rw [← length, ← parts, List.length_append, List.length_append]
          omega
        obtain ⟨rest, rfl, later⟩ := ih v.length shorter v rfl
        exact ⟨.next u m rest, parts, before, longest, later⟩

/-- No text can be marked in two ways. -/
theorem IsLeftmostLongest.unique {d d' : Marking} (h : d.IsLeftmostLongest p)
    (h' : d'.IsLeftmostLongest p) (same : d.source = d'.source) : d = d' := by
  -- a text without matches cannot reach beyond the first match of the other marking
  have ends {u u' m' : Text} {rest' : Marking} (none : NoMatchWithin p u [])
      (longest : IsLongestMatch p m' rest'.source) (same : u = u' ++ (m' ++ rest'.source)) : False := by
    have le := none.length_le longest ((List.append_nil u).trans same)
    have taken := List.length_pos_iff.2 longest.nonempty
    rw [same, List.length_append, List.length_append] at le
    omega
  induction d generalizing d' with
  | last u =>
      cases d' with
      | last u' => exact congrArg last same
      | next u' m' rest' => exact (ends h h'.2.1 same).elim
  | next u m rest ih =>
      cases d' with
      | last u' => exact (ends h' h.2.1 same.symm).elim
      | next u' m' rest' =>
          obtain ⟨before, longest, later⟩ := h
          obtain ⟨before', longest', later'⟩ := h'
          rw [source, source] at same
          have place : u.length = u'.length :=
            Nat.le_antisymm (before.length_le longest' same) (before'.length_le longest same.symm)
          obtain ⟨rfl, behind⟩ := List.append_inj same place
          have size : m.length = m'.length :=
            Nat.le_antisymm (longest'.length_le longest.matched behind.symm)
              (longest.length_le longest'.matched behind)
          obtain ⟨rfl, sources⟩ := List.append_inj behind size
          rw [ih later later' sources]

end Marking

/-! ### Replacing -/

/-- All matches are replaced in one marking of the text. -/
theorem Marking.IsLeftmostLongest.replaceMatches {d : Marking} (h : d.IsLeftmostLongest p) (r : Text) :
    replaceMatches p true none r d.source = d.replaced r :=
  h.replaceFrom r []

/-- One match is replaced, unless there is none. -/
theorem replaceMatches_first_cases (p : Matcher) (t : Text) :
    (∃ u m v, u ++ (m ++ v) = t ∧ NoMatchWithin p u (m ++ v) ∧ IsLongestMatch p m v ∧
      ∀ r, replaceMatches p false none r t = u ++ (r ++ v)) ∨
    (∀ m, m ≠ [] → m <:+: t → p m = false) ∧ ∀ r, replaceMatches p false none r t = t := by
  rcases exists_first_match p t with none | ⟨u, m, v, rfl, before, longest⟩
  · refine .inr ⟨noMatchWithin_nil_right_iff.1 none, fun r => ?_⟩
    have copied := none.replaceFrom false r []
    rwa [List.append_nil, List.nil_append, replaceFrom_end, List.append_nil] at copied
  · refine .inl ⟨u, m, v, rfl, before, longest, fun r => ?_⟩
    have copied := before.replaceFrom false r []
    rwa [List.nil_append, List.nil_append, longest.replaceFrom] at copied

/-- **Replacing takes the leftmost longest matches.**  Every text has exactly one marking of its leftmost longest
matches, and replacing all matches gives the text with the replacement in their places, for every replacement.
Replacing one match replaces the longest one at the first place where a match begins; the text stays as it is only
if no part of it, apart from the empty one, is matched. -/
theorem replaceMatches_leftmost_longest (p : Matcher) (t : Text) :
    (∃ d : Marking, (d.source = t ∧ d.IsLeftmostLongest p) ∧
      (∀ d' : Marking, d'.source = t ∧ d'.IsLeftmostLongest p → d' = d) ∧
      ∀ r, replaceMatches p true none r t = d.replaced r) ∧
    ((∃ u m v, u ++ (m ++ v) = t ∧ NoMatchWithin p u (m ++ v) ∧ IsLongestMatch p m v ∧
        ∀ r, replaceMatches p false none r t = u ++ (r ++ v)) ∨
      (∀ m, m ≠ [] → m <:+: t → p m = false) ∧ ∀ r, replaceMatches p false none r t = t) := by
  refine ⟨?_, replaceMatches_first_cases p t⟩
  obtain ⟨d, rfl, marked⟩ := Marking.exists_isLeftmostLongest p t
  refine ⟨d, ⟨rfl, marked⟩, ?_, marked.replaceMatches⟩
  rintro d' ⟨same, marked'⟩
  exact marked'.unique marked same

end ShellWord
