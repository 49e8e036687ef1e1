import Mathlib.Data.List.Chain
import ShellWord.Proofs.Regex.Reading

/-!
# What the class of a regular expression is read as

In a class stand single characters, ranges and hyphens.  They are not kept apart by how they are written: a range is its
two ends with a hyphen in between.  `Spells` says that the members of a class are written for a list of items.
`Spells.classBody` and `Spells.classFault` say when an engine finds in that text what was put into it: the ends of every
range have to be in order, and no character whose doubling is reserved stands in front of itself (`Readable`).
Otherwise the class is refused.

### What is load-bearing

This holds where a hyphen stands behind a range, and nowhere else (`Linked`).  A hyphen behind a single character
is read together with what is on its other side, as a range from the one to the other.  `draw` does
this to the items themselves.  The text that is written for them stays the same (`Spells.draw`) and hyphens are left
behind ranges only (`isChain_linked_draw`), so what is read is known for all other items as well.
-/

namespace ShellWord.Bracket

open Regex (ClassChar ClassBody ClassFault)

/-- The characters whose doubling is reserved in a class. -/
def isReserved (c : Char) : Bool :=
  c == '&' || c == '~'

/-- A single character, a range of characters, or a hyphen that is not known to be either. -/
inductive Item where
  | char (c : Char)
  | range (low high : Char)
  | hyphen
  deriving DecidableEq, Repr

namespace Item

/-- The character is one of those that the item stands for. -/
def lists (c : Char) : Item → Bool
  | .char d => c == d
  | .range low high => low ≤ c && c ≤ high
  | .hyphen => c == '-'

/-- The ends of the item, taken as a range. -/
def bounds : Item → Char × Char
  | .char c => (c, c)
  | .range low high => (low, high)
  | .hyphen => ('-', '-')

/-- The character that the item begins with. -/
def begins? : Item → Option Char
  | .char c => some c
  | .range low _ => some low
  | .hyphen => none

/-- A range has its ends in order. -/
def isOrdered : Item → Bool
  | .range low high => low ≤ high
  | _ => true

/-- The first item is a character whose doubling is reserved, and the second one begins with it. -/
def doubles : Item → Item → Bool
  | .char c, next => isReserved c && next.begins? == some c
  | _, _ => false

theorem doubles_char_iff {c : Char} {next : Item} :
    (Item.char c).doubles next = true ↔ isReserved c = true ∧ next.begins? = some c := by
  rw [doubles, Bool.and_eq_true, beq_iff_eq]

/-- The item begins with no character whose doubling is reserved. -/
def isFree (item : Item) : Bool :=
  !item.begins?.any isReserved

theorem doubles_of_isFree {item : Item} (free : item.isFree = true) (next : Item) : item.doubles next = false := by
  cases item with
  | char c =>
      have notReserved : isReserved c = false := by simpa [isFree, begins?] using free
      rw [doubles, notReserved, Bool.false_and]
  | _ => rfl

theorem doubles_of_isFree_right (item : Item) {next : Item} (free : next.isFree = true) :
    item.doubles next = false := by
  cases item with
  | char c =>
      rw [doubles]
      by_cases begins : next.begins? = some c
      · have notReserved : isReserved c = false := by simpa [isFree, begins] using free
        rw [notReserved, Bool.false_and]
      · rw [beq_eq_false_iff_ne.2 begins, Bool.and_false]
  | _ => rfl

theorem inRange_single (c d : Char) : CharSet.inRange c (d, d) = (c == d) := by
  rw [Bool.eq_iff_iff, CharSet.inRange, Bool.and_eq_true, decide_eq_true_iff, decide_eq_true_iff, beq_iff_eq]
  exact ⟨fun both => Char.le_antisymm both.2 both.1, fun same => same ▸ ⟨Char.le_refl c, Char.le_refl c⟩⟩

theorem inRange_bounds (c : Char) (item : Item) : CharSet.inRange c item.bounds = item.lists c := by
  cases item with
  | char d => exact inRange_single c d
  | range low high => rfl
  | hyphen => exact inRange_single c '-'

end Item

/-- The items can be told apart from each other, and their ranges are in order. -/
def Readable (w : List Item) : Prop :=
  (∀ item ∈ w, item.isOrdered = true) ∧ w.IsChain fun item next => item.doubles next = false

instance (w : List Item) : Decidable (Readable w) :=
  inferInstanceAs (Decidable (_ ∧ _))

theorem readable_cons {item : Item} {w : List Item} :
    Readable (item :: w) ↔
      item.isOrdered = true ∧ (∀ next ∈ w.head?, item.doubles next = false) ∧ Readable w := by
  rw [Readable, Readable, List.forall_mem_cons, List.isChain_cons]
  tauto

/-- A hyphen stands behind a range only. -/
def Linked (item next : Item) : Prop :=
  next = .hyphen → ∃ low high, item = .range low high

/-- No two hyphens stand in a row. -/
def Apart (item next : Item) : Prop :=
  item = .hyphen → next ≠ .hyphen

/-! ### Writing items in a class -/

/-- The members of a class are written for a list of items. -/
inductive Spells : Text → List Item → Prop where
  | nil : Spells [] []
  | char {u v : Text} {c : Char} {w : List Item} (member : ClassChar u c) (others : Spells v w) :
      Spells (u ++ v) (.char c :: w)
  | range {u x v : Text} {low high : Char} {w : List Item} (lower : ClassChar u low)
      (upper : ClassChar x high) (others : Spells v w) :
      Spells (u ++ '-' :: (x ++ v)) (.range low high :: w)
  | hyphen {v : Text} {w : List Item} (others : Spells v w) : Spells ('-' :: v) (.hyphen :: w)

theorem Spells.append {u v : Text} {w x : List Item} (first : Spells u w) (second : Spells v x) :
    Spells (u ++ v) (w ++ x) := by
  induction first with
  | nil => exact second
  | char member _ ih => simpa using Spells.char member ih
  | range lower upper _ ih => simpa using Spells.range lower upper ih
  | hyphen _ ih => exact .hyphen ih

theorem eq_of_isReserved {c : Char} (h : isReserved c = true) : c = '&' ∨ c = '~' := by
  simpa [isReserved] using h

/-- A character whose doubling is reserved is always written bare. -/
theorem eq_singleton_of_isReserved {u : Text} {c : Char} (member : ClassChar u c)
    (reserved : isReserved c = true) : u = [c] := by
  cases member with
  | plain => rfl
  | escaped special =>
    obtain rfl | rfl := eq_of_isReserved reserved <;> cases special
  | control listed =>
    simp only [Regex.controls, List.mem_cons, Prod.mk.injEq, List.not_mem_nil, or_false] at listed
    rcases listed with ⟨-, rfl⟩ | ⟨-, rfl⟩ | ⟨-, rfl⟩ | ⟨-, rfl⟩ | ⟨-, rfl⟩ | ⟨-, rfl⟩ <;> cases reserved
  | @hexadecimal a b n _ control =>
    have free : ∀ n < 128, n < 32 ∨ n = 127 → isReserved (Char.ofNat n) = false := by decide
    rw [free n (by omega) control] at reserved
    cases reserved

/-- A text begins with a reserved character if it is written for that character. -/
theorem head?_eq_iff_of_isReserved {u : Text} {c d : Char} (member : ClassChar u d)
    (reserved : isReserved c = true) : u.head? = some c ↔ d = c := by
  constructor
  · intro first
    cases member with
    | plain => exact Option.some.inj first
    | escaped | control | hexadecimal =>
      obtain rfl := Option.some.inj first
      cases reserved
  · rintro rfl
    rw [eq_singleton_of_isReserved member reserved, List.head?_cons]

/-- What is written for items begins with a hyphen only if they do. -/
theorem Spells.head?_ne_hyphen {u : Text} {w : List Item} (h : Spells u w)
    (first : w.head? ≠ some .hyphen) : u.head? ≠ some '-' := by
  cases h with
  | nil => simp
  | char member | range member =>
    obtain ⟨d, v, rfl, -, -, -, hyphen⟩ := member.front
    simpa using hyphen
  | hyphen => exact absurd rfl first

/-- Something is written for every item. -/
theorem Spells.ne_nil {u : Text} {w : List Item} (h : Spells u w) (nonempty : w ≠ []) : u ≠ [] := by
  cases h with
  | nil => exact absurd rfl nonempty
  | char member | range member =>
    obtain ⟨d, v, rfl, -⟩ := member.front
    exact List.cons_ne_nil _ _
  | hyphen => exact List.cons_ne_nil _ _

/-- What is written for items begins with a reserved character exactly if they do. -/
theorem Spells.head?_eq_iff {u : Text} {w : List Item} {c : Char} (h : Spells u w)
    (reserved : isReserved c = true) :
    u.head? = some c ↔ ∃ next ∈ w.head?, next.begins? = some c := by
  have hyphen : ¬ '-' = c := by
    rintro rfl
    cases reserved
  have front {x : Text} {d : Char} (member : ClassChar x d) (v : Text) :
      (x ++ v).head? = some c ↔ d = c := by
    have own := head?_eq_iff_of_isReserved member reserved
    obtain ⟨e, y, rfl, -⟩ := member.front
    exact own
  cases h with
  | nil => simp
  | char member =>
    rw [front member]
    simp [Item.begins?]
  | range lower =>
    rw [front lower]
    simp [Item.begins?]
  | hyphen => simp [Item.begins?, hyphen]

/-- A doubled mark in front is a reserved character in front of itself. -/
theorem isDoubled_iff {u v : Text} {c : Char} {w : List Item} (member : ClassChar u c) (others : Spells v w) :
    Regex.isDoubled (u ++ v) = true ↔ ∃ next ∈ w.head?, (Item.char c).doubles next = true := by
  simp only [Item.doubles_char_iff]
  constructor
  · intro doubled
    obtain ⟨-, second, same⟩ := member.eq_of_isDoubled doubled
    have reserved : isReserved c = true := by simpa [isReserved] using same
    obtain ⟨next, first, begins⟩ := (others.head?_eq_iff reserved).1 second
    exact ⟨next, first, reserved, begins⟩
  · rintro ⟨next, first, reserved, begins⟩
    obtain ⟨rest, rfl⟩ := List.head?_eq_some_iff.1 ((others.head?_eq_iff reserved).2 ⟨next, first, begins⟩)
    rw [eq_singleton_of_isReserved member reserved]
    obtain rfl | rfl := eq_of_isReserved reserved <;> rfl

/-! ### Reading them back -/

/-- Behind what is no range no hyphen is written. -/
theorem Spells.single {item : Item} {v : Text} {w : List Item} (others : Spells v w)
    (linked : (item :: w).IsChain Linked) (no : ∀ low high, item ≠ .range low high) :
    v.head? ≠ some '-' := by
  refine others.head?_ne_hyphen fun first => ?_
  obtain ⟨low, high, same⟩ := (List.isChain_cons.1 linked).1 _ first rfl
  exact no low high same

/-- **An engine finds the items in the class**, if they are readable. -/
theorem Spells.classBody {u : Text} {w : List Item} (h : Spells u w) (linked : w.IsChain Linked)
    (readable : Readable w) : ClassBody u (w.map Item.bounds) := by
  induction h with
  | nil => exact .nil
  | char member others ih =>
    obtain ⟨-, apart, rest⟩ := readable_cons.1 readable
    refine .char member (others.single linked (by simp)) ?_ (ih (List.isChain_cons.1 linked).2 rest)
    rw [← Bool.not_eq_true, isDoubled_iff member others]
    rintro ⟨next, first, doubles⟩
    rw [apart next first] at doubles
    cases doubles
  | range lower upper _ ih =>
    obtain ⟨ordered, -, rest⟩ := readable_cons.1 readable
    exact .range lower upper (of_decide_eq_true ordered) (ih (List.isChain_cons.1 linked).2 rest)
  | hyphen others ih =>
    obtain ⟨-, -, rest⟩ := readable_cons.1 readable
    exact .hyphen (others.single linked (by simp)) (ih (List.isChain_cons.1 linked).2 rest)

/-- **Otherwise it refuses the class.** -/
theorem Spells.classFault {u : Text} {w : List Item} (h : Spells u w) (linked : w.IsChain Linked)
    (unreadable : ¬ Readable w) : ClassFault u := by
  induction h with
  | nil => exact absurd (by decide) unreadable
  | @char u v c w member others ih =>
    by_cases doubled : Regex.isDoubled (u ++ v) = true
    · exact .doubled doubled
    have apart : ∀ next ∈ w.head?, (Item.char c).doubles next = false := by
      intro next first
      rw [← Bool.not_eq_true]
      exact fun doubles => doubled ((isDoubled_iff member others).2 ⟨next, first, doubles⟩)
    have rest : ¬ Readable w := fun rest => unreadable (readable_cons.2 ⟨rfl, apart, rest⟩)
    exact .char member (others.single linked (by simp)) (Bool.eq_false_iff.2 doubled)
      (ih (List.isChain_cons.1 linked).2 rest)
  | @range u x v low high w lower upper _ ih =>
    by_cases ordered : low ≤ high
    · have rest : ¬ Readable w := fun rest =>
        unreadable (readable_cons.2 ⟨decide_eq_true ordered, fun _ _ => rfl, rest⟩)
      exact .range lower upper ordered (ih (List.isChain_cons.1 linked).2 rest)
    · exact .disordered lower upper (Char.not_le.1 ordered)
  | @hyphen v w others ih =>
    have rest : ¬ Readable w := fun rest => unreadable (readable_cons.2 ⟨rfl, fun _ _ => rfl, rest⟩)
    exact .hyphen (others.single linked (by simp)) (ih (List.isChain_cons.1 linked).2 rest)

/-! ### Drawing ranges -/

/-- Make a range of two characters with a hyphen between them.  Where the second character is the beginning of a
range itself, the end of that range is left over behind a hyphen. -/
def draw : List Item → List Item
  | .char c :: .hyphen :: .char d :: w => .range c d :: draw w
  | .char c :: .hyphen :: .range low high :: w => .range c low :: .hyphen :: draw (.char high :: w)
  | item :: w => item :: draw w
  | [] => []
termination_by w => w.length

/-- The same text is written for the items that are drawn. -/
theorem Spells.draw {u : Text} {w : List Item} (h : Spells u w) : Spells u (draw w) := by
  fun_induction Bracket.draw w generalizing u with
  | case1 c d w ih =>
    cases h with | char lower h =>
    cases h with | hyphen h =>
    cases h with | char upper others =>
    exact .range lower upper (ih others)
  | case2 c low high w ih =>
    cases h with | char lower h =>
    cases h with | hyphen h =>
    cases h with | range upper last others =>
    exact .range lower upper (.hyphen (ih (.char last others)))
  | case3 item w _ _ ih =>
    cases h with
    | char member others => exact .char member (ih others)
    | range lower upper others => exact .range lower upper (ih others)
    | hyphen others => exact .hyphen (ih others)
  | case4 => exact h

theorem draw_ne_nil {w : List Item} (h : w ≠ []) : draw w ≠ [] := by
  fun_cases draw w with
  | case4 => exact absurd rfl h
  | _ => exact List.cons_ne_nil _ _

theorem head?_draw_eq_hyphen {w : List Item} (h : (draw w).head? = some .hyphen) : w.head? = some .hyphen := by
  fun_cases draw w with
  | case1 c d w => simp [draw] at h
  | case2 c low high w => simp [draw] at h
  | case3 item w _ _ => simpa [draw] using h
  | case4 => simp [draw] at h

theorem getLast?_ne_of_cons {item other : Item} {w : List Item} (h : (item :: w).getLast? ≠ some other) :
    w.getLast? ≠ some other := by
  cases w with
  | nil => simp
  | cons next w => rwa [List.getLast?_cons_cons] at h

/-- Afterwards hyphens are behind ranges only, unless there were two in a row or one at the end. -/
theorem isChain_linked_draw {w : List Item} (apart : w.IsChain Apart)
    (last : w.getLast? ≠ some .hyphen) : (draw w).IsChain Linked := by
  fun_induction draw w with
  | case1 c d w ih =>
      refine List.isChain_cons.2 ⟨fun _ _ _ => ⟨c, d, rfl⟩, ih (apart.drop 3) ?_⟩
      exact getLast?_ne_of_cons (getLast?_ne_of_cons (getLast?_ne_of_cons last))
  | case2 c low high w ih =>
      have lastOfRest : (Item.char high :: w).getLast? ≠ some .hyphen := by
        cases w with
        | nil => simp
        | cons next w => simpa [List.getLast?_cons_cons] using last
      have apartInRest : (Item.char high :: w).IsChain Apart :=
        List.isChain_cons.2 ⟨fun _ _ isHyphen => (nomatch isHyphen), apart.drop 3⟩
      refine List.isChain_cons_cons.2 ⟨fun _ => ⟨c, low, rfl⟩, List.isChain_cons.2 ⟨?_, ih apartInRest lastOfRest⟩⟩
      rintro next mem rfl
      cases head?_draw_eq_hyphen mem
  | case3 item w notChar notRange ih =>
      obtain ⟨behind, rest⟩ := List.isChain_cons.1 apart
      refine List.isChain_cons.2 ⟨?_, ih rest (getLast?_ne_of_cons last)⟩
      rintro next mem rfl
      have first := head?_draw_eq_hyphen mem
      cases item with
      | range low high => exact ⟨low, high, rfl⟩
      | hyphen => exact absurd rfl (behind _ first rfl)
      | char c =>
          -- a character, a hyphen and something else would have been a range
          obtain ⟨w, rfl⟩ := List.head?_eq_some_iff.1 first
          rcases w with - | ⟨next, w⟩
          · simp at last
          cases next with
          | char d => exact absurd rfl (notChar c d w rfl)
          | range low high => exact absurd rfl (notRange c low high w rfl)
          | hyphen => exact absurd rfl ((List.isChain_cons_cons.1 rest).1 rfl)
  | case4 => exact .nil

/-- Where hyphens are behind ranges only, no range is drawn. -/
theorem draw_of_linked {w : List Item} (linked : w.IsChain Linked) : draw w = w := by
  fun_induction draw w with
  | case1 c d w ih => simp [List.isChain_cons_cons, Linked] at linked
  | case2 c low high w ih => simp [List.isChain_cons_cons, Linked] at linked
  | case3 item w _ _ ih => rw [ih (List.isChain_cons.1 linked).2]
  | case4 => rfl

end ShellWord.Bracket
