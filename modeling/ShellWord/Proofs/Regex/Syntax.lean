import ShellWord.Proofs.Regex.Matching
import ShellWord.Regex.Reader

/-!
# How regular expressions are written

The relation `Regex.Reads` says which texts denote which expressions, without saying how they are read:
characters without a meaning, escaped ones, the dot, the anchors, classes, groups, repetitions, sequences
and alternatives.  It is the part of the notation that engines agree on.  A class is refused when one of
its ranges is in the wrong order or when it has one of the doubled marks; `Regex.Faulty` says that a text
has such a class.

`Engine.Standard` is what is asked of an engine: texts that denote an expression are matched as the
expression is, those within its limits do compile, and texts with a faulty class do not.

## Main definitions

* `Regex.Reads`: a text denotes an expression
* `Regex.Faulty`: a text has a class that is refused
* `Engine.Standard`: the engine treats both as it should
* `Regex.Factors`: a text denotes one expression after the other

## Main results

* `Regex.Factors.reads` and `Regex.reads_choice`: sequences and alternatives of any length
* `Regex.Reads.anchored`: the same in a group and between anchors
-/

open Computability

namespace ShellWord

namespace Regex

/-! ### Classes -/

/-- The characters that have a meaning in a class. -/
def isClassSpecial (c : Char) : Bool :=
  ['[', ']', '\\', '^', '-'].contains c

/-- A member of a class, or an end of a range, as it is written. -/
inductive ClassChar : Text → Char → Prop
  | plain {c : Char} (h : isClassSpecial c = false) : ClassChar [c] c
  | escaped {c : Char} (h : isClassSpecial c = true) : ClassChar ['\\', c] c
  | control {letter c : Char} (h : (letter, c) ∈ controls) : ClassChar ['\\', letter] c
  | hexadecimal {a b : Char} {n : Nat} (h : Numeral.natural? 16 [a, b] = some n)
      (control : n < 32 ∨ n = 127) : ClassChar ['\\', 'x', a, b] (Char.ofNat n)

/-- The ranges that the members of a class list.  A hyphen between two members makes a range; behind a
range it stands for itself. -/
inductive ClassBody : Text → List (Char × Char) → Prop
  | nil : ClassBody [] []
  | char {u v : Text} {c : Char} {ranges : List (Char × Char)} (member : ClassChar u c)
      (single : v.head? ≠ some '-') (undoubled : isDoubled (u ++ v) = false)
      (others : ClassBody v ranges) : ClassBody (u ++ v) ((c, c) :: ranges)
  | range {u w v : Text} {low high : Char} {ranges : List (Char × Char)} (lower : ClassChar u low)
      (upper : ClassChar w high) (ordered : low ≤ high) (others : ClassBody v ranges) :
      ClassBody (u ++ '-' :: (w ++ v)) ((low, high) :: ranges)
  | hyphen {v : Text} {ranges : List (Char × Char)} (single : v.head? ≠ some '-')
      (others : ClassBody v ranges) : ClassBody ('-' :: v) (('-', '-') :: ranges)

/-- The members of a class, up to one that makes the class be refused, and anything behind that. -/
inductive ClassFault : Text → Prop
  | doubled {t : Text} (h : isDoubled t = true) : ClassFault t
  | disordered {u w v : Text} {low high : Char} (lower : ClassChar u low) (upper : ClassChar w high)
      (h : high < low) : ClassFault (u ++ '-' :: (w ++ v))
  | char {u v : Text} {c : Char} (member : ClassChar u c) (single : v.head? ≠ some '-')
      (undoubled : isDoubled (u ++ v) = false) (others : ClassFault v) : ClassFault (u ++ v)
  | range {u w v : Text} {low high : Char} (lower : ClassChar u low) (upper : ClassChar w high)
      (ordered : low ≤ high) (others : ClassFault v) : ClassFault (u ++ '-' :: (w ++ v))
  | hyphen {v : Text} (single : v.head? ≠ some '-') (others : ClassFault v) :
      ClassFault ('-' :: v)

/-- The mark behind the opening bracket of a class that is negated. -/
def negation (negated : Bool) : Text :=
  if negated then ['^'] else []

/-! ### Expressions -/

/-- The characters that have a meaning in an expression. -/
def isMeta (c : Char) : Bool :=
  ['\\', '.', '+', '*', '?', '(', ')', '|', '[', ']', '\x7b', '\x7d', '^', '$'].contains c

/-- The character that denotes a repetition. -/
def symbol : Repetition → Char
  | .anyNumber => '*'
  | .atLeastOnce => '+'
  | .atMostOnce => '?'

/-- How tightly the parts of an expression hold together. -/
inductive Level where
  | atom
  | factor
  | branch
  | whole

/-- A text denotes an expression. -/
inductive Reads : Level → Text → Regex → Prop
  | char {c : Char} (h : isMeta c = false) : Reads .atom [c] (.one (.single c))
  | escaped {c : Char} (h : isMeta c = true) : Reads .atom ['\\', c] (.one (.single c))
  | dot : Reads .atom ['.'] (.one .all)
  | start : Reads .atom ['^'] .start
  | finish : Reads .atom ['$'] .finish
  | listed {negated : Bool} {body : Text} {ranges : List (Char × Char)}
      (members : ClassBody body ranges) (nonempty : body ≠ []) (front : body.head? ≠ some '-') :
      Reads .atom ('[' :: (negation negated ++ (body ++ [']']))) (.one ⟨negated, ranges⟩)
  | group {u : Text} {r : Regex} (inner : Reads .whole u r) :
      Reads .atom ('(' :: '?' :: ':' :: (u ++ [')'])) (.group r)
  | once {u : Text} {r : Regex} (inner : Reads .atom u r) : Reads .factor u r
  | repeated {u : Text} {r : Regex} (count : Repetition) (inner : Reads .atom u r) :
      Reads .factor (u ++ [symbol count]) (.repeated count r)
  | nothing : Reads .branch [] .empty
  | next {u v : Text} {r s : Regex} (first : Reads .factor u r) (others : Reads .branch v s) :
      Reads .branch (u ++ v) (followedBy r s)
  | last {u : Text} {r : Regex} (only : Reads .branch u r) : Reads .whole u r
  | more {u v : Text} {r s : Regex} (first : Reads .branch u r) (others : Reads .whole v s) :
      Reads .whole (u ++ '|' :: v) (.either r s)

/-- A text has a faulty class, behind what denotes expressions. -/
inductive Faulty : Level → Text → Prop
  | listed {negated : Bool} {t : Text} (fault : ClassFault t) (front : t.head? ≠ some '-') :
      Faulty .atom ('[' :: (negation negated ++ t))
  | group {t : Text} (inner : Faulty .whole t) : Faulty .atom ('(' :: '?' :: ':' :: t)
  | once {t : Text} (inner : Faulty .atom t) : Faulty .factor t
  | first {t : Text} (inner : Faulty .factor t) : Faulty .branch t
  | next {u t : Text} {r : Regex} (first : Reads .factor u r) (others : Faulty .branch t) :
      Faulty .branch (u ++ t)
  | last {t : Text} (inner : Faulty .branch t) : Faulty .whole t

end Regex

/-- What is asked of an engine that compiles the expressions of the texts that `admits` holds of: it
matches as the expressions do, and it refuses faulty classes. -/
structure Engine.Standard (engine : Engine) (admits : Text → Prop) : Prop where
  /-- what compiles matches as the expression does -/
  finds {u : Text} {r : Regex} {m : Matcher} (reads : Regex.Reads .whole u r)
    (compiled : engine (Regex.dotFlag ++ u) = some m) (t : Text) : m t = true ↔ r.Finds t
  /-- what is within the limits of the engine compiles -/
  compiles {u : Text} {r : Regex} (reads : Regex.Reads .whole u r)
    (admitted : admits (Regex.dotFlag ++ u)) : ∃ m, engine (Regex.dotFlag ++ u) = some m
  /-- faulty classes are refused -/
  refuses {u : Text} (faulty : Regex.Faulty .whole u) : engine (Regex.dotFlag ++ u) = none

namespace Regex

/-! ### Sequences and alternatives of any length -/

/-- One expression after the other. -/
def sequence : List Regex → Regex
  | [] => .empty
  | r :: rs => followedBy r (sequence rs)

/-- One of several expressions. -/
def choice : List Regex → Regex
  | [] => .empty
  | [r] => r
  | r :: s :: rs => .either r (choice (s :: rs))

@[simp] theorem choice_singleton (r : Regex) : choice [r] = r := rfl

@[simp] theorem choice_cons_cons (r s : Regex) (rs : List Regex) :
    choice (r :: s :: rs) = .either r (choice (s :: rs)) := rfl

@[simp] theorem language_followedBy (r s : Regex) :
    (followedBy r s).language = r.language * s.language := by
  cases s with
  | empty => exact (mul_one _).symm
  | _ => rfl

@[simp] theorem isUnanchored_followedBy (r s : Regex) :
    (followedBy r s).isUnanchored = (r.isUnanchored && s.isUnanchored) := by
  cases s with
  | empty => exact (Bool.and_true _).symm
  | _ => rfl

theorem language_sequence (rs : List Regex) :
    (sequence rs).language = (rs.map language).prod := by
  induction rs with
  | nil => rfl
  | cons r rs ih => rw [sequence, language_followedBy, ih, List.map_cons, List.prod_cons]

theorem isUnanchored_sequence (rs : List Regex) :
    (sequence rs).isUnanchored = rs.all isUnanchored := by
  induction rs with
  | nil => rfl
  | cons r rs ih => rw [sequence, isUnanchored_followedBy, ih, List.all_cons]

theorem language_choice {rs : List Regex} (nonempty : rs ≠ []) :
    (choice rs).language = (rs.map language).sum := by
  induction rs with
  | nil => exact absurd rfl nonempty
  | cons r rs ih =>
    cases rs with
    | nil => simp
    | cons s rs =>
      change r.language + (choice (s :: rs)).language = _
      rw [ih (List.cons_ne_nil s rs), List.map_cons, List.map_cons, List.map_cons, List.sum_cons,
        List.sum_cons, List.sum_cons]

theorem isUnanchored_choice (rs : List Regex) :
    (choice rs).isUnanchored = rs.all isUnanchored := by
  induction rs with
  | nil => rfl
  | cons r rs ih =>
    cases rs with
    | nil => simp
    | cons s rs => rw [choice_cons_cons, isUnanchored, ih, ← List.all_cons]

/-- A text denotes one expression after the other. -/
inductive Factors : Text → List Regex → Prop
  | nil : Factors [] []
  | cons {u v : Text} {r : Regex} {rs : List Regex} (first : Reads .factor u r)
      (others : Factors v rs) : Factors (u ++ v) (r :: rs)

theorem Factors.append {u v : Text} {rs ss : List Regex} (first : Factors u rs)
    (second : Factors v ss) : Factors (u ++ v) (rs ++ ss) := by
  induction first with
  | nil => exact second
  | cons reads _ ih => simpa using Factors.cons reads ih

theorem Factors.single {u : Text} {r : Regex} (reads : Reads .factor u r) : Factors u [r] := by
  simpa using Factors.cons reads .nil

theorem Factors.reads {u : Text} {rs : List Regex} (h : Factors u rs) :
    Reads .branch u (sequence rs) := by
  induction h with
  | nil => exact .nothing
  | cons first _ ih => exact .next first ih

/-- Texts with bars between them denote a choice. -/
theorem reads_choice {us : List Text} {rs : List Regex} (each : List.Forall₂ (Reads .branch) us rs)
    (nonempty : us ≠ []) : Reads .whole (List.intercalate ['|'] us) (choice rs) := by
  induction each with
  | nil => exact absurd rfl nonempty
  | @cons u r us rs first others ih =>
    cases others with
    | nil => simpa using Reads.last first
    | cons second others => simpa using Reads.more first (ih (List.cons_ne_nil _ _))

/-- An expression in a group and between anchors, as it is written. -/
theorem Reads.anchored {u : Text} {r : Regex} (h : Reads .whole u r) :
    Reads .whole ('^' :: '(' :: '?' :: ':' :: (u ++ [')', '$'])) r.anchored := by
  have closed : Factors ('^' :: '(' :: '?' :: ':' :: (u ++ [')', '$'])) [.start, .group r, .finish] := by
    simpa using (Factors.single (.once .start)).append
      ((Factors.single (.once (.group h))).append (Factors.single (.once .finish)))
  exact .last closed.reads

/-- A faulty class in a group behind an anchor. -/
theorem Faulty.anchored {t : Text} (h : Faulty .whole t) : Faulty .whole ('^' :: '(' :: '?' :: ':' :: t) :=
  .last (.next (.once .start) (.first (.once (.group h))))

end Regex

end ShellWord
