import Mathlib.Data.List.Forall2
import Mathlib.Data.Nat.Digits.Defs
import ShellWord.Proofs.Arith.Lexing

/-!
# Numerals in every base

A numeral is a run of digits, and what it denotes is the sum of its digits, each times a power of the base.  Here
this is said without the reader: a digit is a place in the `alphabet`, and `Denotes base t n` says that the characters
of `t` are digits of the base whose positional value is `n`.

Against this stand the four notations that are read.  They overlap at the front, since a base and an octal numeral may
begin like a decimal one; the two functions that give values to characters know different alphabets; and what is too
large wraps around in one notation and is refused in the others.  `base#digits` is read as the value modulo 2^64
(`wrapped_eq`, a fold that is followed through the reduction), the others as the value itself or not at all
(`signed?_of_denotes`).  `read?_numerals` puts the four together.
-/

namespace ShellWord.Numeral

/-! ### Digits -/

/-- The digits of all bases, in the order of their values. -/
def alphabet : Text :=
  ['0', '1', '2', '3', '4', '5', '6', '7', '8', '9',
   'a', 'b', 'c', 'd', 'e', 'f', 'g', 'h', 'i', 'j', 'k', 'l', 'm',
   'n', 'o', 'p', 'q', 'r', 's', 't', 'u', 'v', 'w', 'x', 'y', 'z',
   'A', 'B', 'C', 'D', 'E', 'F', 'G', 'H', 'I', 'J', 'K', 'L', 'M',
   'N', 'O', 'P', 'Q', 'R', 'S', 'T', 'U', 'V', 'W', 'X', 'Y', 'Z',
   '@', '_']

/-- The character is the digit of this value in the base.  In the bases up to 36 capital letters are small ones. -/
def IsDigit (base : Nat) (c : Char) (d : Nat) : Prop :=
  d < base ∧ alphabet[d]? = some (if base ≤ 36 then c.toLower else c)

instance (base : Nat) (c : Char) (d : Nat) : Decidable (IsDigit base c d) :=
  inferInstanceAs (Decidable (_ ∧ _))

/-- What holds of the characters below 128 can be checked one by one. -/
theorem of_toNat_lt {P : Char → Prop} (all : ∀ n : Fin 128, P (Char.ofNat n)) {c : Char} (h : c.toNat < 128) : P c := by
  have here := all ⟨c.toNat, h⟩
  rwa [Char.ofNat_toNat] at here

/-- Capital letters are below 128, so other characters are left as they are. -/
theorem toLower_of_le {c : Char} (h : 128 ≤ c.toNat) : c.toLower = c := by
  have capital : ¬ (c.val ≥ 'A'.val ∧ c.val ≤ 'Z'.val) := by
    rintro ⟨-, high⟩
    have : c.toNat ≤ 90 := UInt32.le_iff_toNat_le.1 high
    omega
  exact dif_neg capital

/-- Characters from 128 on are no digits. -/
theorem letterDigit?_of_le {c : Char} (h : 128 ≤ c.toNat) : letterDigit? c = none := by
  have beyond (d : Char) (small : d.toNat < 128) : ¬ c ≤ d := fun le =>
    absurd (Nat.le_trans h ((Arith.char_le_iff c d).1 le)) (Nat.not_le.2 small)
  simp [letterDigit?, Text.isDigit, beyond '9' (by decide), beyond 'z' (by decide), beyond 'Z' (by decide)]

theorem digitValue?_of_le {c : Char} (h : 128 ≤ c.toNat) (base : Nat) : digitValue? base c = none := by
  have beyond (d : Char) (small : d.toNat < 128) : c ≠ d := by
    rintro rfl
    omega
  have capital : ¬ c ≤ 'Z' := fun le =>
    absurd (Nat.le_trans h ((Arith.char_le_iff c 'Z').1 le)) (by decide)
  simp [digitValue?, beyond '@' (by decide), beyond '_' (by decide), capital, letterDigit?_of_le h]

/-- Capital letters have the values of small ones. -/
theorem letterDigit?_toLower (c : Char) : letterDigit? c.toLower = letterDigit? c := by
  by_cases small : c.toNat < 128
  · exact of_toNat_lt (P := fun c => letterDigit? c.toLower = letterDigit? c) (by decide +kernel) small
  · rw [toLower_of_le (Nat.le_of_not_lt small)]

/-- **The value of a digit below 36** is its place in the alphabet. -/
theorem letterDigit?_eq_some_iff {c : Char} {d : Nat} :
    letterDigit? c = some d ↔ d < 36 ∧ alphabet[d]? = some c.toLower := by
  constructor
  · intro value
    have small : c.toNat < 128 := by
      by_contra large
      rw [letterDigit?_of_le (Nat.le_of_not_lt large)] at value
      cases value
    exact of_toNat_lt (P := fun c => ∀ d ∈ letterDigit? c, d < 36 ∧ alphabet[d]? = some c.toLower)
      (by decide +kernel) small d value
  · rintro ⟨small, place⟩
    have listed : ∀ d : Fin 36, alphabet[d.val]?.bind letterDigit? = some d.val := by decide +kernel
    have here : alphabet[d]?.bind letterDigit? = some d := listed ⟨d, small⟩
    rw [place] at here
    exact (letterDigit?_toLower c).symm.trans here

/-- **The value of a digit in a large base** is its place in the alphabet. -/
theorem digitValue?_eq_some_iff {base : Nat} (large : 36 < base) {c : Char} {d : Nat} :
    digitValue? base c = some d ↔ alphabet[d]? = some c := by
  have same : digitValue? base c = digitValue? 64 c := by
    simp only [digitValue?, large, decide_true, Bool.true_and]
    rfl
  rw [same]
  constructor
  · intro value
    have small : c.toNat < 128 := by
      by_contra large
      rw [digitValue?_of_le (Nat.le_of_not_lt large)] at value
      cases value
    exact of_toNat_lt (P := fun c => ∀ d ∈ digitValue? 64 c, alphabet[d]? = some c) (by decide +kernel) small d value
  · intro place
    have listed : ∀ d : Fin 64, alphabet[d.val]?.bind (digitValue? 64) = some d.val := by decide +kernel
    obtain ⟨within, -⟩ := List.getElem?_eq_some_iff.1 place
    have here : alphabet[d]?.bind (digitValue? 64) = some d := listed ⟨d, within⟩
    rwa [place] at here

theorem isDigit_iff_letterDigit? {base : Nat} (small : base ≤ 36) {c : Char} {d : Nat} :
    IsDigit base c d ↔ letterDigit? c = some d ∧ d < base := by
  rw [IsDigit, if_pos small, letterDigit?_eq_some_iff]
  constructor
  · rintro ⟨below, place⟩
    exact ⟨⟨by omega, place⟩, below⟩
  · rintro ⟨⟨-, place⟩, below⟩
    exact ⟨below, place⟩

/-- **Both functions give the digits of a base their values.** -/
theorem isDigit_iff_digitValue? {base : Nat} {c : Char} {d : Nat} :
    IsDigit base c d ↔ digitValue? base c = some d ∧ d < base := by
  by_cases small : base ≤ 36
  · rw [isDigit_iff_letterDigit? small]
    refine and_congr_left fun below => ?_
    -- `@` and `_` have values in small bases as well, but these are too large
    have excess {v : Nat} (none : letterDigit? c = none) (large : 36 ≤ v) :
        letterDigit? c = some d ↔ some v = some d := by
      rw [none]
      refine iff_of_false nofun fun same => ?_
      obtain rfl := Option.some.inj same
      omega
    rw [digitValue?]
    split
    · next same =>
      rw [beq_iff_eq.1 same] at excess ⊢
      exact excess rfl (by decide)
    · split
      · next same =>
        rw [beq_iff_eq.1 same] at excess ⊢
        exact excess rfl (by decide)
      · rw [if_neg (by simp [Nat.not_lt.2 small])]
  · rw [IsDigit, if_neg small, digitValue?_eq_some_iff (Nat.lt_of_not_le small), and_comm]

/-- Signs and marks are digits in no base. -/
theorem ne_of_isDigit {base : Nat} {c e : Char} {d : Nat} (h : IsDigit base c d) (low : e.toLower ∉ alphabet)
    (high : e ∉ alphabet) : c ≠ e := by
  rintro rfl
  have listed := List.mem_of_getElem? h.2
  split at listed
  · exact low listed
  · exact high listed

/-! ### Runs of digits -/

/-- The text is a run of digits of the base, at least one, and `n` is their positional value. -/
structure Denotes (base : Nat) (t : Text) (n : Nat) : Prop where
  ne_nil : t ≠ []
  positional : ∃ digits, List.Forall₂ (IsDigit base) t digits ∧ Nat.ofDigits base digits.reverse = n

theorem digits?_eq_some_iff {value? : Char → Option Nat} {base : Nat} {t : Text} {digits : List Nat} :
    digits? value? base t = some digits ↔
      List.Forall₂ (fun c d => value? c = some d ∧ d < base) t digits := by
  induction t generalizing digits with
  | nil => rw [digits?, List.forall₂_nil_left_iff, Option.some_inj, eq_comm]
  | cons c t ih =>
      rw [digits?, List.forall₂_cons_left_iff]
      constructor
      · intro read
        split at read
        · next d value =>
          split at read
          · next below =>
            obtain ⟨rest, others, rfl⟩ := Option.map_eq_some_iff.1 read
            exact ⟨d, rest, ⟨value, below⟩, ih.1 others, rfl⟩
          · cases read
        · cases read
      · rintro ⟨d, rest, ⟨value, below⟩, others, rfl⟩
        rw [value]
        dsimp only
        rw [if_pos below, ih.2 others, Option.map_some]

/-- **The digits are added up from the left**, and the sum is their positional value. -/
theorem value_eq (base : Nat) (digits : List Nat) : value base digits = Nat.ofDigits base digits.reverse := by
  rw [Nat.ofDigits_eq_foldr, List.foldr_reverse, value]
  congr 1
  funext n d
  rw [Nat.cast_id, Nat.add_comm, Nat.mul_comm]

/-- **Adding up in 64 bits** is adding up and reducing at the end. -/
theorem wrapped_eq (base : Nat) (digits : List Nat) :
    wrapped base digits = Int64.ofNat (Nat.ofDigits base digits.reverse) := by
  have step (n d : Nat) :
      Int64.ofNat n * Int64.ofNat base + Int64.ofNat d = Int64.ofNat (n * base + d) := by
    rw [Int64.ofNat_add, Int64.ofNat_mul]
  rw [← value_eq]
  exact List.foldl_hom Int64.ofNat step

/-- A numeral in a base up to 36, as it is read where it has to fit. -/
theorem natural?_of_denotes {base : Nat} (small : base ≤ 36) {t : Text} {n : Nat} (h : Denotes base t n) :
    natural? base t = some n := by
  obtain ⟨digits, spelled, denotes⟩ := h.positional
  have read : digits? letterDigit? base t = some digits :=
    digits?_eq_some_iff.2 (spelled.imp fun _ _ => (isDigit_iff_letterDigit? small).1)
  have nonempty : t.isEmpty = false := List.isEmpty_eq_false_iff.2 h.ne_nil
  rw [natural?, nonempty, if_neg Bool.false_ne_true, read, Option.map_some, value_eq, denotes]

theorem exists_isDigit_of_mem {base : Nat} {t : Text} {digits : List Nat} (h : List.Forall₂ (IsDigit base) t digits) :
    ∀ c ∈ t, ∃ d, IsDigit base c d := by
  induction h with
  | nil => exact fun _ mem => absurd mem List.not_mem_nil
  | cons digit _ ih => exact List.forall_mem_cons.2 ⟨⟨_, digit⟩, ih⟩

/-- Signs and marks do not occur among digits. -/
theorem Denotes.notMem {base : Nat} {t : Text} {n : Nat} (h : Denotes base t n) {e : Char}
    (low : e.toLower ∉ alphabet) (high : e ∉ alphabet) : e ∉ t := by
  obtain ⟨digits, spelled, -⟩ := h.positional
  intro mem
  obtain ⟨d, digit⟩ := exists_isDigit_of_mem spelled e mem
  exact ne_of_isDigit digit low high rfl

/-- A zero in front does not count. -/
theorem Denotes.cons_zero {base : Nat} (positive : 0 < base) {t : Text} {n : Nat} (h : Denotes base t n) :
    Denotes base ('0' :: t) n := by
  obtain ⟨digits, spelled, denotes⟩ := h.positional
  have zero : IsDigit base '0' 0 := ⟨positive, by split <;> rfl⟩
  refine ⟨List.cons_ne_nil _ _, 0 :: digits, .cons zero spelled, ?_⟩
  rw [Nat.ofDigits_reverse_cons, Nat.mul_zero, Nat.add_zero, denotes]

/-- **The numerals that are written denote the numbers that they were written for.** -/
theorem denotes_toDigits {base : Nat} (lower : 1 < base) (upper : base ≤ 16) (n : Nat) :
    Denotes base (Nat.toDigits base n) n := by
  have digit {d : Nat} (below : d < base) : IsDigit base (Nat.digitChar d) d := by
    have listed : ∀ d : Fin 16, alphabet[d.val]? = some (Nat.digitChar d).toLower := by decide
    refine ⟨below, ?_⟩
    rw [if_pos (by omega)]
    exact listed ⟨d, by omega⟩
  induction n using Nat.strongRecOn with
  | ind n ih =>
      rw [Nat.toDigits_eq_if lower]
      split
      · next small =>
        exact ⟨List.cons_ne_nil _ _, [n], .cons (digit small) .nil, Nat.ofDigits_singleton⟩
      · next large =>
        -- the last digit is the remainder, and those in front of it are the numeral of the quotient
        have smaller : n / base < n := Nat.div_lt_self (by omega) lower
        obtain ⟨digits, spelled, denotes⟩ := (ih (n / base) smaller).positional
        have last : IsDigit base (Nat.digitChar (n % base)) (n % base) := digit (Nat.mod_lt n (by omega))
        refine ⟨by simp, digits ++ [n % base], List.rel_append spelled (.cons last .nil), ?_⟩
        rw [List.reverse_append, List.reverse_singleton, List.singleton_append, Nat.ofDigits_cons, denotes]
        exact Nat.mod_add_div n base

/-! ### The four notations -/

/-- A natural number, if it is less than 2^63. -/
def inRange? (n : Nat) : Option Int :=
  if n < 2 ^ 63 then some n else none

/-- **Where a numeral has to fit, it is read as the number it denotes**, or not at all. -/
theorem signed?_of_denotes {base : Nat} (small : base ≤ 36) {t : Text} {n : Nat} (h : Denotes base t n) :
    signed? base t = inRange? n := by
  have unsigned {e : Char} (low : e.toLower ∉ alphabet) (high : e ∉ alphabet) : t.head? ≠ some e :=
    fun first => h.notMem low high (List.mem_of_mem_head? first)
  rw [signed?_of_unsigned base (unsigned (by decide) (by decide)) (unsigned (by decide) (by decide)),
    natural?_of_denotes small h, Option.map_some]
  have same : fits (n : Int) = decide (n < 2 ^ 63) := by
    rw [Bool.eq_iff_iff, fits, Bool.and_eq_true, decide_eq_true_iff, decide_eq_true_iff, decide_eq_true_iff]
    omega
  show Option.filter fits (some (n : Int)) = inRange? n
  rw [Option.filter_some, same, inRange?]
  simp

theorem map_toInt_inRange? (n : Nat) : ((inRange? n).map Int64.ofInt).map Int64.toInt = inRange? n := by
  unfold inRange?
  split
  · next small =>
    rw [Option.map_some, Option.map_some, Int64.toInt_ofInt_of_le (by omega) (by omega)]
  · rfl

/-- A decimal numeral. -/
theorem read?_decimal (n : Nat) : (read? (Nat.toDigits 10 n)).map Int64.toInt = inRange? n := by
  have read : read? (Nat.toDigits 10 n) = (signed? 10 (Nat.toDigits 10 n)).map Int64.ofInt := read?_ofNat_eq n
  rw [read, signed?_of_denotes (by decide) (denotes_toDigits (by decide) (by decide) n), map_toInt_inRange?]

theorem cutAt?_of_denotes {base : Nat} {t : Text} {n : Nat} (h : Denotes base t n) :
    Text.cutAt? (· == '#') t = none := by
  refine cutAt?_eq_none fun c mem => beq_eq_false_iff_ne.2 ?_
  rintro rfl
  exact h.notMem (by decide) (by decide) mem

/-- An octal numeral, behind a zero. -/
theorem read?_octal {t : Text} {n : Nat} (h : Denotes 8 t n) :
    (read? ('0' :: t)).map Int64.toInt = inRange? n := by
  have whole := h.cons_zero (by decide)
  obtain ⟨c, rest, rfl⟩ := List.exists_cons_of_ne_nil h.ne_nil
  obtain ⟨digits, spelled, -⟩ := h.positional
  have other {e : Char} {v : Nat} (value : letterDigit? e = some v) (large : 8 ≤ v) : c ≠ e := by
    rintro rfl
    obtain ⟨d, digit⟩ := exists_isDigit_of_mem spelled c List.mem_cons_self
    obtain ⟨same, below⟩ := (isDigit_iff_letterDigit? (by decide)).1 digit
    obtain rfl := Option.some.inj (value.symm.trans same)
    omega
  have small : c ≠ 'x' := other (v := 33) (by decide) (by decide)
  have capital : c ≠ 'X' := other (v := 33) (by decide) (by decide)
  have read : read? ('0' :: c :: rest) = (signed? 8 ('0' :: c :: rest)).map Int64.ofInt := by
    unfold read?
    rw [cutAt?_of_denotes whole]
    dsimp only
    split
    · next same => exact absurd (List.cons.inj (List.cons.inj same).2).1 small
    · next same => exact absurd (List.cons.inj (List.cons.inj same).2).1 capital
    · next same => rw [same]
    · next notOctal => exact absurd rfl (notOctal c rest)
  rw [read, signed?_of_denotes (by decide) whole, map_toInt_inRange?]

/-- A hexadecimal numeral, behind `0x` or `0X`. -/
theorem read?_hexadecimal {t : Text} {n : Nat} (h : Denotes 16 t n) :
    (read? ('0' :: 'x' :: t)).map Int64.toInt = inRange? n ∧
      (read? ('0' :: 'X' :: t)).map Int64.toInt = inRange? n := by
  have noMark := cutAt?_of_denotes h
  have small : read? ('0' :: 'x' :: t) = (signed? 16 t).map Int64.ofInt := by
    simp [read?, Text.cutAt?, noMark]
  have capital : read? ('0' :: 'X' :: t) = (signed? 16 t).map Int64.ofInt := by
    simp [read?, Text.cutAt?, noMark]
  rw [small, capital, signed?_of_denotes (by decide) h, map_toInt_inRange?]
  exact ⟨rfl, rfl⟩

theorem cutAt?_append {p : Char → Bool} {front : Text} (none : ∀ c ∈ front, p c = false) {c : Char} (hit : p c = true)
    (rest : Text) : Text.cutAt? p (front ++ c :: rest) = some (front, rest) := by
  induction front with
  | nil => rw [List.nil_append, Text.cutAt?, if_pos hit]
  | cons d front ih =>
      rw [List.forall_mem_cons] at none
      rw [List.cons_append, Text.cutAt?, none.1, if_neg Bool.false_ne_true, ih none.2]
      rfl

theorem base?_ofNat {base : Nat} (lower : 2 ≤ base) (upper : base ≤ 64) : base? (Text.ofNat base) = some base := by
  have unsigned : unsigned? 10 (Text.ofNat base) = some base := by
    unfold unsigned?
    split
    · next rest same => exact absurd (by rw [same]; rfl) (head?_ofNat_ne base (d := '+') rfl)
    · exact natural?_ofNat base
  rw [base?, unsigned, Option.filter_some]
  simp [lower, upper]

/-- A numeral behind its base. -/
theorem read?_based {base : Nat} (lower : 2 ≤ base) (upper : base ≤ 64) {t : Text} (ne : t ≠ []) :
    read? (Text.ofNat base ++ '#' :: t) = (digits? (digitValue? base) base t).map (wrapped base) := by
  have cut : Text.cutAt? (· == '#') (Text.ofNat base ++ '#' :: t) = some (Text.ofNat base, t) :=
    cutAt?_append (fun c mem => beq_eq_false_iff_ne.2 (ne_of_mem_ofNat mem rfl)) rfl t
  have nonempty : t.isEmpty = false := List.isEmpty_eq_false_iff.2 ne
  unfold read?
  rw [cut]
  dsimp only
  rw [based?, base?_ofNat lower upper]
  dsimp only
  rw [nonempty, if_neg Bool.false_ne_true]

/-- **Behind a base, digits are read as their value modulo 2^64.** -/
theorem read?_based_of_denotes {base : Nat} (lower : 2 ≤ base) (upper : base ≤ 64) {t : Text} {n : Nat}
    (h : Denotes base t n) :
    (read? (Text.ofNat base ++ '#' :: t)).map Int64.toInt = some ((n : Int).bmod (2 ^ 64)) := by
  obtain ⟨digits, spelled, denotes⟩ := h.positional
  have read : digits? (digitValue? base) base t = some digits :=
    digits?_eq_some_iff.2 (spelled.imp fun _ _ => isDigit_iff_digitValue?.1)
  rw [read?_based lower upper h.ne_nil, read, Option.map_some, Option.map_some, wrapped_eq, denotes,
    ← Int64.ofInt_eq_ofNat, Int64.toInt_ofInt]
  rfl

/-- **Behind a base, one character that is no digit of it** makes the whole no numeral. -/
theorem read?_based_of_not_isDigit {base : Nat} (lower : 2 ≤ base) (upper : base ≤ 64) {t : Text} {c : Char}
    (mem : c ∈ t) (noDigit : ∀ d, ¬ IsDigit base c d) : read? (Text.ofNat base ++ '#' :: t) = none := by
  rw [read?_based lower upper (List.ne_nil_of_mem mem), Option.map_eq_none_iff, Option.eq_none_iff_forall_ne_some]
  intro digits read
  have spelled : List.Forall₂ (IsDigit base) t digits :=
    (digits?_eq_some_iff.1 read).imp fun _ _ => isDigit_iff_digitValue?.2
  obtain ⟨d, digit⟩ := exists_isDigit_of_mem spelled c mem
  exact noDigit d digit

/-- **Numerals denote their value in every base.**  Behind the base, from 2 to 64, and a mark, a run of digits is read
as its positional value, reduced to a signed number of 64 bits, which is the value itself if this is below 2^63; a
character that is no digit of the base makes it no numeral.  Every number is read back from its decimal, its octal and
its hexadecimal numeral if it is below 2^63, and not at all otherwise; and so it is from all octal and hexadecimal
numerals that denote it, with zeros in front or capital letters. -/
theorem read?_numerals :
    (∀ base t n, 2 ≤ base → base ≤ 64 → Denotes base t n →
      (read? (Text.ofNat base ++ '#' :: t)).map Int64.toInt = some ((n : Int).bmod (2 ^ 64)) ∧
        (n < 2 ^ 63 → (n : Int).bmod (2 ^ 64) = n)) ∧
    (∀ base t, 2 ≤ base → base ≤ 64 → (∃ c ∈ t, ∀ d, ¬ IsDigit base c d) →
      read? (Text.ofNat base ++ '#' :: t) = none) ∧
    (∀ n, (read? (Nat.toDigits 10 n)).map Int64.toInt = inRange? n ∧
      (read? ('0' :: Nat.toDigits 8 n)).map Int64.toInt = inRange? n ∧
      (read? ('0' :: 'x' :: Nat.toDigits 16 n)).map Int64.toInt = inRange? n) ∧
    (∀ t n, Denotes 8 t n → (read? ('0' :: t)).map Int64.toInt = inRange? n) ∧
    (∀ t n, Denotes 16 t n → (read? ('0' :: 'x' :: t)).map Int64.toInt = inRange? n ∧
      (read? ('0' :: 'X' :: t)).map Int64.toInt = inRange? n) := by
  refine ⟨?based, ?refused, ?written, fun t n h => read?_octal h, fun t n h => read?_hexadecimal h⟩
  case based =>
    intro base t n lower upper h
    exact ⟨read?_based_of_denotes lower upper h, fun small => Int.bmod_eq_of_le (by omega) (by omega)⟩
  case refused =>
    rintro base t lower upper ⟨c, mem, noDigit⟩
    exact read?_based_of_not_isDigit lower upper mem noDigit
  case written =>
    intro n
    exact ⟨read?_decimal n, read?_octal (denotes_toDigits (by decide) (by decide) n),
      (read?_hexadecimal (denotes_toDigits (by decide) (by decide) n)).1⟩

/-- The largest number of 64 bits, in the largest base. -/
def allOnes : Text :=
  'f' :: List.replicate 10 '_'

theorem denotes_allOnes : Denotes 64 allOnes (2 ^ 64 - 1) :=
  ⟨List.cons_ne_nil _ _, 15 :: List.replicate 10 63, by decide, by decide⟩

/-- All ones are read as minus one, but not in base 36, which has no digit `_`; and a number that is too large is
refused in hexadecimal. -/
theorem read?_numerals_allOnes :
    (read? "64#f__________".toList).map Int64.toInt = some (-1) ∧ read? "36#f__________".toList = none ∧
      (read? "0x8000000000000000".toList).map Int64.toInt = none := by
  obtain ⟨based, refused, written, -, -⟩ := read?_numerals
  refine ⟨?_, ?_, ?_⟩
  · exact (based 64 allOnes _ (by decide) (by decide) denotes_allOnes).1
  · have noDigit : ∀ d, ¬ IsDigit 36 '_' d :=
      fun d digit => nomatch ((isDigit_iff_letterDigit? (by decide)).1 digit).1
    exact refused 36 allOnes (by decide) (by decide) ⟨'_', by decide, noDigit⟩
  · exact (written (2 ^ 63)).2.2

end ShellWord.Numeral
