import Mathlib.NumberTheory.Multiplicity
import ShellWord.Proofs.Arith.Semantics
import ShellWord.Proofs.Parameter

/-!
# Powers modulo 2^64

A power is computed by repeated squaring in 64 bits, and by `power_eq` this is the power of the integers,
reduced at the end.  So every power would be exact modulo 2^64 if the exponent were used as it is.  It is not:
an exponent of more than 32 bits is taken for `maxExponent`, the largest one of 32 bits.

When does this show?  The two powers of an even number both vanish.  For an odd number they agree exactly if the
number, raised to the difference of the exponents, is one modulo 2^64.  For an odd difference only the number one
itself does that.  For an even difference the factors of two of `a ^ n - 1` are those of `(a ^ 2 - 1) * n` but one
(`dvd_pow_sub_one_iff_of_even`), which makes it a condition that can be read off (`KeepsPower`).

`evaluate_power_iff` says what the text of a power evaluates to, and when this is the exact one.
-/

namespace ShellWord.Arith

/-! ### Repeated squaring -/

/-- Integers are reduced to the same 64-bit number exactly if they differ by a multiple of 2^64. -/
theorem ofInt_eq_ofInt_iff (i j : Int) : Int64.ofInt i = Int64.ofInt j ↔ 2 ^ 64 ∣ i - j := by
  rw [← Int64.toInt_inj, Int64.toInt_ofInt, Int64.toInt_ofInt, Int.bmod_eq_bmod_iff_bmod_sub_eq_zero,
    ← Int.dvd_iff_bmod_eq_zero]
  rfl

theorem power_ofInt (i : Int) (n : Nat) : power (Int64.ofInt i) n = Int64.ofInt (i ^ n) := by
  -- the base is squared as the exponent is halved, so the induction is on the exponent, for all bases
  induction n using Nat.strongRecOn generalizing i with
  | ind n ih =>
      have halved (positive : n ≠ 0) :
          power (Int64.ofInt i * Int64.ofInt i) (n / 2) = Int64.ofInt (i ^ (2 * (n / 2))) := by
        rw [← Int64.ofInt_mul, ih (n / 2) (by omega), pow_mul, pow_two]
      rw [power]
      split
      · next zero =>
        rw [zero, pow_zero]
        rfl
      · next positive =>
        rw [halved positive]
        split
        · next odd =>
          rw [← Int64.ofInt_mul, ← pow_succ']
          congr 2
          omega
        · next even =>
          congr 2
          omega

/-- **Repeated squaring gives the power of the integers**, reduced to 64 bits. -/
theorem power_eq (a : Int64) (n : Nat) : power a n = Int64.ofInt (a.toInt ^ n) := by
  rw [← power_ofInt, Int64.ofInt_toInt]

theorem apply_pow (a b : Int64) :
    BinaryOp.pow.apply a b =
      if b < 0 then .error .negativeExponent
      else .ok (Int64.ofInt (a.toInt ^ min b.toInt.toNat maxExponent)) := by
  rw [← power_eq]
  rfl

/-! ### Powers that agree modulo a power of two -/

section

variable {a : Int} {m n : Nat}

/-- High powers of even numbers vanish. -/
theorem dvd_pow_of_even (even : Even a) {k : Nat} (le : k ≤ n) : 2 ^ k ∣ a ^ n :=
  (pow_dvd_pow_of_dvd (even_iff_two_dvd.1 even) k).trans (pow_dvd_pow a le)

theorem not_two_dvd_of_odd (odd : Odd a) : ¬ 2 ∣ a := by
  rwa [← even_iff_two_dvd, Int.not_even_iff_odd]

theorem two_dvd_sub_one_of_odd (odd : Odd a) : 2 ∣ a - 1 :=
  even_iff_two_dvd.1 (odd.sub_odd odd_one)

/-- Two powers of an odd number agree exactly if the power by which they differ is one. -/
theorem dvd_pow_sub_pow_iff (odd : Odd a) (le : m ≤ n) (k : Nat) :
    2 ^ k ∣ a ^ n - a ^ m ↔ 2 ^ k ∣ a ^ (n - m) - 1 := by
  have factored : a ^ n - a ^ m = a ^ m * (a ^ (n - m) - 1) := by
    rw [mul_sub, ← pow_add, Nat.add_sub_cancel' le, mul_one]
  rw [factored]
  exact ⟨Int.prime_two.pow_dvd_of_dvd_mul_left k (not_two_dvd_of_odd odd.pow),
    fun divides => divides.mul_left _⟩

/-- An odd exponent leaves the factors of two as they are. -/
theorem dvd_pow_sub_one_iff_of_odd (odd : Odd a) (oddExponent : Odd n) (k : Nat) :
    2 ^ k ∣ a ^ n - 1 ↔ 2 ^ k ∣ a - 1 := by
  have coprime : ¬ (2 : Int) ∣ n := by
    rwa [← even_iff_two_dvd, Int.even_coe_nat, Nat.not_even_iff_odd]
  have same := emultiplicity_pow_sub_pow_of_prime Int.prime_two (two_dvd_sub_one_of_odd odd)
    (not_two_dvd_of_odd odd) coprime
  rw [one_pow] at same
  rw [pow_dvd_iff_le_emultiplicity, same, ← pow_dvd_iff_le_emultiplicity]

/-- An even exponent adds its own factors of two to those of `a ^ 2 - 1`, less one. -/
theorem dvd_pow_sub_one_iff_of_even (odd : Odd a) (evenExponent : Even n) (k : Nat) :
    2 ^ k ∣ a ^ n - 1 ↔ 2 ^ (k + 1) ∣ (a ^ 2 - 1) * n := by
  have square : a ^ 2 - 1 = (a + 1) * (a - 1) := by ring
  have lifted := Int.two_pow_sub_pow (two_dvd_sub_one_of_odd odd) (not_two_dvd_of_odd odd) evenExponent
  rw [one_pow, ← emultiplicity_mul Int.prime_two, ← emultiplicity_mul Int.prime_two, ← square] at lifted
  rw [pow_dvd_iff_le_emultiplicity, pow_dvd_iff_le_emultiplicity, ← lifted, Nat.cast_add, Nat.cast_one]
  exact (ENat.add_le_add_iff_right ENat.one_ne_top).symm

end

/-! ### Exponents that are not used as they are -/

/-- The power is the same, modulo 2^64, if an exponent that is too large is taken for the largest one. -/
def KeepsPower (a : Int) (n : Nat) : Prop :=
  n ≤ maxExponent ∨ Even a ∨ a = 1 ∨
    Even (n - maxExponent) ∧ 2 ^ 65 ∣ (a ^ 2 - 1) * ((n - maxExponent : Nat) : Int)

theorem dvd_toInt_sub_one_iff (a : Int64) : 2 ^ 64 ∣ a.toInt - 1 ↔ a.toInt = 1 := by
  rw [← ofInt_eq_ofInt_iff, Int64.ofInt_toInt, ← Int64.toInt_inj]
  rfl

/-- **Which powers survive the largest exponent.** -/
theorem ofInt_pow_min_eq_iff (a : Int64) (n : Nat) :
    Int64.ofInt (a.toInt ^ min n maxExponent) = Int64.ofInt (a.toInt ^ n) ↔ KeepsPower a.toInt n := by
  by_cases small : n ≤ maxExponent
  · rw [Nat.min_eq_left small]
    exact iff_of_true rfl (.inl small)
  have le : maxExponent ≤ n := Nat.le_of_not_le small
  rw [Nat.min_eq_right le, eq_comm, ofInt_eq_ofInt_iff]
  unfold KeepsPower
  rcases Int.even_or_odd a.toInt with even | odd
  · have large : 64 ≤ maxExponent := by decide
    refine iff_of_true ?_ (.inr (.inl even))
    exact dvd_sub (dvd_pow_of_even even (large.trans le)) (dvd_pow_of_even even large)
  · have notEven : ¬ Even a.toInt := Int.not_even_iff_odd.2 odd
    rw [dvd_pow_sub_pow_iff odd le]
    rcases Nat.even_or_odd (n - maxExponent) with evenExcess | oddExcess
    · rw [dvd_pow_sub_one_iff_of_even odd evenExcess]
      constructor
      · exact fun divides => .inr (.inr (.inr ⟨evenExcess, divides⟩))
      · rintro (fits | even | one | ⟨-, divides⟩)
        · exact absurd fits small
        · exact absurd even notEven
        · rw [one]
          exact ⟨0, by ring⟩
        · exact divides
    · rw [dvd_pow_sub_one_iff_of_odd odd oddExcess, dvd_toInt_sub_one_iff]
      constructor
      · exact fun one => .inr (.inr (.inl one))
      · rintro (fits | even | one | ⟨evenExcess, -⟩)
        · exact absurd fits small
        · exact absurd even notEven
        · exact one
        · exact absurd oddExcess (Nat.not_odd_iff_even.2 evenExcess)

/-! ### The text of a power -/

section

variable {σ : Type} {store : Store σ} {depth : Nat} {base exponent : Formula} {v v₁ v₂ : σ} {a b : Int64}

/-- The base is evaluated first and the exponent behind it; then the power is computed. -/
theorem exec_evaluateAt_pow (first : (evaluateAt store depth base.print).exec v = (.ok a, v₁))
    (second : (evaluateAt store depth exponent.print).exec v₁ = (.ok b, v₂)) :
    (evaluateAt store depth (Formula.binary .pow base exponent).print).exec v =
      (BinaryOp.pow.apply a b, v₂) := by
  rw [evaluateAt, evaluateWith_print] at first second ⊢
  rw [Formula.toExpr, Expr.eval, Run.exec_bind_of_ok first]
  exact (Run.exec_bind_of_ok second).trans (exec_compute .pow a b v₂)

/-- A numeral evaluates to its number. -/
theorem exec_evaluateAt_number (n : Fin Numeral.limit) :
    (evaluateAt store depth (Formula.number n).print).exec v = (.ok (Int64.ofNat n), v) := by
  rw [evaluateAt, evaluateWith_print]
  rfl

theorem exec_evaluateAt_minus (operand : (evaluateAt store depth base.print).exec v = (.ok a, v₁)) :
    (evaluateAt store depth (Formula.unary .minus base).print).exec v = (.ok (-a), v₁) := by
  rw [evaluateAt, evaluateWith_print] at operand ⊢
  exact (Run.exec_bind_of_ok operand).trans rfl

/-- **What powers evaluate to.**  A negative exponent is an error.  With any other exponent the value is the power
with an exponent of 32 bits, reduced to 64 bits.  It is the exact power modulo 2^64 if the exponent itself is of 32
bits, if the base is even or one, or if the exponent exceeds the largest one by an even number `n` such that 2^65
divides `(a ^ 2 - 1) * n`; and otherwise it is not. -/
theorem evaluate_power_iff (first : (evaluateAt store depth base.print).exec v = (.ok a, v₁))
    (second : (evaluateAt store depth exponent.print).exec v₁ = (.ok b, v₂)) :
    (b < 0 →
      (evaluateAt store depth (Formula.binary .pow base exponent).print).exec v =
        (.error .negativeExponent, v₂) ∧
      Error.negativeExponent.message = "exponent less than 0".toList) ∧
    (0 ≤ b →
      (evaluateAt store depth (Formula.binary .pow base exponent).print).exec v =
        (.ok (Int64.ofInt (a.toInt ^ min b.toInt.toNat maxExponent)), v₂) ∧
      ((evaluateAt store depth (Formula.binary .pow base exponent).print).exec v =
          (.ok (Int64.ofInt (a.toInt ^ b.toInt.toNat)), v₂) ↔
        KeepsPower a.toInt b.toInt.toNat)) := by
  rw [exec_evaluateAt_pow first second, apply_pow]
  refine ⟨fun negative => ⟨by rw [if_pos negative], rfl⟩, fun nonnegative => ?_⟩
  rw [if_neg (Int64.not_lt.2 nonnegative)]
  refine ⟨rfl, ?_⟩
  rw [← ofInt_pow_min_eq_iff, Prod.mk.injEq, Except.ok.injEq]
  exact and_iff_left rfl

end

/-- The formula `3`. -/
def Formula.three : Formula := .number ⟨3, by decide⟩

/-- The formula `40`. -/
def Formula.forty : Formula := .number ⟨40, by decide⟩

theorem Numeral.one_lt_limit : 1 < Numeral.limit := by decide

/-- The formula `- 1`. -/
def Formula.minusOne : Formula := .unary .minus (.number ⟨1, Numeral.one_lt_limit⟩)

/-- The statement at a power that wraps around, `3 ** 40`, and at a negative exponent, `3 ** - 1`. -/
theorem evaluate_power_three :
    (evaluateAt (Session.store Host.idle) 0 (Formula.binary .pow .three .forty).print).exec .blank =
      (.ok (-6289078614652622815), .blank) ∧
    Int64.ofInt (3 ^ 40) = -6289078614652622815 ∧
    (evaluateAt (Session.store Host.idle) 0 (Formula.binary .pow .three .minusOne).print).exec .blank =
      (.error .negativeExponent, .blank) := by
  have three : (evaluateAt (Session.store Host.idle) 0 Formula.three.print).exec .blank = (.ok 3, .blank) :=
    exec_evaluateAt_number _
  have forty : (evaluateAt (Session.store Host.idle) 0 Formula.forty.print).exec .blank = (.ok 40, .blank) :=
    exec_evaluateAt_number _
  have minusOne : (evaluateAt (Session.store Host.idle) 0 Formula.minusOne.print).exec .blank =
      (.ok (-1), .blank) :=
    exec_evaluateAt_minus (exec_evaluateAt_number _)
  have value : Int64.ofInt (3 ^ 40) = -6289078614652622815 := by decide
  have exact := ((evaluate_power_iff three forty).2 (by decide)).2.2 (.inl (by decide))
  exact ⟨exact.trans (congrArg (fun n => (Except.ok n, Session.blank)) value), value,
    ((evaluate_power_iff three minusOne).1 (by decide)).1⟩

/-- The formula `4294967296`, one more than the largest exponent. -/
def Formula.tooLarge : Formula := .number ⟨4294967296, by decide⟩

/-- An even power of -1 is 1, but with an exponent that is too large it evaluates to -1. -/
theorem evaluate_evenPower_negative :
    (evaluate (Session.store Host.idle) Formula.tooLarge.print).exec .blank = (.ok 4294967296, .blank) ∧
    Int64.ofInt ((-1) ^ 4294967296) = 1 ∧
    (evaluate (Session.store Host.idle) (Formula.binary .pow .minusOne .tooLarge).print).exec .blank =
      (.ok (-1), .blank) := by
  have minusOne : (evaluateAt (Session.store Host.idle) 0 Formula.minusOne.print).exec .blank =
      (.ok (-1), .blank) :=
    exec_evaluateAt_minus (exec_evaluateAt_number _)
  have tooLarge : (evaluateAt (Session.store Host.idle) 0 Formula.tooLarge.print).exec .blank =
      (.ok 4294967296, .blank) :=
    exec_evaluateAt_number _
  refine ⟨tooLarge, ?_, (exec_evaluateAt_pow minusOne tooLarge).trans ?_⟩
  · rw [Even.neg_one_pow (by decide)]
    rfl
  · have odd : (-1 : Int64).toInt ^ min (4294967296 : Int64).toInt.toNat maxExponent = -1 :=
      Odd.neg_one_pow (by decide)
    rw [apply_pow, odd]
    rfl

end ShellWord.Arith
