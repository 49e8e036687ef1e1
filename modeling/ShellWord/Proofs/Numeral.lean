import ShellWord.Arith.Numeral

/-!
# Reading decimal numerals back

`Text.ofNat` writes a natural number in decimal, most significant digit first, and `Numeral.read?` reads
four kinds of numerals.  What was written is read as decimal: its characters are digits, and a leading
zero, which would make it octal, is there only if it is the whole numeral.
-/

namespace ShellWord

open Text (isDigit)

/-- The characters of the digits below ten. -/
theorem Numeral.letterDigit?_digitChar {d : Nat} (h : d < 10) :
    Numeral.letterDigit? (Nat.digitChar d) = some d := by
  have all : ∀ d : Fin 10, Numeral.letterDigit? (Nat.digitChar d) = some d.val := by decide
  exact all ⟨d, h⟩

theorem Text.isDigit_digitChar {d : Nat} (h : d < 10) : isDigit (Nat.digitChar d) = true := by
  have all : ∀ d : Fin 10, isDigit (Nat.digitChar d) = true := by decide
  exact all ⟨d, h⟩

namespace Text

/-- All but the last digit, and the last digit. -/
theorem ofNat_eq (n : Nat) :
    ofNat n = if n < 10 then [Nat.digitChar n] else ofNat (n / 10) ++ [Nat.digitChar (n % 10)] :=
  Nat.toDigits_eq_if (by decide)

theorem ofNat_ne_nil (n : Nat) : ofNat n ≠ [] :=
  Nat.toDigits_ne_nil

/-- Decimal numerals consist of digits. -/
theorem isDigit_of_mem_ofNat (n : Nat) : ∀ c ∈ ofNat n, isDigit c = true := by
  induction n using Nat.strongRecOn with
  | ind n ih =>
      rw [ofNat_eq]
      split
      · next small =>
        intro c mem
        rw [List.mem_singleton.1 mem]
        exact isDigit_digitChar small
      · next large =>
        intro c mem
        rcases List.mem_append.1 mem with mem | mem
        · exact ih (n / 10) (by omega) c mem
        · rw [List.mem_singleton.1 mem]
          exact isDigit_digitChar (Nat.mod_lt n (by decide))

/-- A leading zero is the only digit. -/
theorem ofNat_of_head_zero {n : Nat} (h : (ofNat n).head? = some '0') : ofNat n = ['0'] := by
  have zero : n = 0 := by
    induction n using Nat.strongRecOn with
    | ind n ih =>
        rw [ofNat_eq] at h
        split at h
        · next small =>
          have all : ∀ d : Fin 10, [Nat.digitChar d].head? = some '0' → d.val = 0 := by decide
          exact all ⟨n, small⟩ h
        · next large =>
          have front : (ofNat (n / 10)).head? = some '0' := by
            obtain ⟨c, rest, same⟩ := List.exists_cons_of_ne_nil (ofNat_ne_nil (n / 10))
            rw [same] at h ⊢
            exact h
          have := ih (n / 10) (by omega) front
          omega
  rw [zero]
  rfl

end Text

namespace Numeral

/-- The first natural number that does not fit into 64 bits with a sign. -/
def limit : Nat := Nat.pow 2 63

theorem limit_eq : limit = 0x8000000000000000 := rfl

theorem digits?_append (value? : Char → Option Nat) (base : Nat) (s t : Text) :
    digits? value? base (s ++ t) =
      (digits? value? base s).bind fun ds => (digits? value? base t).map (ds ++ ·) := by
  induction s with
  | nil => simp [digits?]
  | cons c s ih =>
      rw [List.cons_append, digits?, digits?]
      cases value? c with
      | none => rfl
      | some d =>
          dsimp only
          split
          · rw [ih]
            cases digits? value? base s with
            | none => rfl
            | some ds => cases digits? value? base t <;> rfl
          · rfl

/-- **The digits of a decimal numeral denote the number that was written.** -/
theorem digits?_ofNat (n : Nat) :
    ∃ ds, digits? letterDigit? 10 (Text.ofNat n) = some ds ∧ value 10 ds = n := by
  induction n using Nat.strongRecOn with
  | ind n ih =>
      rw [Text.ofNat_eq]
      split
      · next small =>
        refine ⟨[n], ?_, ?_⟩
        · simp [digits?, letterDigit?_digitChar small, small]
        · simp [value]
      · next large =>
        obtain ⟨ds, read, denotes⟩ := ih (n / 10) (by omega)
        have last : n % 10 < 10 := Nat.mod_lt n (by decide)
        refine ⟨ds ++ [n % 10], ?_, ?_⟩
        · rw [digits?_append, read]
          simp [digits?, letterDigit?_digitChar last, last]
        · have front : ds.foldl (fun n d => n * 10 + d) 0 = n / 10 := denotes
          rw [value, List.foldl_append, front]
          simp only [List.foldl_cons, List.foldl_nil]
          omega

theorem natural?_ofNat (n : Nat) : natural? 10 (Text.ofNat n) = some n := by
  obtain ⟨ds, read, denotes⟩ := digits?_ofNat n
  have nonempty : (Text.ofNat n).isEmpty = false :=
    List.isEmpty_eq_false_iff.2 (Text.ofNat_ne_nil n)
  rw [natural?, nonempty, if_neg (by decide), read, Option.map_some, denotes]

/-- A decimal numeral has no sign and no `#`. -/
theorem ne_of_mem_ofNat {n : Nat} {c d : Char} (mem : c ∈ Text.ofNat n) (h : isDigit d = false) :
    c ≠ d := by
  rintro rfl
  rw [Text.isDigit_of_mem_ofNat n c mem] at h
  cases h

theorem signed?_of_unsigned (base : Nat) {t : Text} (minus : t.head? ≠ some '-') (plus : t.head? ≠ some '+') :
    signed? base t = ((natural? base t).map Int.ofNat).filter fits := by
  unfold signed?
  split
  · exact absurd rfl minus
  · exact absurd rfl plus
  · rfl

theorem head?_ofNat_ne (n : Nat) {d : Char} (h : isDigit d = false) : (Text.ofNat n).head? ≠ some d :=
  fun first => ne_of_mem_ofNat (List.mem_of_mem_head? first) h rfl

theorem signed?_ofNat {n : Nat} (h : n < limit) : signed? 10 (Text.ofNat n) = some (n : Int) := by
  have fit : fits (n : Int) = true := by
    rw [limit_eq] at h
    simp only [fits, Bool.and_eq_true, decide_eq_true_eq]
    omega
  rw [signed?_of_unsigned 10 (head?_ofNat_ne n rfl) (head?_ofNat_ne n rfl), natural?_ofNat]
  simp [fit]

theorem cutAt?_eq_none {p : Char → Bool} {t : Text} (h : ∀ c ∈ t, p c = false) :
    Text.cutAt? p t = none := by
  induction t with
  | nil => rfl
  | cons c t ih =>
      rw [Text.cutAt?, h c List.mem_cons_self, ih fun d mem => h d (List.mem_cons_of_mem _ mem)]
      rfl

/-- What is written in decimal is read in decimal. -/
theorem read?_ofNat_eq (n : Nat) : read? (Text.ofNat n) = (signed? 10 (Text.ofNat n)).map Int64.ofInt := by
  have noMark : Text.cutAt? (· == '#') (Text.ofNat n) = none :=
    cutAt?_eq_none fun c mem => by simpa using ne_of_mem_ofNat mem (by decide)
  have single : ∀ c rest, Text.ofNat n ≠ '0' :: c :: rest := by
    intro c rest same
    have zero := Text.ofNat_of_head_zero (n := n) (by rw [same]; rfl)
    rw [zero] at same
    cases same
  have digits : (Text.ofNat n).all isDigit = true :=
    List.all_eq_true.2 (Text.isDigit_of_mem_ofNat n)
  unfold read?
  rw [noMark]
  dsimp only
  split
  · next hex same => exact absurd same (single _ _)
  · next hex same => exact absurd same (single _ _)
  · next c octal _ _ same => exact absurd same (single _ _)
  · rw [digits, if_pos rfl]

/-- **What is written in decimal is read back.** -/
theorem read?_ofNat {n : Nat} (h : n < limit) :
    read? (Text.ofNat n) = some (Int64.ofInt n) := by
  rw [read?_ofNat_eq, signed?_ofNat h]
  rfl

end Numeral

end ShellWord
