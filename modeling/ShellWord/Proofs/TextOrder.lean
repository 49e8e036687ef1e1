import Mathlib.Algebra.Ring.Nat
import ShellWord.Files.Pathname

/-!
# The order of texts

Results of pathname expansion are sorted by code points.  Seen from outside they are bytes, and the order there
is that of the bytes of the UTF-8 form.  The two are the same: the first byte of a character grows with the number
of its bytes and with the character, and the others are its digits to the base 64.  `utf8_bytesLt_of_le` says so
for texts, and `pairwise_bytesLt_mergeSort` for a sorted list.
-/

namespace ShellWord.Text

/-- The bytes of the UTF-8 form. -/
def utf8 (t : Text) : List UInt8 :=
  t.flatMap String.utf8EncodeChar

@[simp] theorem utf8_nil : utf8 [] = [] := rfl

@[simp] theorem utf8_cons (c : Char) (t : Text) : utf8 (c :: t) = String.utf8EncodeChar c ++ utf8 t := rfl

/-- The one list of bytes comes before the other in a dictionary. -/
abbrev BytesLt : List UInt8 → List UInt8 → Prop :=
  List.Lex fun a b => a.toNat < b.toNat

/-! ### One character -/

theorem ofNat_cons_bytesLt {m n : Nat} (bound : n < 256) {s t : List UInt8} (h : m < n ∨ m = n ∧ BytesLt s t) :
    BytesLt (UInt8.ofNat m :: s) (UInt8.ofNat n :: t) := by
  rcases h with less | ⟨rfl, rest⟩
  · refine .rel ?_
    rw [UInt8.toNat_ofNat_of_lt' bound, UInt8.toNat_ofNat_of_lt' (Nat.lt_trans less bound)]
    exact less
  · exact .cons rest

/-- The bytes behind the first one: the last `k` digits of the code point to the base 64. -/
def continuation : (k : Nat) → (code : Nat) → List UInt8
  | 0, _ => []
  | k + 1, code => UInt8.ofNat (code / 64 ^ k % 64 + 128) :: continuation k code

theorem continuation_append_bytesLt {k v w : Nat} (h : v % 64 ^ k < w % 64 ^ k) (x y : List UInt8) :
    BytesLt (continuation k v ++ x) (continuation k w ++ y) := by
  induction k with
  | zero => simp [Nat.mod_one] at h
  | succ k ih =>
      rw [Nat.mod_pow_succ, Nat.mod_pow_succ] at h
      refine ofNat_cons_bytesLt (by omega) ?_
      rcases Nat.lt_trichotomy (v / 64 ^ k % 64) (w / 64 ^ k % 64) with less | same | more
      · exact .inl (by omega)
      · rw [same] at h ⊢
        exact .inr ⟨rfl, ih (by omega)⟩
      · have gap := Nat.mul_le_mul_left (64 ^ k) (Nat.succ_le_of_lt more)
        rw [Nat.mul_succ] at gap
        have := Nat.mod_lt w (Nat.pow_pos (n := k) (show 0 < 64 by decide))
        omega

/-- A first byte and the bytes behind it, in the order of the code points. -/
theorem first_append_bytesLt {k offset v w : Nat} (less : v < w) (bound : w / 64 ^ k + offset < 256)
    (x y : List UInt8) :
    BytesLt (UInt8.ofNat (v / 64 ^ k + offset) :: (continuation k v ++ x))
      (UInt8.ofNat (w / 64 ^ k + offset) :: (continuation k w ++ y)) := by
  refine ofNat_cons_bytesLt bound ?_
  rcases Nat.lt_or_eq_of_le (Nat.div_le_div_right (c := 64 ^ k) (Nat.le_of_lt less)) with first | same
  · exact .inl (by omega)
  · refine .inr ⟨by rw [same], continuation_append_bytesLt ?_ x y⟩
    have := Nat.div_add_mod v (64 ^ k)
    have := Nat.div_add_mod w (64 ^ k)
    rw [same] at *
    omega

/-- A character has as many bytes as its code point asks for. -/
theorem utf8EncodeChar_eq (c : Char) :
    ∃ k offset, String.utf8EncodeChar c =
        UInt8.ofNat (c.val.toNat / 64 ^ k + offset) :: continuation k c.val.toNat ∧
      (k = 0 ∧ offset = 0 ∧ c.val.toNat < 0x80 ∨
        k = 1 ∧ offset = 0xc0 ∧ 0x80 ≤ c.val.toNat ∧ c.val.toNat < 0x800 ∨
        k = 2 ∧ offset = 0xe0 ∧ 0x800 ≤ c.val.toNat ∧ c.val.toNat < 0x10000 ∨
        k = 3 ∧ offset = 0xf0 ∧ 0x10000 ≤ c.val.toNat ∧ c.val.toNat < 0x110000) := by
  have valid : c.val.toNat < 0x110000 := by
    have := c.valid
    simp only [UInt32.isValidChar, Nat.isValidChar] at this
    omega
  unfold String.utf8EncodeChar
  generalize c.val.toNat = v at valid
  dsimp only
  split
  · exact ⟨0, 0, by simp [continuation], by omega⟩
  split
  · have top : v / 64 % 32 = v / 64 := by omega
    exact ⟨1, 0xc0, by simp [continuation, top], by omega⟩
  split
  · have top : v / 4096 % 16 = v / 4096 := by omega
    exact ⟨2, 0xe0, by simp [continuation, top], by omega⟩
  · have top : v / 262144 % 8 = v / 262144 := by omega
    exact ⟨3, 0xf0, by simp [continuation, top], by omega⟩

/-- The bytes of the smaller character come first, whatever follows. -/
theorem utf8EncodeChar_append_bytesLt {a b : Char} (less : a.val.toNat < b.val.toNat) (x y : List UInt8) :
    BytesLt (String.utf8EncodeChar a ++ x) (String.utf8EncodeChar b ++ y) := by
  obtain ⟨k, offset, ha, sizeA⟩ := utf8EncodeChar_eq a
  obtain ⟨k', offset', hb, sizeB⟩ := utf8EncodeChar_eq b
  rw [ha, hb]
  by_cases same : k = k'
  · obtain rfl : offset = offset' := by omega
    subst same
    refine first_append_bytesLt less ?_ x y
    rcases sizeB with ⟨rfl, rfl, _⟩ | ⟨rfl, rfl, _⟩ | ⟨rfl, rfl, _⟩ | ⟨rfl, rfl, _⟩ <;> omega
  · -- a character with fewer bytes has a smaller first byte
    refine ofNat_cons_bytesLt ?_ (.inl ?_)
    · rcases sizeB with ⟨rfl, rfl, _⟩ | ⟨rfl, rfl, _⟩ | ⟨rfl, rfl, _⟩ | ⟨rfl, rfl, _⟩ <;> omega
    · rcases sizeA with ⟨rfl, rfl, _⟩ | ⟨rfl, rfl, _⟩ | ⟨rfl, rfl, _⟩ | ⟨rfl, rfl, _⟩ <;>
        rcases sizeB with ⟨rfl, rfl, _⟩ | ⟨rfl, rfl, _⟩ | ⟨rfl, rfl, _⟩ | ⟨rfl, rfl, _⟩ <;> omega

theorem utf8EncodeChar_ne_nil (c : Char) : String.utf8EncodeChar c ≠ [] := by
  obtain ⟨k, offset, h, -⟩ := utf8EncodeChar_eq c
  rw [h]
  exact List.cons_ne_nil _ _

/-! ### Texts -/

theorem le_cons_cons {a b : Char} {s t : Text} :
    Text.le (a :: s) (b :: t) = true ↔ a.val.toNat < b.val.toNat ∨ a = b ∧ Text.le s t = true := by
  rw [Text.le]
  by_cases same : a = b
  · simp [same]
  · simp only [beq_iff_eq, same, if_false, decide_eq_true_eq, false_and, or_false]
    exact Iff.rfl

theorem le_trans {s t u : Text} (first : Text.le s t = true) (second : Text.le t u = true) :
    Text.le s u = true := by
  induction s generalizing t u with
  | nil => rfl
  | cons a s ih =>
      cases t with
      | nil => cases first
      | cons b t =>
          cases u with
          | nil => cases second
          | cons c u =>
              rw [le_cons_cons] at *
              rcases first with less | ⟨rfl, rest⟩
              · rcases second with less' | ⟨rfl, -⟩
                · exact .inl (Nat.lt_trans less less')
                · exact .inl less
              · exact second.imp_right fun ⟨same, rest'⟩ => ⟨same, ih rest rest'⟩

theorem le_total (s t : Text) : Text.le s t = true ∨ Text.le t s = true := by
  induction s generalizing t with
  | nil => exact .inl rfl
  | cons a s ih =>
      cases t with
      | nil => exact .inr rfl
      | cons b t =>
          rw [le_cons_cons, le_cons_cons]
          rcases Nat.lt_trichotomy a.val.toNat b.val.toNat with less | same | more
          · exact .inl (.inl less)
          · obtain rfl : a = b := Char.ext (UInt32.toNat_inj.1 same)
            exact (ih t).imp (fun h => .inr ⟨rfl, h⟩) fun h => .inr ⟨rfl, h⟩
          · exact .inr (.inl more)

theorem append_bytesLt {x y : List UInt8} (front : List UInt8) (h : BytesLt x y) :
    BytesLt (front ++ x) (front ++ y) := by
  induction front with
  | nil => exact h
  | cons byte front ih => exact .cons ih

/-- **The order of code points is that of bytes.** -/
theorem utf8_bytesLt_of_le {s t : Text} (h : Text.le s t = true) (ne : s ≠ t) : BytesLt (utf8 s) (utf8 t) := by
  induction s generalizing t with
  | nil =>
      cases t with
      | nil => exact absurd rfl ne
      | cons b t =>
          rw [utf8_nil, utf8_cons]
          cases encoded : String.utf8EncodeChar b with
          | nil => exact absurd encoded (utf8EncodeChar_ne_nil b)
          | cons byte bytes => exact .nil
  | cons a s ih =>
      cases t with
      | nil => cases h
      | cons b t =>
          rw [utf8_cons, utf8_cons]
          rcases le_cons_cons.1 h with less | ⟨rfl, rest⟩
          · exact utf8EncodeChar_append_bytesLt less _ _
          · exact append_bytesLt _ (ih rest fun same => ne (same ▸ rfl))

/-- Sorted without repetitions, texts are in the order of their bytes. -/
theorem pairwise_bytesLt_mergeSort {texts : List Text} (h : texts.Nodup) :
    (texts.mergeSort Text.le).Pairwise fun s t => BytesLt (utf8 s) (utf8 t) := by
  have sorted : (texts.mergeSort Text.le).Pairwise fun s t => Text.le s t = true := by
    refine List.pairwise_mergeSort (fun s t u => ?_) (fun s t => ?_) texts
    · exact le_trans
    · rw [Bool.or_eq_true]
      exact le_total s t
  have distinct : (texts.mergeSort Text.le).Nodup := (List.mergeSort_perm texts Text.le).nodup_iff.2 h
  exact (sorted.and distinct).imp fun ⟨le, ne⟩ => utf8_bytesLt_of_le le ne

end ShellWord.Text
