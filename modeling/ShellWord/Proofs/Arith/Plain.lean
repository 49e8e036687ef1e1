import ShellWord.Proofs.Arith.ReadBack
import ShellWord.Proofs.Coupling

/-!
# Arithmetic text without dollar signs

The offset and the length in `${x:offset:length}` are arithmetic text, and so is the inside of `$((…))`.  Parameters and
substitutions in such a text begin with a dollar sign.  A text without one passes through both replacing steps as it
is, and its value is that of the expression it spells (`exec_arithmetic_of_evaluateWith`).  For numerals this
is the number they denote, and the session is left as it was.
-/

namespace ShellWord

/-- No parameters are read for a text without dollar signs, and it stays as it is. -/
theorem Dollar.pieces_of_not_mem {t : Text} (h : '$' ∉ t) :
    pieces t = t.map fun c => .plain [c] := by
  induction t with
  | nil => rw [pieces, List.map_nil]
  | cons c t ih =>
      obtain ⟨first, rest⟩ : '$' ≠ c ∧ '$' ∉ t := by simpa using h
      cases t with
      | nil => rw [pieces, List.map_cons, List.map_nil]
      | cons d t =>
          rw [pieces, if_pos (by simpa using first.symm), ih rest]
          rfl

theorem Dollar.fill_of_not_mem {t : Text} (h : '$' ∉ t) (values : List (Option Text)) :
    fill (pieces t) values = t := by
  rw [pieces_of_not_mem h]
  clear h
  induction t with
  | nil => rfl
  | cons c t ih => rw [List.map_cons, fill, ih, List.singleton_append]

theorem Dollar.parameters_of_not_mem {t : Text} (h : '$' ∉ t) : parameters t = [] := by
  rw [parameters, pieces_of_not_mem h, List.filterMap_map]
  exact List.filterMap_eq_nil_iff.2 fun _ _ => rfl

theorem Span.pieces_of_not_mem {t : Text} (h : '$' ∉ t) : pieces t = t.map .char := by
  induction t with
  | nil => rw [pieces, List.map_nil]
  | cons c t ih =>
      obtain ⟨first, rest⟩ : '$' ≠ c ∧ '$' ∉ t := by simpa using h
      rw [pieces_cons_of_not_open fun opens => first opens.1.symm, ih rest, List.map_cons]

theorem Span.replace_of_not_mem {m : Type → Type} [Monad m] [LawfulMonad m] (onSpan : Span → m Text)
    {t : Text} (h : '$' ∉ t) : replace onSpan t = pure t := by
  have assembled (a : Text) : assemble onSpan (a.map .char) = pure a := by
    induction a with
    | nil => rfl
    | cons c a ih => rw [List.map_cons, assemble, ih, pure_bind]
  rw [replace, pieces_of_not_mem h, assembled]

variable {World : Type} (host : Host World) (s : Session World)

/-- **A text without dollar signs has the value of the expression it spells.** -/
theorem exec_arithmetic_of_evaluateWith {text : Text} {value : Int64} (plain : '$' ∉ text)
    (evaluated : ∀ (store : Arith.Store (Session World)) read,
      Arith.evaluateWith store read text = pure value) :
    (arithmetic host text).exec s = (.ok value, s) := by
  have ran : (integer host text).exec s = (.ok value, s) := by
    rw [integer, Arith.evaluate, evaluated]
    rfl
  rw [arithmetic, arithmeticAt, Dollar.parameters_of_not_mem plain, List.mapM_nil, pure_bind,
    Dollar.fill_of_not_mem plain, Span.replace_of_not_mem _ plain, pure_bind]
  refine (Run.exec_within id (fun s _ => s) _ (fun _ => integer host text) s).trans ?_
  rw [id, ran]
  rfl

/-! ### Numerals -/

theorem dollar_not_mem_ofNat (n : Nat) : '$' ∉ Text.ofNat n :=
  fun mem => Numeral.ne_of_mem_ofNat mem rfl rfl

theorem Arith.evaluateWith_number {σ : Type} (store : Store σ) (read : Text → Eval σ Int64) {n : Nat}
    (h : n < Numeral.limit) : evaluateWith store read (Text.ofNat n) = pure (Int64.ofNat n) := by
  have numeral := tokensAfter_number false h (.inl rfl)
  rw [List.append_nil, tokensAfter] at numeral
  rw [evaluateWith, tokens, numeral]
  rfl

/-- A blank in front does not count. -/
theorem Arith.evaluateWith_blank {σ : Type} (store : Store σ) (read : Text → Eval σ Int64) (t : Text) :
    evaluateWith store read (' ' :: t) = evaluateWith store read t := by
  have skipped : tokens (' ' :: t) = tokens t := by
    rw [tokens, tokensAfter_cons false (by decide), if_pos (by decide), tokens]
  rw [evaluateWith, skipped, evaluateWith]

theorem exec_arithmetic_number {n : Nat} (h : n < Numeral.limit) :
    (arithmetic host (Text.ofNat n)).exec s = (.ok (Int64.ofNat n), s) :=
  exec_arithmetic_of_evaluateWith host s (dollar_not_mem_ofNat n) fun store read =>
    Arith.evaluateWith_number store read h

/-- `-n`, the way a length is written. -/
theorem exec_arithmetic_minus {n : Nat} (h : n < Numeral.limit) :
    (arithmetic host ('-' :: Text.ofNat n)).exec s = (.ok (-Int64.ofNat n), s) := by
  have plain : '$' ∉ '-' :: Text.ofNat n := by simpa using dollar_not_mem_ofNat n
  exact exec_arithmetic_of_evaluateWith host s plain fun store read => Arith.evaluateWith_minus store read h

/-- ` -n`, the way an offset is written, where `:-` would be another operator. -/
theorem exec_arithmetic_blank_minus {n : Nat} (h : n < Numeral.limit) :
    (arithmetic host (' ' :: '-' :: Text.ofNat n)).exec s = (.ok (-Int64.ofNat n), s) := by
  have plain : '$' ∉ ' ' :: '-' :: Text.ofNat n := by simpa using dollar_not_mem_ofNat n
  refine exec_arithmetic_of_evaluateWith host s plain fun store read => ?_
  rw [Arith.evaluateWith_blank, Arith.evaluateWith_minus store read h]

end ShellWord
