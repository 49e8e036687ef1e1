import ShellWord.Proofs.Arith.Formula
import ShellWord.Proofs.Numeral

/-!
# The tokens of a formula

What a formula prints is cut into the tokens it was printed from.  With a blank between any two of them
there is little that could go wrong, but for `++` and `--`: they are one token only next to a name, and two
signs elsewhere.  `Lexical` is what a list of symbols has to satisfy, and it asks for that name.  It is kept
by concatenation, so that it holds for a formula if it holds for its operands.
-/

namespace ShellWord.Arith

/-! ### One symbol -/

/-- The symbols that can be written: numbers without a sign, names that are names, and of the assignments
only those that exist. -/
def Symbol.Writable : Symbol → Prop
  | .number value => ∃ n : Nat, n < Numeral.limit ∧ value = Int64.ofNat n
  | .name text => Text.isName text = true
  | .assign (some op) => op ∈ compoundOps
  | _ => True

/-- The symbol is a name. -/
def Symbol.isName : Symbol → Bool
  | .name _ => true
  | _ => false

/-- What follows a symbol in a printed text: nothing, or a blank. -/
def Separated (rest : Text) : Prop :=
  rest = [] ∨ ∃ more, rest = ' ' :: more

/-- The first token of a text that does not begin with a backslash. -/
theorem tokensAfter_cons (afterName : Bool) {c : Char} (h : c ≠ '\\') (rest : Text) :
    tokensAfter afterName (c :: rest) =
      if Text.isBlank c then tokensAfter afterName rest
      else if Text.isDigit c then
        match Numeral.read? (c :: rest.takeWhile isNumeralChar) with
        | some n =>
          (tokensAfter false (rest.dropWhile isNumeralChar)).map (⟨.number n, c :: rest⟩ :: ·)
        | none => .error (.valueTooGreat (c :: rest.takeWhile isNumeralChar))
      else if Text.isNameStart c then
        (tokensAfter true (rest.dropWhile Text.isNameChar)).map
          (⟨.name (c :: rest.takeWhile Text.isNameChar), c :: rest⟩ :: ·)
      else
        match operator? afterName (c :: rest) with
        | some (symbol, more) =>
          (tokensAfter false (rest.drop more)).map (⟨symbol, c :: rest⟩ :: ·)
        | none => .error (.invalidOperator (Text.trim (c :: rest))) := by
  rw [tokensAfter.eq_def]
  split
  · next same => cases same
  · next same => exact absurd (List.cons.inj same).1 h
  · next same =>
    obtain ⟨rfl, rfl⟩ := List.cons.inj same
    rfl

/-- A run of characters ends at what is separated from it. -/
theorem takeWhile_append_separated {p : Char → Bool} (blank : p ' ' = false) {t rest : Text}
    (h : ∀ c ∈ t, p c = true) (separated : Separated rest) :
    (t ++ rest).takeWhile p = t ∧ (t ++ rest).dropWhile p = rest := by
  have none : rest.takeWhile p = [] ∧ rest.dropWhile p = rest := by
    rcases separated with rfl | ⟨more, rfl⟩
    · exact ⟨rfl, rfl⟩
    · simp [blank]
  rw [List.takeWhile_append_of_pos h, List.dropWhile_append_of_pos h, none.1, none.2, List.append_nil]
  exact ⟨rfl, rfl⟩

/-! ### Operators -/

/-- Behind a blank no operator goes on, so what is separated plays no part in reading it. -/
theorem after?_append_separated {front : Text} (h : ' ' ∉ front) (t : Text) {rest : Text}
    (separated : Separated rest) :
    Text.after? front (t ++ rest) = (Text.after? front t).map (· ++ rest) := by
  induction front generalizing t with
  | nil => simp
  | cons c front ih =>
      have blank : c ≠ ' ' := fun same => h (same ▸ List.mem_cons_self)
      cases t with
      | nil =>
          rcases separated with rfl | ⟨more, rfl⟩
          · rfl
          · simp [Text.after?, blank]
      | cons d t =>
          rw [List.cons_append, Text.after?, Text.after?]
          split
          · exact ih (fun mem => h (List.mem_cons_of_mem _ mem)) t
          · rfl

theorem longest?_append_separated (t : Text) {rest : Text} (separated : Separated rest) :
    longest? (t ++ rest) = (longest? t).map fun found => (found.1, found.2 ++ rest) := by
  have blankless : ∀ entry ∈ operators, ' ' ∉ entry.1 := by decide +kernel
  unfold longest?
  -- the search stops at the first entry that fits, so the induction is on the table
  generalize operators = table at blankless
  induction table with
  | nil => rfl
  | cons entry table ih =>
      obtain ⟨text, symbol⟩ := entry
      have here := after?_append_separated (blankless _ List.mem_cons_self) t separated
      have later := ih fun other mem => blankless other (List.mem_cons_of_mem _ mem)
      simp only [List.findSome?_cons, here, later]
      cases Text.after? text t <;> rfl

/-- The symbols that are neither numbers nor names. -/
def Symbol.isOperator : Symbol → Bool
  | .number _ => false
  | .name _ => false
  | _ => true

/-- **The table of operators.**  A symbol that can be written stands in the table with its spelling, no
other entry is found in its place, and it begins like an operator and not like anything else. -/
theorem operator_spelling {symbol : Symbol} (operator : symbol.isOperator = true)
    (writable : symbol.Writable) :
    longest? symbol.spelling = some (symbol, []) ∧
      ∃ c front, symbol.spelling = c :: front ∧ c ≠ '\\' ∧ Text.isBlank c = false ∧
        Text.isDigit c = false ∧ Text.isNameStart c = false := by
  have table : ∀ entry ∈ operators, longest? entry.2.spelling = some (entry.2, []) ∧
      (entry.2.spelling.head?.all fun c =>
        c != '\\' && !Text.isBlank c && !Text.isDigit c && !Text.isNameStart c) = true ∧
      entry.2.spelling ≠ [] := by
    decide +kernel
  -- what is checked for the entries holds of the symbol, once it is known to be one of them
  have listed : symbol ∈ operators.map (·.2) := by
    cases symbol with
    | number value => cases operator
    | name text => cases operator
    | binary op => cases op <;> decide +kernel
    | assign op =>
        cases op with
        | none => decide +kernel
        | some op =>
            have compound : ∀ op ∈ compoundOps, .assign (some op) ∈ operators.map (·.2) := by
              decide +kernel
            exact compound op writable
    | step up => cases up <;> decide +kernel
    | _ => decide +kernel
  obtain ⟨entry, mem, rfl⟩ := List.mem_map.1 listed
  obtain ⟨found, begins, nonempty⟩ := table entry mem
  obtain ⟨c, front, spelled⟩ := List.exists_cons_of_ne_nil nonempty
  rw [spelled] at begins
  refine ⟨found, c, front, spelled, ?_⟩
  simpa [and_assoc] using begins

/-- `++` and `--` stand next to a name; the other symbols may stand anywhere. -/
def Symbol.Placed (afterName : Bool) (symbol : Symbol) (rest : Text) : Prop :=
  ∀ up, symbol = .step up → afterName = true ∨ beginsName rest = true

theorem operator?_spelling {afterName : Bool} {symbol : Symbol} (operator : symbol.isOperator = true)
    (writable : symbol.Writable) {rest : Text} (separated : Separated rest)
    (placed : symbol.Placed afterName rest) :
    operator? afterName (symbol.spelling ++ rest) = some (symbol, symbol.spelling.length - 1) := by
  have found := longest?_append_separated symbol.spelling separated
  rw [(operator_spelling operator writable).1] at found
  change longest? (symbol.spelling ++ rest) = some (symbol, rest) at found
  unfold operator?
  rw [found]
  cases symbol with
  | step up =>
      have next : (afterName || beginsName rest) = true := Bool.or_eq_true_iff.2 (placed up rfl)
      cases up <;> simp [next, Symbol.spelling]
  | _ => simp

/-! ### Numbers and names -/

theorem char_le_iff (a b : Char) : a ≤ b ↔ a.toNat ≤ b.toNat :=
  Char.le_def.trans UInt32.le_iff_toNat_le

/-- The code points of the characters of names. -/
theorem toNat_of_isNameChar {c : Char} (h : Text.isNameChar c = true) :
    48 ≤ c.toNat ∧ c.toNat ≤ 122 := by
  simp only [Text.isNameChar, Text.isLetter, Text.isDigit, Bool.or_eq_true, Bool.and_eq_true,
    decide_eq_true_eq, beq_iff_eq, char_le_iff] at h
  rcases h with ((⟨low, high⟩ | ⟨low, high⟩) | ⟨low, high⟩) | rfl
  · exact ⟨Nat.le_trans (by decide) low, high⟩
  · exact ⟨Nat.le_trans (by decide) low, Nat.le_trans high (by decide)⟩
  · exact ⟨low, Nat.le_trans high (by decide)⟩
  · decide

theorem isBlank_of_isNameChar {c : Char} (h : Text.isNameChar c = true) : Text.isBlank c = false := by
  obtain ⟨low, high⟩ := toNat_of_isNameChar h
  simp only [Text.isBlank, Text.blankRanges, List.any_cons, List.any_nil, Bool.or_false,
    Bool.or_eq_false_iff, Bool.and_eq_false_iff, decide_eq_false_iff_not]
  omega

theorem isNameChar_of_isDigit {c : Char} (h : Text.isDigit c = true) : Text.isNameChar c = true := by
  simp [Text.isNameChar, h]

theorem isNameChar_of_isNameStart {c : Char} (h : Text.isNameStart c = true) :
    Text.isNameChar c = true := by
  rw [Text.isNameStart, Bool.or_eq_true] at h
  rcases h with letter | underscore
  · simp [Text.isNameChar, letter]
  · simp [Text.isNameChar, underscore]

theorem isDigit_of_isNameStart {c : Char} (h : Text.isNameStart c = true) : Text.isDigit c = false := by
  simp only [Text.isNameStart, Text.isLetter, Bool.or_eq_true, Bool.and_eq_true, decide_eq_true_eq,
    beq_iff_eq, char_le_iff] at h
  have above : 58 ≤ c.toNat := by
    rcases h with (⟨low, -⟩ | ⟨low, -⟩) | rfl
    · exact Nat.le_trans (by decide) low
    · exact Nat.le_trans (by decide) low
    · decide
  have nine : ¬ c ≤ '9' := fun high => absurd (Nat.le_trans above ((char_le_iff _ _).1 high)) (by decide)
  simp [Text.isDigit, nine]

/-- Numbers that can be written are written in decimal. -/
theorem ofInt64_ofNat {n : Nat} (h : n < Numeral.limit) :
    Numeral.ofInt64 (Int64.ofNat n) = Text.ofNat n := by
  have same : (Int64.ofNat n).toInt = n := Int64.toInt_ofNat_of_lt h
  rw [Numeral.ofInt64, same]
  rfl

theorem tokensAfter_number (afterName : Bool) {n : Nat} (h : n < Numeral.limit) {rest : Text}
    (separated : Separated rest) :
    tokensAfter afterName (Text.ofNat n ++ rest) =
      (tokensAfter false rest).map (⟨.number (Int64.ofNat n), Text.ofNat n ++ rest⟩ :: ·) := by
  have digits := Text.isDigit_of_mem_ofNat n
  have read := Numeral.read?_ofNat h
  obtain ⟨c, front, spelled⟩ := List.exists_cons_of_ne_nil (Text.ofNat_ne_nil n)
  rw [spelled] at digits read ⊢
  have digit := digits c List.mem_cons_self
  have backslash : c ≠ '\\' := by
    rintro rfl
    exact absurd digit (by decide)
  have notBlank := isBlank_of_isNameChar (isNameChar_of_isDigit digit)
  have numeral : ∀ d ∈ front, isNumeralChar d = true := by
    intro d mem
    simp [isNumeralChar, digits d (List.mem_cons_of_mem _ mem)]
  have run := takeWhile_append_separated (by decide) numeral separated
  rw [List.cons_append, tokensAfter_cons afterName backslash, notBlank, digit, run.1, run.2, read]
  rfl

theorem tokensAfter_name (afterName : Bool) {name : Text} (h : Text.isName name = true)
    {rest : Text} (separated : Separated rest) :
    tokensAfter afterName (name ++ rest) =
      (tokensAfter true rest).map (⟨.name name, name ++ rest⟩ :: ·) := by
  cases name with
  | nil => cases h
  | cons c front =>
      rw [Text.isName_cons, Bool.and_eq_true] at h
      obtain ⟨start, chars⟩ := h
      have backslash : c ≠ '\\' := by
        rintro rfl
        exact absurd start (by decide)
      have notBlank := isBlank_of_isNameChar (isNameChar_of_isNameStart start)
      have notDigit := isDigit_of_isNameStart start
      have run := takeWhile_append_separated (by decide) (List.all_eq_true.1 chars) separated
      rw [List.cons_append, tokensAfter_cons afterName backslash, notBlank, notDigit, start, run.1,
        run.2]
      rfl

/-- **A symbol that is followed by a blank is read as itself.** -/
theorem tokensAfter_spelling {afterName : Bool} {symbol : Symbol} (writable : symbol.Writable)
    {rest : Text} (separated : Separated rest) (placed : symbol.Placed afterName rest) :
    tokensAfter afterName (symbol.spelling ++ rest) =
      (tokensAfter symbol.isName rest).map (⟨symbol, symbol.spelling ++ rest⟩ :: ·) := by
  cases operator : symbol.isOperator with
  | true =>
      have notName : symbol.isName = false := by
        cases symbol with
        | name text => cases operator
        | _ => rfl
      have read := operator?_spelling operator writable separated placed
      obtain ⟨-, c, front, spelled, backslash, notBlank, notDigit, notStart⟩ :=
        operator_spelling operator writable
      rw [spelled] at read ⊢
      rw [List.cons_append] at read ⊢
      rw [tokensAfter_cons afterName backslash, notBlank, notDigit, notStart, read, notName]
      simp
  | false =>
      cases symbol with
      | number value =>
          obtain ⟨n, small, rfl⟩ := writable
          rw [Symbol.spelling, ofInt64_ofNat small]
          exact tokensAfter_number afterName small separated
      | name text => exact tokensAfter_name afterName writable separated
      | _ => cases operator

/-! ### Lists of symbols -/

/-- Symbols that are read as themselves when they are written with blanks between them: all can be
written, and every `++` and `--` has a name before or after it. -/
def Lexical : Bool → List Symbol → Prop
  | _, [] => True
  | afterName, symbol :: symbols =>
    symbol.Writable ∧
      (∀ up, symbol = .step up → afterName = true ∨ ∃ name, symbols.head? = some (.name name)) ∧
      Lexical symbol.isName symbols

/-- A name in front does no harm. -/
theorem Lexical.mono {symbols : List Symbol} (h : Lexical false symbols) (afterName : Bool) :
    Lexical afterName symbols := by
  cases symbols with
  | nil => trivial
  | cons symbol symbols =>
      refine ⟨h.1, fun up same => ?_, h.2.2⟩
      exact .inr ((h.2.1 up same).resolve_left (by decide))

theorem Lexical.append {afterName : Bool} {symbols others : List Symbol}
    (h : Lexical afterName symbols) (h' : Lexical false others) :
    Lexical afterName (symbols ++ others) := by
  induction symbols generalizing afterName with
  | nil => exact h'.mono afterName
  | cons symbol symbols ih =>
      obtain ⟨writable, placed, rest⟩ := h
      refine ⟨writable, fun up same => ?_, ih rest⟩
      rcases placed up same with before | ⟨name, next⟩
      · exact .inl before
      · refine .inr ⟨name, ?_⟩
        cases symbols with
        | nil => cases next
        | cons other symbols => exact next

/-- A symbol that asks for nothing but to be written. -/
theorem Lexical.cons (symbol : Symbol) (writable : symbol.Writable) (h : ∀ up, symbol ≠ .step up)
    {symbols : List Symbol} (rest : Lexical false symbols) : Lexical false (symbol :: symbols) :=
  ⟨writable, fun up same => absurd same (h up), rest.mono _⟩

/-- The symbols with a blank before each of them. -/
def spaced (symbols : List Symbol) : Text :=
  symbols.flatMap fun symbol => ' ' :: symbol.spelling

theorem separated_spaced (symbols : List Symbol) : Separated (spaced symbols) := by
  cases symbols with
  | nil => exact .inl rfl
  | cons symbol symbols => exact .inr ⟨_, rfl⟩

theorem beginsName_spaced {symbols : List Symbol} {name : Text} (h : Text.isName name = true)
    (first : symbols.head? = some (.name name)) : beginsName (spaced symbols) = true := by
  cases symbols with
  | nil => cases first
  | cons symbol symbols =>
      obtain rfl := Option.some.inj first
      cases name with
      | nil => cases h
      | cons c front =>
          rw [Text.isName_cons, Bool.and_eq_true] at h
          have notBlank := isBlank_of_isNameChar (isNameChar_of_isNameStart h.1)
          change ((Text.trimStart (' ' :: c :: (front ++ spaced symbols))).head?.any
            Text.isNameStart) = true
          have trimmed : Text.trimStart (' ' :: c :: (front ++ spaced symbols)) =
              c :: (front ++ spaced symbols) := by
            rw [Text.trimStart, List.dropWhile_cons_of_pos (by decide),
              List.dropWhile_cons_of_neg (by simp [notBlank])]
          rw [trimmed]
          exact h.1

/-- **What is written with blanks is cut into the symbols it was written from.** -/
theorem tokensAfter_spaced {afterName : Bool} {symbols : List Symbol} (h : Lexical afterName symbols) :
    ∃ tokens, tokensAfter afterName (spaced symbols) = .ok tokens ∧
      tokens.map Token.symbol = symbols := by
  induction symbols generalizing afterName with
  | nil =>
      refine ⟨[], ?_, rfl⟩
      rw [spaced, List.flatMap_nil, tokensAfter.eq_def]
  | cons symbol symbols ih =>
      obtain ⟨writable, placed, rest⟩ := h
      obtain ⟨tokens, read, same⟩ := ih rest
      have next : symbol.Placed afterName (spaced symbols) := by
        intro up isStep
        rcases placed up isStep with before | ⟨name, first⟩
        · exact .inl before
        · refine .inr (beginsName_spaced ?_ first)
          cases symbols with
          | nil => cases first
          | cons other symbols =>
              obtain rfl := Option.some.inj first
              exact rest.1
      have blank : tokensAfter afterName (spaced (symbol :: symbols)) =
          tokensAfter afterName (symbol.spelling ++ spaced symbols) :=
        tokensAfter_cons afterName (by decide) _
      rw [blank, tokensAfter_spelling writable (separated_spaced symbols) next, read]
      exact ⟨_, rfl, congrArg (symbol :: ·) same⟩

/-! ### Formulas -/

theorem lexical_enclose (place level : Nat) {symbols : List Symbol} (h : Lexical false symbols) :
    Lexical false (enclose place level symbols) := by
  have close : Lexical false [.closeParen] := .cons .closeParen trivial (by simp) trivial
  unfold enclose
  split
  · exact .cons .openParen trivial (by simp) (h.append close)
  · exact h

theorem Formula.lexical_symbols (e : Formula) : Lexical false e.symbols := by
  induction e with
  | number n => exact .cons (.number _) ⟨n.val, n.isLt, rfl⟩ (by simp) trivial
  | «variable» name => exact .cons (.name name) name.2 (by simp) trivial
  | step name up before =>
      have named : Lexical false [.name name.1] := .cons (.name name.1) name.2 (by simp) trivial
      cases before with
      | true => exact ⟨trivial, fun _ _ => .inr ⟨name, rfl⟩, named⟩
      | false => exact ⟨name.2, fun _ same => Symbol.noConfusion same, trivial, fun _ _ => .inl rfl, trivial⟩
  | assign name op value ih =>
      have target : Symbol.Writable (.assign (op.map (·.1))) := by
        cases op with
        | none => trivial
        | some op => exact op.2
      refine .cons (.name name) name.2 (by simp) (.cons _ target (by simp) ?_)
      exact lexical_enclose _ _ ih
  | unary op operand ih =>
      refine .cons op.symbol ?_ ?_ (lexical_enclose _ _ ih)
      · cases op <;> trivial
      · cases op <;> simp [UnaryOp.symbol]
  | binary op left right ihLeft ihRight =>
      have behind := Lexical.cons (.binary op) trivial (by simp)
        (lexical_enclose op.rightLevel right.level ihRight)
      exact (lexical_enclose _ _ ihLeft).append behind
  | conditional condition taken other ihCondition ihTaken ihOther =>
      have last := Lexical.cons .colon trivial (by simp) (lexical_enclose 3 other.level ihOther)
      have behind := Lexical.cons .question trivial (by simp)
        ((lexical_enclose 2 taken.level ihTaken).append last)
      exact (lexical_enclose _ _ ihCondition).append behind
  | comma first second ihFirst ihSecond =>
      have behind := Lexical.cons .comma trivial (by simp) (lexical_enclose 2 second.level ihSecond)
      exact (lexical_enclose _ _ ihFirst).append behind

/-- The printed form is that with a blank before every symbol, but for the first blank. -/
theorem spaced_eq_intercalate {symbols : List Symbol} (h : symbols ≠ []) :
    spaced symbols = ' ' :: List.intercalate [' '] (symbols.map Symbol.spelling) := by
  induction symbols with
  | nil => exact absurd rfl h
  | cons symbol symbols ih =>
      cases symbols with
      | nil => simp [spaced, List.intercalate]
      | cons other symbols =>
          have rest := ih (by simp)
          change ' ' :: (symbol.spelling ++ spaced (other :: symbols)) = _
          rw [rest]
          simp [List.intercalate]

/-- **A printed formula is cut into its symbols.** -/
theorem Formula.tokens_print (e : Formula) :
    ∃ tokens, Arith.tokens e.print = .ok tokens ∧ tokens.map Token.symbol = e.symbols := by
  obtain ⟨tokens, read, same⟩ := tokensAfter_spaced e.lexical_symbols
  refine ⟨tokens, ?_, same⟩
  rw [spaced_eq_intercalate e.symbols_ne_nil] at read
  exact (tokensAfter_cons false (by decide) _).symm.trans read

end ShellWord.Arith
