import ShellWord.Proofs.Arith.Formula

/-!
# Reading a formula back

The tokens of a printed formula are read as the tree of the formula.  For a level of the grammar this
means: behind the tokens of the formula there may be more tokens, and reading stops in front of them, if
the next one could not go on with a formula of this level.  `Symbol.reach` is the tightest level that a
symbol goes on with, and `Stops` compares it with the level that is being read.

### What is load-bearing

For the operators that associate to the left the statement is not strong enough for an induction: the left
operand of an operator is followed by that very operator, in front of which reading does *not* stop.
`Leads` is the one that works.  It says that reading comes to the end of the operand with the operand as
what has been collected so far, and is about to look at the next token.

Levels are read by functions that count tokens, or count how deep parentheses are nested.  The number of
symbols of a formula is enough for both.
-/

namespace ShellWord.Arith

/-! ### Where reading stops -/

/-- The tightest level of formulas that a symbol goes on with; zero if it ends them all. -/
def Symbol.reach : Symbol → Nat
  | .comma => 1
  | .question => 3
  | .binary op => op.level
  | .step _ => 16
  | .assign _ => 16
  | _ => 0

/-- Reading a formula of this level stops in front of these tokens. -/
def Stops (level : Nat) (rest : List Token) : Prop :=
  ∀ token ∈ rest.head?, token.symbol.reach < level

theorem Stops.nil {level : Nat} : Stops level [] := by
  intro token mem
  cases mem

theorem Stops.cons {level : Nat} {symbol : Symbol} (h : symbol.reach < level) (text : Text)
    (rest : List Token) : Stops level (⟨symbol, text⟩ :: rest) := by
  intro other mem
  obtain rfl := Option.some.inj mem
  exact h

theorem Stops.mono {level tighter : Nat} {rest : List Token} (h : Stops level rest)
    (le : level ≤ tighter) : Stops tighter rest :=
  fun token mem => Nat.lt_of_lt_of_le (h token mem) le

/-- On tokens with these symbols, the level gives this tree and leaves what follows. -/
def Reads (f : Level) (level : Nat) (symbols : List Symbol) (e : Expr) : Prop :=
  ∀ tokens rest, tokens.map Token.symbol = symbols → Stops level rest →
    f (tokens ++ rest) = (e, rest)

/-- Tokens whose first symbol is known. -/
theorem exists_of_map_symbol_cons {tokens : List Token} {symbol : Symbol} {symbols : List Symbol}
    (h : tokens.map Token.symbol = symbol :: symbols) :
    ∃ text more, tokens = ⟨symbol, text⟩ :: more ∧ more.map Token.symbol = symbols := by
  obtain ⟨⟨first, text⟩, more, rfl, rfl, same⟩ := List.map_eq_cons_iff.1 h
  exact ⟨text, more, rfl, same⟩

theorem exists_of_map_symbol_singleton {tokens : List Token} {symbol : Symbol}
    (h : tokens.map Token.symbol = [symbol]) : ∃ text, tokens = [⟨symbol, text⟩] := by
  obtain ⟨text, more, rfl, none⟩ := exists_of_map_symbol_cons h
  rw [List.map_eq_nil_iff.1 none]
  exact ⟨text, rfl⟩

/-! ### Operands -/

section

variable {inner operand item : Level} {symbols : List Symbol} {e : Expr}

theorem reads_number (value : Int64) : Reads (primary inner) 16 [.number value] (.number value) := by
  intro tokens rest same stops
  obtain ⟨text, rfl⟩ := exists_of_map_symbol_singleton same
  rfl

theorem reads_variable (name : Text) : Reads (primary inner) 16 [.name name] (.variable name) := by
  intro tokens rest same stops
  obtain ⟨text, rfl⟩ := exists_of_map_symbol_singleton same
  -- a `++` or `--` would go on, and is what `stops` leaves out
  rcases rest with _ | ⟨⟨symbol, _⟩, rest⟩
  · rfl
  · have next := stops ⟨symbol, _⟩ rfl
    cases symbol with
    | step up => exact absurd next (Nat.lt_irrefl 16)
    | _ => rfl

theorem reads_step_after (name : Text) (up : Bool) :
    Reads (primary inner) 16 [.name name, .step up] (.step name up false) := by
  intro tokens rest same stops
  obtain ⟨text, more, rfl, last⟩ := exists_of_map_symbol_cons same
  obtain ⟨text', rfl⟩ := exists_of_map_symbol_singleton last
  rfl

/-- A formula in parentheses. -/
theorem reads_parens (h : Reads inner 1 symbols e) :
    Reads (primary inner) 16 (.openParen :: (symbols ++ [.closeParen])) e := by
  intro tokens rest same stops
  obtain ⟨text, more, rfl, behind⟩ := exists_of_map_symbol_cons same
  obtain ⟨body, close, rfl, sameBody, last⟩ := List.map_eq_append_iff.1 behind
  obtain ⟨text', rfl⟩ := exists_of_map_symbol_singleton last
  have read := h body (⟨.closeParen, text'⟩ :: rest) sameBody (.cons (by decide) _ _)
  rw [List.cons_append, List.append_assoc, List.singleton_append, primary, read]

theorem reads_step_before (name : Text) (up : Bool) :
    Reads (unary inner) 15 [.step up, .name name] (.step name up true) := by
  intro tokens rest same stops
  obtain ⟨text, more, rfl, last⟩ := exists_of_map_symbol_cons same
  obtain ⟨text', rfl⟩ := exists_of_map_symbol_singleton last
  rfl

theorem reads_unary (op : UnaryOp) (h : Reads (unary inner) 15 symbols e) :
    Reads (unary inner) 15 (op.symbol :: symbols) (.unary op e) := by
  intro tokens rest same stops
  obtain ⟨text, more, rfl, behind⟩ := exists_of_map_symbol_cons same
  have read := h more rest behind stops
  cases op <;>
    simp [unary, UnaryOp.symbol, Symbol.unary?, read]

/-- The symbols begin like a number, a name or a parenthesis. -/
def BeginsOperand (symbols : List Symbol) : Prop :=
  ∃ symbol more, symbols = symbol :: more ∧ symbol.unary? = none ∧ ∀ up, symbol ≠ .step up

/-- An operand without an operator in front. -/
theorem Reads.unary (h : Reads (primary inner) 16 symbols e) (begins : BeginsOperand symbols) :
    Reads (unary inner) 15 symbols e := by
  intro tokens rest same stops
  have read := h tokens rest same (stops.mono (by decide))
  obtain ⟨symbol, others, rfl, notUnary, notStep⟩ := begins
  obtain ⟨text, more, rfl, same⟩ := exists_of_map_symbol_cons same
  rw [← read, List.cons_append]
  rw [Arith.unary.eq_def]
  split
  · next equal => exact absurd (Token.mk.inj (List.cons.inj equal).1).1 (notStep _)
  · next equal =>
    obtain ⟨rfl, rfl⟩ := List.cons.inj equal
    rw [notUnary]
  · next equal => cases equal

/-! ### Powers -/

/-- An operand alone is a power. -/
theorem Reads.powerAt (h : Reads operand 15 symbols e) (n : Nat) :
    Reads (powerAt operand n) 14 symbols e := by
  intro tokens rest same stops
  have read := h tokens rest same (stops.mono (by decide))
  cases n with
  | zero => exact read
  | succ n =>
      rw [Arith.powerAt, read]
      rcases rest with _ | ⟨⟨symbol, _⟩, rest⟩
      · rfl
      · have next := stops ⟨symbol, _⟩ rfl
        cases symbol with
        | binary op =>
            cases op with
            | pow => exact absurd next (Nat.lt_irrefl 14)
            | _ => rfl
        | _ => rfl

/-- A base and an exponent. -/
theorem reads_pow {base exponent : List Symbol} {b x : Expr} {n : Nat} (hb : Reads operand 15 base b)
    (hx : Reads (powerAt operand n) 14 exponent x) :
    Reads (powerAt operand (n + 1)) 14 (base ++ .binary .pow :: exponent) (.binary .pow b x) := by
  intro tokens rest same stops
  obtain ⟨front, back, rfl, sameBase, behind⟩ := List.map_eq_append_iff.1 same
  obtain ⟨text, more, rfl, sameExponent⟩ := exists_of_map_symbol_cons behind
  have readBase := hb front (⟨.binary .pow, text⟩ :: (more ++ rest)) sameBase (.cons (by decide) _ _)
  have readExponent := hx more rest sameExponent stops
  rw [List.append_assoc, List.cons_append, powerAt, readBase]
  dsimp only
  rw [readExponent]

/-! ### Operators that associate to the left -/

/-- Reading tokens with these symbols collects this tree, and `more` is to look at what follows.  The number
of tokens that may still be looked at is large enough. -/
def Leads (f : Level) (more : Nat → Expr → Level) (level : Nat) (symbols : List Symbol) (e : Expr) :
    Prop :=
  ∀ tokens rest, tokens.map Token.symbol = symbols → Stops (level + 1) rest →
    ∃ n, rest.length ≤ n ∧ f (tokens ++ rest) = more n e rest

variable {ops : List BinaryOp} {level : Nat} {f : Level}

/-- A first operand. -/
theorem Reads.leads_chain (h : Reads operand (level + 1) symbols e) :
    Leads (leftAssoc ops operand) (chain ops operand) level symbols e := by
  intro tokens rest same stops
  refine ⟨rest.length, Nat.le_refl _, ?_⟩
  rw [leftAssoc, h tokens rest same stops]

/-- One more operator and operand. -/
theorem Leads.binary {left right : List Symbol} {l r : Expr} {op : BinaryOp}
    (hl : Leads f (chain ops operand) level left l) (mem : ops.contains op = true)
    (same : op.level = level) (hr : Reads operand (level + 1) right r) :
    Leads f (chain ops operand) level (left ++ .binary op :: right) (.binary op l r) := by
  intro tokens rest symbols stops
  obtain ⟨front, back, rfl, sameLeft, behind⟩ := List.map_eq_append_iff.1 symbols
  obtain ⟨text, more, rfl, sameRight⟩ := exists_of_map_symbol_cons behind
  have reach : (Symbol.binary op).reach < level + 1 := Nat.lt_succ_of_le (Nat.le_of_eq same)
  have next : Stops (level + 1) (⟨.binary op, text⟩ :: (more ++ rest)) := .cons reach _ _
  obtain ⟨n, enough, collected⟩ := hl front _ sameLeft next
  simp only [List.length_cons, List.length_append] at enough
  cases n with
  | zero => omega
  | succ n =>
      refine ⟨n, by omega, ?_⟩
      rw [List.append_assoc, List.cons_append, collected, chain, if_pos mem,
        hr more rest sameRight stops]

/-- Where no operator of the level follows, the tree is complete. -/
theorem Leads.reads_chain (h : Leads f (chain ops operand) level symbols e)
    (levels : ∀ op, ops.contains op = true → op.level = level) : Reads f level symbols e := by
  intro tokens rest same stops
  obtain ⟨n, -, collected⟩ := h tokens rest same (stops.mono (Nat.le_succ _))
  rw [collected]
  cases n with
  | zero => rfl
  | succ n =>
      rcases rest with _ | ⟨⟨symbol, text⟩, rest⟩
      · rfl
      · have next := stops ⟨symbol, text⟩ rfl
        cases symbol with
        | binary op =>
            have other : ¬ ops.contains op = true := fun mem =>
              Nat.lt_irrefl level (Nat.lt_of_le_of_lt (Nat.le_of_eq (levels op mem).symm) next)
            rw [chain, if_neg other]
        | _ => rfl

/-! ### Commas -/

theorem Reads.leads_commas (h : Reads item 2 symbols e) :
    Leads (commas item) (commaChain item) 1 symbols e := by
  intro tokens rest same stops
  refine ⟨rest.length, Nat.le_refl _, ?_⟩
  rw [commas, h tokens rest same stops]

theorem Leads.comma {first second : List Symbol} {a b : Expr}
    (ha : Leads f (commaChain item) 1 first a) (hb : Reads item 2 second b) :
    Leads f (commaChain item) 1 (first ++ .comma :: second) (.comma a b) := by
  intro tokens rest symbols stops
  obtain ⟨front, back, rfl, sameFirst, behind⟩ := List.map_eq_append_iff.1 symbols
  obtain ⟨text, more, rfl, sameSecond⟩ := exists_of_map_symbol_cons behind
  obtain ⟨n, enough, collected⟩ := ha front (⟨.comma, text⟩ :: (more ++ rest)) sameFirst
    (.cons (by decide) _ _)
  simp only [List.length_cons, List.length_append] at enough
  cases n with
  | zero => omega
  | succ n =>
      refine ⟨n, by omega, ?_⟩
      rw [List.append_assoc, List.cons_append, collected, commaChain, hb more rest sameSecond stops]

theorem Leads.reads_commas (h : Leads f (commaChain item) 1 symbols e) : Reads f 1 symbols e := by
  intro tokens rest same stops
  obtain ⟨n, -, collected⟩ := h tokens rest same (stops.mono (Nat.le_succ _))
  rw [collected]
  cases n with
  | zero => rfl
  | succ n =>
      rcases rest with _ | ⟨⟨symbol, text⟩, rest⟩
      · rfl
      · have next := stops ⟨symbol, text⟩ rfl
        cases symbol with
        | comma => exact absurd next (Nat.lt_irrefl 1)
        | _ => rfl

/-! ### Conditionals and assignments -/

theorem reads_conditional {c t o : List Symbol} {ec et eo : Expr}
    (hc : Reads (Arith.binary (commas (assignment inner))) 4 c ec)
    (ht : Reads (assignment inner) 2 t et) (ho : Reads inner 3 o eo) :
    Reads (conditional inner) 3 (c ++ .question :: (t ++ .colon :: o)) (.conditional ec et eo) := by
  intro tokens rest symbols stops
  obtain ⟨front, back, rfl, sameCondition, behind⟩ := List.map_eq_append_iff.1 symbols
  obtain ⟨text, more, rfl, behind'⟩ := exists_of_map_symbol_cons behind
  obtain ⟨middle, back, rfl, sameTaken, last⟩ := List.map_eq_append_iff.1 behind'
  obtain ⟨text', final, rfl, sameOther⟩ := exists_of_map_symbol_cons last
  have readCondition := hc front (⟨.question, text⟩ :: (middle ++ ⟨.colon, text'⟩ :: (final ++ rest)))
    sameCondition (.cons (by decide) _ _)
  have readTaken := ht middle (⟨.colon, text'⟩ :: (final ++ rest)) sameTaken (.cons (by decide) _ _)
  have readOther := ho final rest sameOther stops
  simp only [List.append_assoc, List.cons_append, conditional, readCondition, readTaken, readOther]

/-- A formula of a tighter level, with no question behind it. -/
theorem Reads.conditional (h : Reads (Arith.binary (commas (assignment inner))) 4 symbols e) :
    Reads (conditional inner) 3 symbols e := by
  intro tokens rest same stops
  have read := h tokens rest same (stops.mono (by decide))
  rw [Arith.conditional, read]
  rcases rest with _ | ⟨⟨symbol, text⟩, rest⟩
  · rfl
  · have next := stops ⟨symbol, text⟩ rfl
    cases symbol with
    | question => exact absurd next (Nat.lt_irrefl 3)
    | _ => rfl

theorem reads_assign (name : Text) (op : Option BinaryOp) (h : Reads (assignment item) 2 symbols e) :
    Reads (assignment item) 2 (.name name :: .assign op :: symbols) (.assign name op e) := by
  intro tokens rest same stops
  obtain ⟨text, more, rfl, behind⟩ := exists_of_map_symbol_cons same
  obtain ⟨text', more, rfl, sameValue⟩ := exists_of_map_symbol_cons behind
  rw [List.cons_append, List.cons_append, assignment, h more rest sameValue stops]

/-- The symbols do not begin with the target of an assignment. -/
def NoTarget (symbols : List Symbol) : Prop :=
  symbols ≠ [] ∧ ∀ name op more, symbols ≠ .name name :: .assign op :: more

/-- A formula of a tighter level, which is not the target of an assignment. -/
theorem Reads.assignment (h : Reads item 3 symbols e) (noTarget : NoTarget symbols) :
    Reads (assignment item) 2 symbols e := by
  intro tokens rest same stops
  rw [← h tokens rest same (stops.mono (by decide))]
  rw [Arith.assignment.eq_def]
  split
  · next name _ op _ behind equal =>
    -- the two tokens belong to the formula, or the second is the one it stops at
    rcases tokens with _ | ⟨first, _ | ⟨second, tokens⟩⟩
    · exact absurd same.symm noTarget.1
    · have behindFirst : rest = _ := (List.cons.inj equal).2
      rw [behindFirst] at stops
      exact absurd (stops _ rfl) (by simp [Symbol.reach])
    · obtain ⟨isName, others⟩ := List.cons.inj equal
      have isAssign := (List.cons.inj others).1
      rw [isName, isAssign] at same
      exact absurd same.symm (noTarget.2 _ _ _)
  · rfl

end

/-! ### The levels of the grammar -/

/-- The operators of a level from 4 to 13. -/
def opsAt (level : Nat) : List BinaryOp :=
  binaryLevels.getD (13 - level) []

theorem contains_opsAt {level : Nat} (low : 4 ≤ level) (high : level ≤ 13) (op : BinaryOp) :
    (opsAt level).contains op = decide (op.level = level) := by
  have all : ∀ level : Fin 14, 4 ≤ level.val →
      (opsAt level).contains op = decide (op.level = level.val) := by
    cases op <;> decide
  exact all ⟨level, Nat.lt_succ_of_le high⟩ low

/-- The levels from 4 on, over what stands in parentheses. -/
def operatorLevel (inner : Level) (level : Nat) : Level :=
  if 16 ≤ level then primary inner
  else if level = 15 then unary inner
  else
    (binaryLevels.take (14 - level)).foldl (fun operand ops => leftAssoc ops operand)
      (powers (unary inner))

theorem operatorLevel_eq_leftAssoc (inner : Level) {level : Nat} (low : 4 ≤ level)
    (high : level ≤ 13) :
    operatorLevel inner level = leftAssoc (opsAt level) (operatorLevel inner (level + 1)) := by
  have count : 14 - level = (13 - level) + 1 := by omega
  have count' : 14 - (level + 1) = 13 - level := by omega
  have found : binaryLevels[13 - level]? = some (opsAt level) := by
    have bound : 13 - level < binaryLevels.length := by
      change 13 - level < 10
      omega
    rw [opsAt, List.getD_eq_getElem?_getD, List.getElem?_eq_getElem bound, Option.getD_some]
  rw [operatorLevel, if_neg (by omega), if_neg (by omega), operatorLevel, if_neg (by omega),
    if_neg (by omega), count, count', List.take_add_one, found, List.foldl_append]
  rfl

/-- The function that reads a level, where parentheses and conditionals may be nested so deep. -/
def levelAt (depth level : Nat) : Level :=
  if level ≤ 1 then commas (assignment (conditionalAt (depth + 1)))
  else if level = 2 then assignment (conditionalAt (depth + 1))
  else if level = 3 then conditionalAt (depth + 1)
  else operatorLevel (commas (assignment (conditionalAt depth))) level

theorem levelAt_one (depth : Nat) :
    levelAt depth 1 = commas (assignment (conditionalAt (depth + 1))) :=
  if_pos (by decide)

theorem levelAt_two (depth : Nat) : levelAt depth 2 = assignment (conditionalAt (depth + 1)) := by
  rw [levelAt, if_neg (by decide), if_pos rfl]

theorem levelAt_three (depth : Nat) : levelAt depth 3 = conditionalAt (depth + 1) := by
  rw [levelAt, if_neg (by decide), if_neg (by decide), if_pos rfl]

theorem levelAt_of_four_le (depth : Nat) {level : Nat} (h : 4 ≤ level) :
    levelAt depth level = operatorLevel (commas (assignment (conditionalAt depth))) level := by
  rw [levelAt, if_neg (by omega), if_neg (by omega), if_neg (by omega)]

theorem levelAt_four (depth : Nat) :
    levelAt depth 4 = binary (commas (assignment (conditionalAt depth))) := by
  have all : binaryLevels.take 10 = binaryLevels := by decide
  rw [levelAt_of_four_le depth (by decide), operatorLevel, if_neg (by decide), if_neg (by decide), all,
    binary]

theorem levelAt_fourteen (depth : Nat) :
    levelAt depth 14 = powers (unary (commas (assignment (conditionalAt depth)))) := by
  rw [levelAt_of_four_le depth (by decide), operatorLevel, if_neg (by decide), if_neg (by decide)]
  rfl

theorem levelAt_fifteen (depth : Nat) :
    levelAt depth 15 = unary (commas (assignment (conditionalAt depth))) := by
  rw [levelAt_of_four_le depth (by decide), operatorLevel, if_neg (by decide), if_pos rfl]

theorem levelAt_sixteen (depth : Nat) :
    levelAt depth 16 = primary (commas (assignment (conditionalAt depth))) := by
  rw [levelAt_of_four_le depth (by decide), operatorLevel, if_pos (by decide)]

theorem levelAt_eq_leftAssoc (depth : Nat) {level : Nat} (low : 4 ≤ level) (high : level ≤ 13) :
    levelAt depth level = leftAssoc (opsAt level) (levelAt depth (level + 1)) := by
  rw [levelAt_of_four_le depth low, levelAt_of_four_le depth (Nat.le_succ_of_le low),
    operatorLevel_eq_leftAssoc _ low high]

section

variable {depth level : Nat} {symbols : List Symbol} {e : Expr}

/-- What a level reads, the next looser one reads too. -/
theorem Reads.looser (h : Reads (levelAt depth (level + 1)) (level + 1) symbols e)
    (positive : 1 ≤ level) (bounded : level ≤ 15) (begins : level = 15 → BeginsOperand symbols)
    (noTarget : level = 2 → NoTarget symbols) : Reads (levelAt depth level) level symbols e := by
  by_cases operator : 4 ≤ level ∧ level ≤ 13
  · obtain ⟨low, high⟩ := operator
    rw [levelAt_eq_leftAssoc depth low high]
    refine h.leads_chain.reads_chain fun op mem => ?_
    rw [contains_opsAt low high] at mem
    exact of_decide_eq_true mem
  · have cases : level = 1 ∨ level = 2 ∨ level = 3 ∨ level = 14 ∨ level = 15 := by omega
    rcases cases with rfl | rfl | rfl | rfl | rfl
    · rw [levelAt_two] at h
      rw [levelAt_one]
      exact h.leads_commas.reads_commas
    · rw [levelAt_three] at h
      rw [levelAt_two]
      exact Reads.assignment h (noTarget rfl)
    · rw [levelAt_four] at h
      rw [levelAt_three]
      exact Reads.conditional h
    · rw [levelAt_fifteen] at h
      rw [levelAt_fourteen]
      intro tokens rest same stops
      exact Reads.powerAt h _ tokens rest same stops
    · rw [levelAt_sixteen] at h
      rw [levelAt_fifteen]
      exact Reads.unary h (begins rfl)

/-- What a level reads, every looser one reads too. -/
theorem Reads.loosen {tight : Nat} (h : Reads (levelAt depth tight) tight symbols e)
    (bounded : tight ≤ 16) (begins : tight = 16 → BeginsOperand symbols)
    (noTarget : 3 ≤ tight → NoTarget symbols) (positive : 1 ≤ level) (le : level ≤ tight) :
    Reads (levelAt depth level) level symbols e := by
  obtain ⟨difference, rfl⟩ := Nat.exists_eq_add_of_le le
  induction difference generalizing level with
  | zero => exact h
  | succ difference ih =>
      have tighter : Reads (levelAt depth (level + 1)) (level + 1) symbols e := by
        have shift : level + (difference + 1) = level + 1 + difference := by omega
        rw [shift] at h bounded begins noTarget
        exact ih (by omega) h bounded begins noTarget (by omega)
      refine tighter.looser positive (by omega) (fun same => begins ?_) fun same => noTarget ?_
      · omega
      · omega

end

/-! ### What formulas begin with -/

theorem NoTarget.append_cons {symbols : List Symbol} (h : NoTarget symbols) {symbol : Symbol}
    (other : ∀ op, symbol ≠ .assign op) (more : List Symbol) :
    NoTarget (symbols ++ symbol :: more) := by
  refine ⟨by simp, fun name op rest same => ?_⟩
  rcases symbols with _ | ⟨first, _ | ⟨second, symbols⟩⟩
  · exact h.1 rfl
  · exact other op (List.cons.inj (List.cons.inj same).2).1
  · obtain ⟨rfl, behind⟩ := List.cons.inj same
    obtain ⟨rfl, -⟩ := List.cons.inj behind
    exact h.2 name op symbols rfl

theorem NoTarget.of_ne_name {symbol : Symbol} (h : ∀ name, symbol ≠ .name name)
    (more : List Symbol) : NoTarget (symbol :: more) :=
  ⟨by simp, fun name _ _ same => h name (List.cons.inj same).1⟩

namespace Formula

theorem level_pos (e : Formula) : 1 ≤ e.level := by
  cases e with
  | binary op left right => cases op <;> simp [level, BinaryOp.level]
  | step name up before => cases before <;> simp [level]
  | _ => simp [level]

theorem level_le (e : Formula) : e.level ≤ 16 := by
  cases e with
  | binary op left right => cases op <;> simp [level, BinaryOp.level]
  | step name up before => cases before <;> simp [level]
  | _ => simp [level]

theorem beginsOperand_symbols {e : Formula} (h : e.level = 16) : BeginsOperand e.symbols := by
  cases e with
  | number n => exact ⟨_, [], rfl, rfl, by simp⟩
  | «variable» name => exact ⟨_, [], rfl, rfl, by simp⟩
  | step name up before =>
      cases before with
      | true => cases h
      | false => exact ⟨_, _, rfl, rfl, by simp⟩
  | binary op left right => cases op <;> cases h
  | _ => cases h

/-- In a place for conditionals or tighter formulas no assignment stands without parentheses. -/
theorem noTarget_symbolsAt {e : Formula} (h : 3 ≤ e.level → NoTarget e.symbols) {place : Nat}
    (tight : 3 ≤ place) : NoTarget (e.symbolsAt place) := by
  unfold symbolsAt enclose
  split
  · exact .of_ne_name (by simp) _
  · exact h (by omega)

theorem noTarget_symbols (e : Formula) : 3 ≤ e.level → NoTarget e.symbols := by
  induction e with
  | number n => exact fun _ => .of_ne_name (by simp) _
  | «variable» name => exact fun _ => ⟨by simp [symbols], fun _ _ _ same => by simp [symbols] at same⟩
  | step name up before =>
      intro _
      cases before with
      | true => exact .of_ne_name (by simp) _
      | false => exact ⟨by simp [symbols], fun _ _ _ same => by simp [symbols] at same⟩
  | assign name op value ih =>
      intro tight
      exact absurd tight (by simp [level])
  | unary op operand ih =>
      intro _
      refine .of_ne_name (fun name => ?_) _
      cases op <;> simp [UnaryOp.symbol]
  | binary op left right ihLeft ihRight =>
      intro _
      have tight : 3 ≤ op.leftLevel := by cases op <;> decide
      exact (noTarget_symbolsAt ihLeft tight).append_cons (by simp) _
  | conditional condition taken other ihCondition ihTaken ihOther =>
      intro _
      exact (noTarget_symbolsAt ihCondition (by decide)).append_cons (by simp) _
  | comma first second ihFirst ihSecond =>
      intro tight
      exact absurd tight (by simp [level])

/-- In two places that treat a formula alike it is written alike. -/
theorem symbolsAt_succ {e : Formula} {place : Nat} (h : e.level ≠ place) :
    e.symbolsAt (place + 1) = e.symbolsAt place := by
  have same : e.level < place + 1 ↔ e.level < place := by omega
  simp only [symbolsAt, enclose, same]

/-! ### The induction -/

/-- A formula is read at its own level, in the form that its level needs. -/
structure Readable (e : Formula) : Prop where
  reads : ∀ depth, e.symbols.length ≤ depth + 1 →
    Reads (levelAt depth e.level) e.level e.symbols e.toExpr
  leadsChain : ∀ depth, e.symbols.length ≤ depth + 1 → 4 ≤ e.level → e.level ≤ 13 →
    Leads (levelAt depth e.level) (chain (opsAt e.level) (levelAt depth (e.level + 1))) e.level
      e.symbols e.toExpr
  leadsCommas : ∀ depth, e.symbols.length ≤ depth + 1 → e.level = 1 →
    Leads (levelAt depth 1) (commaChain (levelAt depth 2)) 1 e.symbols e.toExpr
  readsPower : ∀ depth, e.symbols.length ≤ depth + 1 → e.level = 14 →
    ∀ n, e.symbols.length ≤ n → Reads (powerAt (levelAt depth 15) n) 14 e.symbols e.toExpr

namespace Readable

variable {e : Formula}

/-- In every place the formula is read, with parentheses around it where they are needed. -/
theorem readsAt (h : e.Readable) (depth place : Nat) (positive : 1 ≤ place)
    (bounded : place ≤ 16) (enough : (e.symbolsAt place).length ≤ depth + 1) :
    Reads (levelAt depth place) place (e.symbolsAt place) e.toExpr := by
  by_cases loose : e.level < place
  · have written : e.symbolsAt place = .openParen :: (e.symbols ++ [.closeParen]) := if_pos loose
    rw [written] at enough ⊢
    simp only [List.length_cons, List.length_append, List.length_nil] at enough
    cases depth with
    | zero => omega
    | succ depth =>
        have inside := (h.reads depth (by omega)).loosen e.level_le beginsOperand_symbols
          e.noTarget_symbols (Nat.le_refl 1) e.level_pos
        rw [levelAt_one] at inside
        have parens := reads_parens inside
        rw [← levelAt_sixteen] at parens
        refine parens.loosen (Nat.le_refl 16) (fun _ => ⟨_, _, rfl, rfl, by simp⟩) (fun _ => ?_)
          positive bounded
        exact .of_ne_name (by simp) _
  · have written : e.symbolsAt place = e.symbols := if_neg loose
    rw [written] at enough ⊢
    exact (h.reads depth enough).loosen e.level_le beginsOperand_symbols e.noTarget_symbols positive
      (by omega)

theorem leadsChainAt (h : e.Readable) {depth place : Nat} (low : 4 ≤ place) (high : place ≤ 13)
    (enough : (e.symbolsAt place).length ≤ depth + 1) :
    Leads (levelAt depth place) (chain (opsAt place) (levelAt depth (place + 1))) place
      (e.symbolsAt place) e.toExpr := by
  by_cases same : e.level = place
  · subst same
    have written : e.symbolsAt e.level = e.symbols := if_neg (Nat.lt_irrefl _)
    rw [written] at enough ⊢
    exact h.leadsChain depth enough low high
  · rw [← symbolsAt_succ same] at enough ⊢
    rw [levelAt_eq_leftAssoc depth low high]
    exact (h.readsAt _ _ (by omega) (by omega) enough).leads_chain

theorem leadsCommasAt (h : e.Readable) {depth : Nat}
    (enough : (e.symbolsAt 1).length ≤ depth + 1) :
    Leads (levelAt depth 1) (commaChain (levelAt depth 2)) 1 (e.symbolsAt 1) e.toExpr := by
  by_cases same : e.level = 1
  · have written : e.symbolsAt 1 = e.symbols := if_neg (by omega)
    rw [written] at enough ⊢
    exact h.leadsCommas depth enough same
  · rw [← symbolsAt_succ same] at enough ⊢
    rw [levelAt_one, ← levelAt_two]
    exact (h.readsAt _ _ (by decide) (by decide) enough).leads_commas

theorem readsPowerAt (h : e.Readable) (depth : Nat) {n : Nat}
    (enough : (e.symbolsAt 14).length ≤ depth + 1) (count : (e.symbolsAt 14).length ≤ n) :
    Reads (powerAt (levelAt depth 15) n) 14 (e.symbolsAt 14) e.toExpr := by
  by_cases same : e.level = 14
  · have written : e.symbolsAt 14 = e.symbols := if_neg (by omega)
    rw [written] at enough count ⊢
    exact h.readsPower depth enough same n count
  · rw [← symbolsAt_succ same] at enough ⊢
    exact (h.readsAt _ _ (by decide) (by decide) enough).powerAt n

/-- Outside of the levels that collect operands nothing more is needed. -/
theorem of_reads (other : e.level = 2 ∨ e.level = 3 ∨ e.level = 15 ∨ e.level = 16)
    (reads : ∀ depth, e.symbols.length ≤ depth + 1 →
      Reads (levelAt depth e.level) e.level e.symbols e.toExpr) : e.Readable where
  reads := reads
  leadsChain := by
    intro depth enough low high
    omega
  leadsCommas := by
    intro depth enough same
    omega
  readsPower := by
    intro depth enough same
    omega

theorem assign {name : Name} {op : Option CompoundOp} {value : Formula} (h : value.Readable) :
    (Formula.assign name op value).Readable := by
  refine of_reads (.inl rfl) fun depth enough => ?_
  change (Symbol.name name :: .assign (op.map (·.1)) :: value.symbolsAt 2).length ≤ depth + 1 at enough
  simp only [List.length_cons] at enough
  have read := h.readsAt depth 2 (by decide) (by decide) (by omega)
  rw [levelAt_two] at read
  change Reads (levelAt depth 2) 2 _ _
  rw [levelAt_two]
  exact reads_assign name (op.map (·.1)) read

theorem unary {op : UnaryOp} {operand : Formula} (h : operand.Readable) :
    (Formula.unary op operand).Readable := by
  refine of_reads (.inr (.inr (.inl rfl))) fun depth enough => ?_
  change (op.symbol :: operand.symbolsAt 15).length ≤ depth + 1 at enough
  simp only [List.length_cons] at enough
  have read := h.readsAt depth 15 (by decide) (by decide) (by omega)
  rw [levelAt_fifteen] at read
  change Reads (levelAt depth 15) 15 _ _
  rw [levelAt_fifteen]
  exact reads_unary op read

theorem conditional {condition taken other : Formula} (hc : condition.Readable)
    (ht : taken.Readable) (ho : other.Readable) :
    (Formula.conditional condition taken other).Readable := by
  refine of_reads (.inr (.inl rfl)) fun depth enough => ?_
  change (condition.symbolsAt 4 ++
    .question :: (taken.symbolsAt 2 ++ .colon :: other.symbolsAt 3)).length ≤ depth + 1 at enough
  simp only [List.length_cons, List.length_append] at enough
  -- the two branches are read one conditional further down
  cases depth with
  | zero => omega
  | succ depth =>
      have readCondition := hc.readsAt (depth + 1) 4 (by decide) (by decide) (by omega)
      have readTaken := ht.readsAt depth 2 (by decide) (by decide) (by omega)
      have readOther := ho.readsAt depth 3 (by decide) (by decide) (by omega)
      rw [levelAt_four] at readCondition
      rw [levelAt_two] at readTaken
      rw [levelAt_three] at readOther
      change Reads (levelAt (depth + 1) 3) 3 _ _
      rw [levelAt_three]
      exact reads_conditional readCondition readTaken readOther

/-- The operators that associate to the left. -/
theorem leftAssoc {op : BinaryOp} {left right : Formula} (notPow : op ≠ .pow) (hl : left.Readable)
    (hr : right.Readable) : (Formula.binary op left right).Readable := by
  have low : 4 ≤ op.level := by cases op <;> decide
  have high : op.level ≤ 13 := by
    cases op with
    | pow => exact absurd rfl notPow
    | _ => decide
  have leads : ∀ depth, (Formula.binary op left right).symbols.length ≤ depth + 1 →
      Leads (levelAt depth op.level) (chain (opsAt op.level) (levelAt depth (op.level + 1))) op.level
        (Formula.binary op left right).symbols (Formula.binary op left right).toExpr := by
    intro depth enough
    have written : (Formula.binary op left right).symbols =
        left.symbolsAt op.level ++ .binary op :: right.symbolsAt (op.level + 1) := by
      simp only [symbols, symbolsAt, BinaryOp.leftLevel, BinaryOp.rightLevel, if_neg notPow]
    rw [written] at enough ⊢
    simp only [List.length_cons, List.length_append] at enough
    refine (hl.leadsChainAt low high (by omega)).binary ?_ rfl
      (hr.readsAt _ _ (by omega) (by omega) (by omega))
    rw [contains_opsAt low high]
    exact decide_eq_true rfl
  refine ⟨fun depth enough => ?_, fun depth enough _ _ => leads depth enough, ?_, ?_⟩
  · refine (leads depth enough).reads_chain fun other mem => ?_
    rw [contains_opsAt low high] at mem
    exact of_decide_eq_true mem
  · intro depth enough same
    change op.level = 1 at same
    omega
  · intro depth enough same
    change op.level = 14 at same
    omega

theorem pow {left right : Formula} (hl : left.Readable) (hr : right.Readable) :
    (Formula.binary .pow left right).Readable := by
  have readsPower : ∀ depth, (Formula.binary .pow left right).symbols.length ≤ depth + 1 →
      ∀ n, (Formula.binary .pow left right).symbols.length ≤ n →
        Reads (powerAt (levelAt depth 15) n) 14 (Formula.binary .pow left right).symbols
          (Formula.binary .pow left right).toExpr := by
    intro depth enough n count
    change (left.symbolsAt 15 ++ .binary .pow :: right.symbolsAt 14).length ≤ depth + 1 at enough
    change (left.symbolsAt 15 ++ .binary .pow :: right.symbolsAt 14).length ≤ n at count
    simp only [List.length_cons, List.length_append] at enough count
    cases n with
    | zero => omega
    | succ n =>
        have readBase := hl.readsAt depth 15 (by decide) (by decide) (by omega)
        have readExponent := hr.readsPowerAt depth (n := n) (by omega) (by omega)
        exact reads_pow readBase readExponent
  refine ⟨fun depth enough => ?_, ?_, ?_, fun depth enough _ => readsPower depth enough⟩
  · change Reads (levelAt depth 14) 14 _ _
    rw [levelAt_fourteen]
    intro tokens rest same stops
    have read := readsPower depth enough (tokens ++ rest).length (by simp [← same]) tokens rest same
      stops
    rw [levelAt_fifteen] at read
    exact read
  · intro depth enough low high
    exact absurd high (by simp [level, BinaryOp.level])
  · intro depth enough same
    cases same

theorem comma {first second : Formula} (hf : first.Readable) (hs : second.Readable) :
    (Formula.comma first second).Readable := by
  have leads : ∀ depth, (Formula.comma first second).symbols.length ≤ depth + 1 →
      Leads (levelAt depth 1) (commaChain (levelAt depth 2)) 1 (Formula.comma first second).symbols
        (Formula.comma first second).toExpr := by
    intro depth enough
    change (first.symbolsAt 1 ++ .comma :: second.symbolsAt 2).length ≤ depth + 1 at enough
    simp only [List.length_cons, List.length_append] at enough
    exact (hf.leadsCommasAt (by omega)).comma (hs.readsAt depth 2 (by decide) (by decide) (by omega))
  refine ⟨fun depth enough => ?_, ?_, fun depth enough _ => leads depth enough, ?_⟩
  · exact (leads depth enough).reads_commas
  · intro depth enough low
    exact absurd low (by simp [level])
  · intro depth enough same
    cases same

end Readable

/-- **Every formula is read back, at every level and in every place.** -/
theorem readable (e : Formula) : e.Readable := by
  induction e with
  | number n =>
      refine .of_reads (.inr (.inr (.inr rfl))) fun depth _ => ?_
      change Reads (levelAt depth 16) 16 _ _
      rw [levelAt_sixteen]
      exact reads_number _
  | «variable» name =>
      refine .of_reads (.inr (.inr (.inr rfl))) fun depth _ => ?_
      change Reads (levelAt depth 16) 16 _ _
      rw [levelAt_sixteen]
      exact reads_variable _
  | step name up before =>
      cases before with
      | true =>
          refine .of_reads (.inr (.inr (.inl rfl))) fun depth _ => ?_
          change Reads (levelAt depth 15) 15 _ _
          rw [levelAt_fifteen]
          exact reads_step_before _ _
      | false =>
          refine .of_reads (.inr (.inr (.inr rfl))) fun depth _ => ?_
          change Reads (levelAt depth 16) 16 _ _
          rw [levelAt_sixteen]
          exact reads_step_after _ _
  | assign name op value ih => exact ih.assign
  | unary op operand ih => exact ih.unary
  | binary op left right ihLeft ihRight =>
      by_cases isPow : op = .pow
      · subst isPow
        exact ihLeft.pow ihRight
      · exact ihLeft.leftAssoc isPow ihRight
  | conditional condition taken other ihCondition ihTaken ihOther =>
      exact ihCondition.conditional ihTaken ihOther
  | comma first second ihFirst ihSecond => exact ihFirst.comma ihSecond

/-- **The tokens of a formula are parsed as the formula.** -/
theorem parse_tokens (e : Formula) {tokens : List Token} (h : tokens.map Token.symbol = e.symbols) :
    parse tokens = e.toExpr := by
  have nonempty : tokens.isEmpty = false := by
    rw [List.isEmpty_eq_false_iff]
    rintro rfl
    exact e.symbols_ne_nil h.symm
  have count : e.symbols.length = tokens.length := by rw [← h, List.length_map]
  have read := (e.readable.reads tokens.length (by omega)).loosen e.level_le beginsOperand_symbols
    e.noTarget_symbols (Nat.le_refl 1) e.level_pos tokens [] h .nil
  rw [levelAt_one, List.append_nil] at read
  rw [parse, nonempty, if_neg (by decide), expression, read]

end Formula

end ShellWord.Arith
