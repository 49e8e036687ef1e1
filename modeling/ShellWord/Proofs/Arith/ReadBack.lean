import ShellWord.Proofs.Arith.Semantics
import ShellWord.Proofs.Arith.Targets
import ShellWord.Proofs.Parameter

/-!
# Reading back what arithmetic has stored

Assignments write a number into a variable as a decimal numeral, with a sign if it is negative.  A numeral that is
read has no sign, so a negative number is read back as an expression, the sign and the numeral behind it, one level
deeper than the variable.  This goes well for every number but one.  The numeral in `-9223372036854775808` is not a
number of 64 bits; only its opposite is.  So the least number can be stored, by `x = 1 << 63` or by counting up
from the greatest one, and then every expression that reads `x` fails.

`evaluate_stored` says what evaluating the name of a variable gives, for each of the numbers that it may hold, and
for each of the ways to store them.  A variable that changes by itself is one of those that may hold a number; once
it was set, it is read from the table like any other.
-/

namespace ShellWord

theorem Text.dropWhile_isBlank {t : Text} (h : ∀ c ∈ t, isBlank c = false) : t.dropWhile isBlank = t := by
  cases t with
  | nil => rfl
  | cons c t => rw [List.dropWhile_cons, h c List.mem_cons_self, if_neg Bool.false_ne_true]

theorem Text.trim_of_not_isBlank {t : Text} (h : ∀ c ∈ t, isBlank c = false) : trim t = t := by
  have reversed : ∀ c ∈ t.reverse, isBlank c = false := fun c mem => h c (List.mem_reverse.1 mem)
  rw [trim, trimStart, dropWhile_isBlank h, trimEnd, dropWhile_isBlank reversed, List.reverse_reverse]

namespace Numeral

/-- Every number of 64 bits but the least is written as a numeral that can be read, or with a sign in front of
one. -/
theorem ofInt64_of_ne_minValue {v : Int64} (h : v ≠ Int64.minValue) :
    ∃ n < limit, (v = Int64.ofNat n ∧ ofInt64 v = Text.ofNat n) ∨
      (v = -Int64.ofNat n ∧ ofInt64 v = '-' :: Text.ofNat n) := by
  have low := v.le_toInt
  have high := v.toInt_lt
  have same := v.ofInt_toInt
  unfold ofInt64
  cases value : v.toInt with
  | ofNat n =>
      rw [value] at high same
      refine ⟨n, ?_, .inl ⟨same.symm.trans Int64.ofInt_eq_ofNat, rfl⟩⟩
      have : (n : Int) < 2 ^ 63 := high
      rw [limit_eq]
      omega
  | negSucc n =>
      have opposite : Int.negSucc n = -((n + 1 : Nat) : Int) := rfl
      rw [value, opposite] at low same
      rw [Int64.ofInt_neg, Int64.ofInt_eq_ofNat] at same
      refine ⟨n + 1, ?_, .inr ⟨same.symm, rfl⟩⟩
      have other : n + 1 ≠ limit := by
        intro least
        rw [least] at same
        exact h same.symm
      rw [limit_eq] at other ⊢
      omega

/-- No numeral begins with a sign. -/
theorem read?_minus (n : Nat) : read? ('-' :: Text.ofNat n) = none := by
  have noMark : Text.cutAt? (· == '#') ('-' :: Text.ofNat n) = none := by
    apply cutAt?_eq_none
    intro c mem
    rcases List.mem_cons.1 mem with rfl | mem
    · rfl
    · simpa using ne_of_mem_ofNat mem (by decide)
  unfold read?
  rw [noMark]
  rfl

end Numeral

namespace Arith

/-! ### A sign and a numeral -/

theorem longest?_minus {c : Char} (h : Text.isDigit c = true) (t : Text) :
    longest? ('-' :: c :: t) = some (.binary .sub, c :: t) := by
  have minus : c ≠ '-' := by
    rintro rfl
    cases h
  have equals : c ≠ '=' := by
    rintro rfl
    cases h
  simp [longest?, operators, Text.after?, minus.symm, equals.symm]

/-- In front of a numeral the sign is a token. -/
theorem tokens_minus (n : Nat) :
    tokens ('-' :: Text.ofNat n) =
      (tokensAfter false (Text.ofNat n)).map (⟨.binary .sub, '-' :: Text.ofNat n⟩ :: ·) := by
  obtain ⟨c, rest, spelled⟩ := List.exists_cons_of_ne_nil (Text.ofNat_ne_nil n)
  have digit : Text.isDigit c = true := Text.isDigit_of_mem_ofNat n c (spelled ▸ List.mem_cons_self)
  have operator : operator? false ('-' :: c :: rest) = some (.binary .sub, 0) := by
    rw [operator?, longest?_minus digit]
    simp
  rw [spelled, tokens, tokensAfter_cons false (by decide), operator]
  rfl

section

variable {σ : Type}

theorem evaluateWith_minus (store : Store σ) (read : Text → Eval σ Int64) {n : Nat}
    (h : n < Numeral.limit) : evaluateWith store read ('-' :: Text.ofNat n) = pure (-Int64.ofNat n) := by
  have numeral := tokensAfter_number false h (.inl rfl)
  rw [List.append_nil, tokensAfter] at numeral
  rw [evaluateWith, tokens_minus, numeral]
  rfl

theorem ofInt64_minValue : Numeral.ofInt64 Int64.minValue = '-' :: Text.ofNat Numeral.limit := by
  decide +kernel

/-- Behind the sign of the least number there is no number. -/
theorem evaluateWith_limit (store : Store σ) (read : Text → Eval σ Int64) :
    evaluateWith store read ('-' :: Text.ofNat Numeral.limit) =
      throw (.valueTooGreat "9223372036854775808".toList) := by
  have digits : Text.ofNat Numeral.limit = '9' :: "223372036854775808".toList := by decide +kernel
  have unread : Numeral.read? ('9' :: "223372036854775808".toList.takeWhile isNumeralChar) = none := by
    decide +kernel
  have tooGreat : tokensAfter false (Text.ofNat Numeral.limit) =
      .error (.valueTooGreat "9223372036854775808".toList) := by
    rw [digits, tokensAfter_cons false (by decide), unread]
    rfl
  rw [evaluateWith, tokens_minus, tooGreat]
  rfl

/-! ### A variable that holds a number -/

/-- What reading a number back gives: all but the least are read. -/
def readBack (v : Int64) : Outcome :=
  if v = Int64.minValue then .error (.valueTooGreat "9223372036854775808".toList) else .ok v

theorem isBlank_of_mem_ofNat {n : Nat} {c : Char} (mem : c ∈ Text.ofNat n) : Text.isBlank c = false :=
  isBlank_of_isNameChar (isNameChar_of_isDigit (Text.isDigit_of_mem_ofNat n c mem))

theorem isBlank_of_mem_ofInt (i : Int) : ∀ c ∈ Text.ofInt i, Text.isBlank c = false := by
  intro c mem
  cases i with
  | ofNat n => exact isBlank_of_mem_ofNat mem
  | negSucc n =>
      rcases List.mem_cons.1 mem with rfl | mem
      · decide
      · exact isBlank_of_mem_ofNat mem

theorem ofInt_ne_nil (i : Int) : Text.ofInt i ≠ [] := by
  cases i with
  | ofNat n => exact Text.ofNat_ne_nil n
  | negSucc n => exact List.cons_ne_nil _ _

/-- **Reading a variable that holds a number.** -/
theorem exec_readAt_stored (store : Store σ) (levels : Nat) {name : Text} {s s' : σ} {v : Int64}
    (h : store.read name s = (some (Numeral.ofInt64 v), s')) :
    (readAt store (levels + 1) name).exec s = (readBack v, s') := by
  have trimmed : Text.trim (Numeral.ofInt64 v) = Numeral.ofInt64 v :=
    Text.trim_of_not_isBlank (isBlank_of_mem_ofInt v.toInt)
  have nonempty : Numeral.ofInt64 v ≠ [] := ofInt_ne_nil v.toInt
  rw [exec_readAt_succ, h]
  dsimp only
  rw [trimmed, if_neg nonempty]
  by_cases least : v = Int64.minValue
  · subst least
    rw [ofInt64_minValue, Numeral.read?_minus, readBack, if_pos rfl]
    dsimp only
    rw [evaluateWith_limit]
    rfl
  · rw [readBack, if_neg least]
    obtain ⟨n, small, ⟨same, spelled⟩ | ⟨same, spelled⟩⟩ := Numeral.ofInt64_of_ne_minValue least
    · rw [spelled, Numeral.read?_ofNat small, Int64.ofInt_eq_ofNat, same]
    · rw [spelled, Numeral.read?_minus]
      dsimp only
      rw [evaluateWith_minus _ _ small, same]
      rfl

theorem tokens_name {name : Text} (h : Text.isName name = true) : tokens name = .ok [⟨.name name, name⟩] := by
  have read : tokensAfter false (name ++ []) = _ := tokensAfter_name false h (.inl rfl)
  rwa [List.append_nil, tokensAfter] at read

/-- The text that is the name of a variable is evaluated by reading it. -/
theorem evaluateWith_name (store : Store σ) (read : Text → Eval σ Int64) {name : Text}
    (h : Text.isName name = true) : evaluateWith store read name = read name := by
  rw [evaluateWith, tokens_name h]
  rfl

/-- Evaluating the name of a variable that holds a number. -/
theorem exec_evaluate_name (store : Store σ) {name : Text} (isName : Text.isName name = true) {s s' : σ}
    {v : Int64} (h : store.read name s = (some (Numeral.ofInt64 v), s')) :
    (evaluate store name).exec s = (readBack v, s') := by
  rw [evaluate, evaluateWith_name _ _ isName]
  exact exec_readAt_stored store 15 h

/-! ### Storing -/

variable {store : Store σ} {read : Text → Eval σ Int64} {name : Text} {s s' : σ} {value : Int64}

/-- The last thing that an assignment does is to store its value. -/
theorem exists_write_of_exec_assign {op : Option BinaryOp} {e : Expr}
    (h : ((Expr.assign name op e).eval store read).exec s = (.ok value, s')) :
    ∃ before, s' = store.write name (Numeral.ofInt64 value) before := by
  obtain ⟨operand, s₁, -, h⟩ := Run.exec_bind_eq_ok_iff.1 h
  cases op with
  | none =>
      cases h
      exact ⟨s₁, rfl⟩
  | some op =>
      obtain ⟨old, s₂, -, h⟩ := Run.exec_bind_eq_ok_iff.1 h
      obtain ⟨new, s₃, -, h⟩ := Run.exec_bind_eq_ok_iff.1 h
      cases h
      exact ⟨s₃, rfl⟩

/-- `++` and `--` store the new value, also where the value of the expression is the old one. -/
theorem exists_write_of_exec_step {up before : Bool}
    (h : ((Expr.step name up before).eval store read).exec s = (.ok value, s')) :
    ∃ earlier, s' = store.write name
      (Numeral.ofInt64 (if before then value else if up then value + 1 else value - 1)) earlier := by
  obtain ⟨old, s₁, -, h⟩ := Run.exec_bind_eq_ok_iff.1 h
  cases h
  refine ⟨s₁, ?_⟩
  cases before <;> rfl

end

/-- What a text that can be read evaluates to, and the names in it. -/
theorem evaluateWith_of_parse {t : Text} {e : Expr} (h : (tokens t).map parse = .ok e) :
    e.NamesIn (Text.isName · = true) ∧
      ∀ {σ : Type} (store : Store σ) read, evaluateWith store read t = e.eval store read := by
  cases cut : tokens t with
  | error error =>
      rw [cut] at h
      cases h
  | ok tokens =>
      rw [cut] at h
      obtain rfl := Except.ok.inj h
      refine ⟨namesIn_parse (namesIn_tokensAfter false t cut), fun store read => ?_⟩
      rw [evaluateWith, cut]

section

variable {World : Type}

/-- Evaluating the name of a variable right after a number was stored in it. -/
theorem exec_integer_write (host : Host World) {name : Text} (isName : Text.isName name = true)
    (v : Int64) (s : Session World) :
    (integer host name).exec ((Session.store host).write name (Numeral.ofInt64 v) s) =
      (readBack v, (Session.store host).write name (Numeral.ofInt64 v) s) :=
  exec_evaluate_name _ isName (s.store_read_write host isName _)

/-- **What arithmetic stores it can read back, but for the least number.**  Evaluating the name of a variable that
holds a number gives this number and changes nothing but what reading it changes; for the least one, it fails.  So it
is after an assignment and after `++` and `--`, for the number that they have stored; and then reading it changes
nothing at all. -/
theorem evaluate_stored (host : Host World) :
    (∀ s name v, Text.isName name = true → s.lookup host name = some (Numeral.ofInt64 v) →
      (integer host name).exec s = (readBack v, s.afterRead host name)) ∧
    (∀ t name op e s value s',
      (tokens t).map parse = .ok (.assign name op e) →
      (integer host t).exec s = (.ok value, s') →
      (integer host name).exec s' = (readBack value, s')) ∧
    (∀ t name up before s value s',
      (tokens t).map parse = .ok (.step name up before) →
      (integer host t).exec s = (.ok value, s') →
      (integer host name).exec s' =
        (readBack (if before then value else if up then value + 1 else value - 1), s')) := by
  refine ⟨?_, ?_, ?_⟩
  · intro s name v isName held
    exact exec_evaluate_name (Session.store host) isName (Prod.ext held rfl)
  · intro t name op e s value s' parsed ran
    obtain ⟨names, same⟩ := evaluateWith_of_parse parsed
    rw [integer, evaluate, same] at ran
    obtain ⟨before, rfl⟩ := exists_write_of_exec_assign ran
    exact exec_integer_write host names.1 value before
  · intro t name up before s value s' parsed ran
    obtain ⟨names, same⟩ := evaluateWith_of_parse parsed
    rw [integer, evaluate, same] at ran
    obtain ⟨earlier, rfl⟩ := exists_write_of_exec_step ran
    exact exec_integer_write host names _ earlier

end

theorem map_parse_print (e : Formula) : (tokens e.print).map parse = .ok e.toExpr := by
  obtain ⟨tokens, lexed, same⟩ := e.tokens_print
  rw [lexed]
  exact congrArg Except.ok (e.parse_tokens same)

/-- The formula `x -= 7`. -/
def Formula.minusSeven : Formula :=
  .assign ⟨['x'], rfl⟩ (some ⟨.sub, by decide⟩) (.number ⟨7, by decide⟩)

/-- The formula `x--`. -/
def Formula.countDown : Formula :=
  .step ⟨['x'], rfl⟩ false false

/-- The statement at a negative number: `x` is set to -5 by `x -= 7`, and then to -6 by `x--`. -/
theorem evaluate_stored_negative :
    (integer Host.idle ['x']).exec (.holding ['-', '5']) = (.ok (-5), .holding ['-', '5']) ∧
    ∃ s s',
      (integer Host.idle Formula.minusSeven.print).exec (.holding ['2']) = (.ok (-5), s) ∧
      (integer Host.idle ['x']).exec s = (.ok (-5), s) ∧
      (integer Host.idle Formula.countDown.print).exec s = (.ok (-5), s') ∧
      (integer Host.idle ['x']).exec s' = (.ok (-6), s') := by
  obtain ⟨held, assigned, stepped⟩ := evaluate_stored Host.idle
  have first : (integer Host.idle Formula.minusSeven.print).exec (.holding ['2']) =
      (.ok (-5), .holding ['-', '5']) := by
    rw [integer, evaluate, evaluateWith_print]
    rfl
  have second : (integer Host.idle Formula.countDown.print).exec (.holding ['-', '5']) =
      (.ok (-5), .holding ['-', '6']) := by
    have old : (readAt (Session.store Host.idle) 16 ['x']).exec (.holding ['-', '5']) =
        (.ok (-5), .holding ['-', '5']) :=
      exec_readAt_stored (Session.store Host.idle) 15 (v := -5) rfl
    rw [integer, evaluate, evaluateWith_print]
    exact (Run.exec_bind_of_ok old).trans rfl
  refine ⟨held _ ['x'] (-5) rfl rfl, _, _, first, ?_, second, ?_⟩
  · exact assigned _ _ _ _ _ _ _ (map_parse_print _) first
  · exact stepped _ _ _ _ _ _ _ (map_parse_print _) second

/-- The formula `x = 1 << 63`. -/
def Formula.setLeast : Formula :=
  .assign ⟨['x'], rfl⟩ none (.binary .shiftLeft (.number ⟨1, by decide⟩) (.number ⟨63, by decide⟩))

/-- The least number can be stored, but it cannot be read back. -/
theorem evaluate_least_fails :
    ∃ s,
      (integer Host.idle Formula.setLeast.print).exec .blank = (.ok Int64.minValue, s) ∧
      s.lookup Host.idle ['x'] = some (Numeral.ofInt64 Int64.minValue) ∧
      (integer Host.idle ['x']).exec s ≠ (.ok Int64.minValue, s) := by
  have stored : (integer Host.idle Formula.setLeast.print).exec .blank =
      (.ok Int64.minValue, .holding (Numeral.ofInt64 Int64.minValue)) := by
    rw [integer, evaluate, evaluateWith_print]
    rfl
  refine ⟨_, stored, rfl, fun same => ?_⟩
  have failed : (integer Host.idle ['x']).exec (.holding (Numeral.ofInt64 Int64.minValue)) = _ :=
    exec_integer_write Host.idle rfl Int64.minValue .blank
  rw [failed] at same
  cases same

end Arith

end ShellWord
