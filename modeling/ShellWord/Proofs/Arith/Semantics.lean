import ShellWord.Proofs.Arith.Lexing
import ShellWord.Proofs.Arith.Parsing
import ShellWord.Proofs.Run

/-!
# What formulas mean

`Formula.Evaluates` gives the meaning of formulas by rules, one for each way in which evaluating a formula
can go.  It relates the state of a store before to an outcome, a number or an error, and to the state after;
that is there also for an error, since what was written before it stays.  How a variable is read is a
parameter of the rules, and `Fetches` says how it is done.

The last theorem puts everything together: evaluating the *text* of a formula does what the rules say for
the formula.  Cutting the text into tokens gives the symbols that were printed
(`Formula.tokens_print`), parsing them gives the tree (`Formula.parse_tokens`), and evaluating the tree
follows the rules (`Formula.exec_eval_toExpr_iff`).

### What is load-bearing

The value of a variable may be any text, and not only one that a formula prints.  So the rule for a
variable whose value is an expression refers to the evaluation of a text, one level deeper, and the theorem
holds at every depth.  Reading a variable may itself change the state, so every rule that reads one goes on
in the state after it: a variable that is read twice is fetched twice.
-/

namespace ShellWord.Arith

/-- A value, or why there is none. -/
abbrev Outcome := Except Error Int64

variable {σ : Type}

/-- How a variable is read: from the state before, to an outcome and the state after. -/
abbrev Fetch (σ : Type) := Text → σ → Outcome → σ → Prop

/-! ### Rules -/

/-- Evaluating a formula, given how variables are read. -/
inductive Formula.Evaluates (store : Store σ) (fetch : Fetch σ) : Formula → σ → Outcome → σ → Prop where
  | number {n v} : Evaluates store fetch (.number n) v (.ok (Int64.ofNat n)) v
  | variable {name : Name} {v o v'} : fetch name v o v' → Evaluates store fetch (.variable name) v o v'
  /-- the new value is written, and is the value of the formula if the operator stands in front -/
  | step {name : Name} {up before v old v' new} : fetch name v (.ok old) v' →
      new = (if up then old + 1 else old - 1) →
      Evaluates store fetch (.step name up before) v (.ok (if before then new else old))
        (store.write name (Numeral.ofInt64 new) v')
  | stepError {name : Name} {up before v error v'} : fetch name v (.error error) v' →
      Evaluates store fetch (.step name up before) v (.error error) v'
  | assign {name : Name} {e v value v'} : Evaluates store fetch e v (.ok value) v' →
      Evaluates store fetch (.assign name none e) v (.ok value) (store.write name (Numeral.ofInt64 value) v')
  | assignError {name op e v error v'} : Evaluates store fetch e v (.error error) v' →
      Evaluates store fetch (.assign name op e) v (.error error) v'
  /-- the target is read after the right side is evaluated -/
  | compound {name : Name} {op : CompoundOp} {e v value v₁ old v₂ new} :
      Evaluates store fetch e v (.ok value) v₁ → fetch name v₁ (.ok old) v₂ →
      op.1.apply old value = .ok new →
      Evaluates store fetch (.assign name (some op) e) v (.ok new)
        (store.write name (Numeral.ofInt64 new) v₂)
  | compoundFetchError {name : Name} {op e v value v₁ error v₂} :
      Evaluates store fetch e v (.ok value) v₁ → fetch name v₁ (.error error) v₂ →
      Evaluates store fetch (.assign name (some op) e) v (.error error) v₂
  | compoundError {name : Name} {op : CompoundOp} {e v value v₁ old v₂ error} :
      Evaluates store fetch e v (.ok value) v₁ → fetch name v₁ (.ok old) v₂ →
      op.1.apply old value = .error error →
      Evaluates store fetch (.assign name (some op) e) v (.error error) v₂
  | unary {op e v value v'} : Evaluates store fetch e v (.ok value) v' →
      Evaluates store fetch (.unary op e) v (.ok (op.apply value)) v'
  | unaryError {op e v error v'} : Evaluates store fetch e v (.error error) v' →
      Evaluates store fetch (.unary op e) v (.error error) v'
  /-- both operands, from left to right, unless the first one decides -/
  | binary {op left right v a v₁ b v₂} : (op = .and → a ≠ 0) → (op = .or → a = 0) →
      Evaluates store fetch left v (.ok a) v₁ → Evaluates store fetch right v₁ (.ok b) v₂ →
      Evaluates store fetch (.binary op left right) v (op.apply a b) v₂
  | binaryLeftError {op left right v error v'} : Evaluates store fetch left v (.error error) v' →
      Evaluates store fetch (.binary op left right) v (.error error) v'
  | binaryRightError {op left right v a v₁ error v₂} : (op = .and → a ≠ 0) → (op = .or → a = 0) →
      Evaluates store fetch left v (.ok a) v₁ → Evaluates store fetch right v₁ (.error error) v₂ →
      Evaluates store fetch (.binary op left right) v (.error error) v₂
  | andFalse {left right v v'} : Evaluates store fetch left v (.ok 0) v' →
      Evaluates store fetch (.binary .and left right) v (.ok 0) v'
  | orTrue {left right v a v'} : a ≠ 0 → Evaluates store fetch left v (.ok a) v' →
      Evaluates store fetch (.binary .or left right) v (.ok 1) v'
  | conditionalTrue {condition taken other v c v₁ o v₂} : c ≠ 0 →
      Evaluates store fetch condition v (.ok c) v₁ → Evaluates store fetch taken v₁ o v₂ →
      Evaluates store fetch (.conditional condition taken other) v o v₂
  | conditionalFalse {condition taken other v v₁ o v₂} :
      Evaluates store fetch condition v (.ok 0) v₁ → Evaluates store fetch other v₁ o v₂ →
      Evaluates store fetch (.conditional condition taken other) v o v₂
  | conditionalError {condition taken other v error v'} :
      Evaluates store fetch condition v (.error error) v' →
      Evaluates store fetch (.conditional condition taken other) v (.error error) v'
  | comma {first second v a v₁ o v₂} : Evaluates store fetch first v (.ok a) v₁ →
      Evaluates store fetch second v₁ o v₂ → Evaluates store fetch (.comma first second) v o v₂
  | commaError {first second v error v'} : Evaluates store fetch first v (.error error) v' →
      Evaluates store fetch (.comma first second) v (.error error) v'

/-- The value of a text that was met so many variables deep. -/
def evaluateAt (store : Store σ) (depth : Nat) (t : Text) : Eval σ Int64 :=
  evaluateWith store (readAt store (maxLevels - depth)) t

/-- Reading a variable so many variables deep. -/
inductive Fetches (store : Store σ) (depth : Nat) : Fetch σ where
  | tooDeep {name v} : 16 ≤ depth → Fetches store depth name v (.error (.recursionLevel name)) v
  | unset {name v v'} : depth < 16 → store.read name v = (none, v') →
      Fetches store depth name v (.ok 0) v'
  | blank {name v text v'} : depth < 16 → store.read name v = (some text, v') →
      Text.trim text = [] → Fetches store depth name v (.ok 0) v'
  | literal {name v text v' n} : depth < 16 → store.read name v = (some text, v') →
      Text.trim text ≠ [] → Numeral.read? (Text.trim text) = some n →
      Fetches store depth name v (.ok n) v'
  | expression {name v text v₁ o v₂} : depth < 16 → store.read name v = (some text, v₁) →
      Text.trim text ≠ [] → Numeral.read? (Text.trim text) = none →
      (evaluateAt store (depth + 1) (Text.trim text)).exec v₁ = (o, v₂) →
      Fetches store depth name v o v₂

/-! ### Parts of the evaluator -/

theorem exec_compute (op : BinaryOp) (a b : Int64) (v : σ) :
    (compute op a b).exec v = (op.apply a b, v) := by
  unfold compute
  cases op.apply a b <;> rfl

/-- An operand that is left out does nothing, since there is no mistake in it. -/
theorem discard_toExpr (e : Formula) : (discard e.toExpr : Eval σ Unit) = pure () := by
  rw [discard, e.mistake?_toExpr]

/-- Leaving an operand out behind another one changes nothing for that one. -/
theorem exec_then_discard (e : Formula) {x : Eval σ Int64} {v v' : σ} {o : Outcome}
    (h : x.exec v = (o, v')) :
    Run.exec (do
      let value ← x
      discard e.toExpr
      return value) v = (o, v') := by
  rw [discard_toExpr, Run.exec_bind, h]
  cases o <;> rfl

/-- The left operand decides in two cases only. -/
theorem decides_eq_false_iff (op : BinaryOp) (a : Int64) :
    op.decides a = false ↔ (op = .and → a ≠ 0) ∧ (op = .or → a = 0) := by
  cases op <;> simp [BinaryOp.decides]

/-! ### Formulas -/

namespace Formula

section

variable {store : Store σ} {read : Text → Eval σ Int64} {fetch : Fetch σ}

/-- What the rules say is what the evaluator does. -/
theorem exec_eval_of_evaluates
    (h : ∀ name v o v', fetch name v o v' → (read name).exec v = (o, v')) {e : Formula}
    {v v' : σ} {o : Outcome} (derivation : e.Evaluates store fetch v o v') :
    (e.toExpr.eval store read).exec v = (o, v') := by
  -- the premises of a rule stand in the order in which the evaluator runs, one bind for each
  induction derivation with
  | number => rfl
  | «variable» fetched => exact h _ _ _ _ fetched
  | step fetched new =>
      rw [toExpr, Expr.eval, Run.exec_bind_of_ok (h _ _ _ _ fetched), new]
      rfl
  | stepError fetched => rw [toExpr, Expr.eval, Run.exec_bind_of_error (h _ _ _ _ fetched)]
  | assign _ ih =>
      rw [toExpr, Expr.eval, Run.exec_bind_of_ok ih]
      rfl
  | assignError _ ih => rw [toExpr, Expr.eval, Run.exec_bind_of_error ih]
  | compound _ fetched applied ih =>
      rw [toExpr, Expr.eval, Run.exec_bind_of_ok ih]
      dsimp only [Option.map_some]
      rw [Run.exec_bind_of_ok (h _ _ _ _ fetched),
        Run.exec_bind_of_ok ((exec_compute _ _ _ _).trans (by rw [applied]))]
      rfl
  | compoundFetchError _ fetched ih =>
      rw [toExpr, Expr.eval, Run.exec_bind_of_ok ih]
      dsimp only [Option.map_some]
      rw [Run.exec_bind_of_error (h _ _ _ _ fetched)]
  | compoundError _ fetched applied ih =>
      rw [toExpr, Expr.eval, Run.exec_bind_of_ok ih]
      dsimp only [Option.map_some]
      rw [Run.exec_bind_of_ok (h _ _ _ _ fetched),
        Run.exec_bind_of_error ((exec_compute _ _ _ _).trans (by rw [applied]))]
  | unary _ ih =>
      rw [toExpr, Expr.eval, Run.exec_bind_of_ok ih]
      rfl
  | unaryError _ ih => rw [toExpr, Expr.eval, Run.exec_bind_of_error ih]
  | binary notAnd notOr _ _ ihLeft ihRight =>
      have undecided := (decides_eq_false_iff _ _).2 ⟨notAnd, notOr⟩
      rw [toExpr, Expr.eval, Run.exec_bind_of_ok ihLeft, undecided, if_neg (by decide),
        Run.exec_bind_of_ok ihRight, exec_compute]
  | binaryLeftError _ ih => rw [toExpr, Expr.eval, Run.exec_bind_of_error ih]
  | binaryRightError notAnd notOr _ _ ihLeft ihRight =>
      have undecided := (decides_eq_false_iff _ _).2 ⟨notAnd, notOr⟩
      rw [toExpr, Expr.eval, Run.exec_bind_of_ok ihLeft, undecided, if_neg (by decide),
        Run.exec_bind_of_error ihRight]
  | andFalse _ ih =>
      rw [toExpr, Expr.eval, Run.exec_bind_of_ok ih, discard_toExpr]
      rfl
  | orTrue nonzero _ ih =>
      have decided : BinaryOp.or.decides _ = true := bne_iff_ne.2 nonzero
      rw [toExpr, Expr.eval, Run.exec_bind_of_ok ih, decided, if_pos rfl, discard_toExpr]
      refine (exec_compute .or _ 0 _).trans ?_
      simp [BinaryOp.apply, truth, nonzero]
  | conditionalTrue nonzero _ _ ihCondition ihTaken =>
      have isTrue := bne_iff_ne.2 nonzero
      rw [toExpr, Expr.eval, Run.exec_bind_of_ok ihCondition, isTrue, if_pos rfl]
      exact exec_then_discard _ ihTaken
  | conditionalFalse _ _ ihCondition ihOther =>
      rw [toExpr, Expr.eval, Run.exec_bind_of_ok ihCondition, if_neg (by decide), discard_toExpr]
      exact ihOther
  | conditionalError _ ih => rw [toExpr, Expr.eval, Run.exec_bind_of_error ih]
  | comma _ _ ihFirst ihSecond =>
      rw [toExpr, Expr.eval, Run.exec_bind_of_ok ihFirst]
      exact ihSecond
  | commaError _ ih => rw [toExpr, Expr.eval, Run.exec_bind_of_error ih]

/-- Where the left operand decides, the value is the one that the operator has for it. -/
theorem evaluates_of_decides {op : BinaryOp} {left right : Formula} {v v' : σ} {a : Int64}
    (decided : op.decides a = true) (first : left.Evaluates store fetch v (.ok a) v') :
    (Formula.binary op left right).Evaluates store fetch v (op.apply a 0) v' := by
  cases op with
  | and =>
      obtain rfl : a = 0 := beq_iff_eq.1 decided
      exact .andFalse first
  | or =>
      have nonzero : a ≠ 0 := bne_iff_ne.1 decided
      have one : BinaryOp.or.apply a 0 = .ok 1 := by simp [BinaryOp.apply, truth, nonzero]
      rw [one]
      exact .orTrue nonzero first
  | _ => cases decided

/-- Every run of the evaluator follows the rules. -/
theorem evaluates_exec_eval
    (h : ∀ name v, fetch name v ((read name).exec v).1 ((read name).exec v).2) (e : Formula)
    (v : σ) :
    e.Evaluates store fetch v ((e.toExpr.eval store read).exec v).1 ((e.toExpr.eval store read).exec v).2 := by
  -- each operand in turn is one step of `Run.bind_rule`; the error rules say that the first error is kept
  induction e generalizing v with
  | number n => exact .number
  | «variable» name => exact .variable (h name v)
  | step name up before =>
      rw [toExpr, Expr.eval]
      refine Run.bind_rule (h name v) (fun _ _ => .stepError) fun old v' fetched => ?_
      exact .step fetched rfl
  | assign name op value ih =>
      rw [toExpr, Expr.eval]
      refine Run.bind_rule (ih v) (fun _ _ => .assignError) fun number v₁ first => ?_
      cases op with
      | none => exact .assign first
      | some op =>
          refine Run.bind_rule (h name v₁) (fun _ _ => .compoundFetchError first)
            fun old v₂ fetched => ?_
          have computed := exec_compute op.1 old number v₂
          cases applied : op.1.apply old number with
          | error error =>
              rw [applied] at computed
              rw [Run.exec_bind_of_error computed]
              exact .compoundError first fetched applied
          | ok new =>
              rw [applied] at computed
              rw [Run.exec_bind_of_ok computed]
              exact .compound first fetched applied
  | unary op operand ih =>
      rw [toExpr, Expr.eval]
      refine Run.bind_rule (ih v) (fun _ _ => .unaryError) fun value v' first => ?_
      exact .unary first
  | binary op left right ihLeft ihRight =>
      rw [toExpr, Expr.eval]
      refine Run.bind_rule (ihLeft v) (fun _ _ => .binaryLeftError) fun a v₁ first => ?_
      cases decided : op.decides a with
      | true =>
          rw [if_pos rfl, discard_toExpr]
          change Evaluates store fetch _ v ((compute op a 0).exec v₁).1 ((compute op a 0).exec v₁).2
          rw [exec_compute]
          exact evaluates_of_decides decided first
      | false =>
          obtain ⟨notAnd, notOr⟩ := (decides_eq_false_iff op a).1 decided
          rw [if_neg (by decide)]
          refine Run.bind_rule (ihRight v₁) (fun _ _ => .binaryRightError notAnd notOr first)
            fun b v₂ second => ?_
          rw [exec_compute]
          exact .binary notAnd notOr first second
  | conditional condition taken other ihCondition ihTaken ihOther =>
      rw [toExpr, Expr.eval]
      refine Run.bind_rule (ihCondition v) (fun _ _ => .conditionalError) fun c v₁ first => ?_
      by_cases zero : c = 0
      · subst zero
        rw [if_neg (by decide), discard_toExpr]
        exact .conditionalFalse first (ihOther v₁)
      · have kept := exec_then_discard other (Prod.eta ((taken.toExpr.eval store read).exec v₁)).symm
        rw [if_pos (bne_iff_ne.2 zero), kept]
        exact .conditionalTrue zero first (ihTaken v₁)
  | comma first second ihFirst ihSecond =>
      rw [toExpr, Expr.eval]
      refine Run.bind_rule (ihFirst v) (fun _ _ => .commaError) fun a v₁ before => ?_
      exact .comma before (ihSecond v₁)

/-- **Evaluating the tree of a formula follows the rules.** -/
theorem exec_eval_toExpr_iff
    (h : ∀ name v o v', (read name).exec v = (o, v') ↔ fetch name v o v') (e : Formula)
    (v : σ) (o : Outcome) (v' : σ) :
    (e.toExpr.eval store read).exec v = (o, v') ↔ e.Evaluates store fetch v o v' := by
  constructor
  · intro ran
    have follows : e.Evaluates store fetch v _ _ :=
      evaluates_exec_eval (fun name v => (h name v _ _).1 rfl) e v
    rwa [ran] at follows
  · exact exec_eval_of_evaluates fun name v o v' => (h name v o v').2

end

end Formula

/-! ### Variables and texts -/

/-- What reading a variable does while there are levels left. -/
theorem exec_readAt_succ (store : Store σ) (levels : Nat) (name : Text) (v : σ) :
    (readAt store (levels + 1) name).exec v =
      match store.read name v with
      | (none, v') => (.ok 0, v')
      | (some text, v') =>
        if Text.trim text = [] then (.ok 0, v')
        else
          match Numeral.read? (Text.trim text) with
          | some n => (.ok n, v')
          | none => (evaluateWith store (readAt store levels) (Text.trim text)).exec v' := by
  rw [readAt, Run.exec_bind, Run.exec_total]
  rcases store.read name v with ⟨found, v'⟩
  dsimp only
  cases found with
  | none => rfl
  | some text =>
      rw [Option.getD_some]
      dsimp only
      by_cases blank : Text.trim text = []
      · rw [blank, if_pos rfl]
        rfl
      · have nonempty : (Text.trim text).isEmpty = false := List.isEmpty_eq_false_iff.2 blank
        rw [nonempty, if_neg (by decide), if_neg blank]
        cases Numeral.read? (Text.trim text) <;> rfl

/-- **Reading a variable follows its rules**, at every depth. -/
theorem exec_readAt_iff (store : Store σ) (depth : Nat) (name : Text) (v : σ)
    (o : Outcome) (v' : σ) :
    (readAt store (maxLevels - depth) name).exec v = (o, v') ↔
      Fetches store depth name v o v' := by
  by_cases deep : 16 ≤ depth
  · have none : maxLevels - depth = 0 := Nat.sub_eq_zero_of_le deep
    rw [none]
    constructor
    · intro ran
      obtain ⟨rfl, rfl⟩ := Prod.mk.inj ran
      exact .tooDeep deep
    · intro fetched
      cases fetched with
      | tooDeep => rfl
      | _ => omega
  · -- one level is used up here, and the value is evaluated with the others
    have shallow : depth < 16 := Nat.lt_of_not_le deep
    have some : maxLevels - depth = maxLevels - (depth + 1) + 1 := by
      unfold maxLevels
      omega
    rw [some, exec_readAt_succ]
    constructor
    · intro ran
      rcases value : store.read name v with ⟨none | text, v₁⟩
      · rw [value] at ran
        obtain ⟨rfl, rfl⟩ := Prod.mk.inj ran
        exact .unset shallow value
      · rw [value] at ran
        dsimp only at ran
        split at ran
        · next blank =>
          obtain ⟨rfl, rfl⟩ := Prod.mk.inj ran
          exact .blank shallow value blank
        · next nonblank =>
          split at ran
          · next literal =>
            obtain ⟨rfl, rfl⟩ := Prod.mk.inj ran
            exact .literal shallow value nonblank literal
          · next notLiteral => exact .expression shallow value nonblank notLiteral ran
    · intro fetched
      cases fetched with
      | tooDeep deep' => omega
      | unset _ value => rw [value]
      | blank _ value blank =>
          rw [value]
          exact if_pos blank
      | literal _ value nonblank literal =>
          rw [value]
          dsimp only
          rw [if_neg nonblank, literal]
      | expression _ value nonblank notLiteral ran =>
          rw [value]
          dsimp only
          rw [if_neg nonblank, notLiteral]
          exact ran

/-- The text of a formula is evaluated as its tree. -/
theorem evaluateWith_print (store : Store σ) (read : Text → Eval σ Int64) (e : Formula) :
    evaluateWith store read e.print = e.toExpr.eval store read := by
  obtain ⟨tokens, lexed, same⟩ := e.tokens_print
  rw [evaluateWith, lexed]
  dsimp only
  rw [e.parse_tokens same]

/-- **The evaluator does what the rules say.**  The text of a formula, evaluated at any depth of variables
and with any values in them, has the outcome and leaves the state that the rules derive for the formula,
and no others. -/
theorem evaluate_print_iff_evaluates (store : Store σ) :
    evaluate store = evaluateAt store 0 ∧
    ∀ (depth : Nat) (e : Formula) (v : σ) (o : Outcome) (v' : σ),
      (evaluateAt store depth e.print).exec v = (o, v') ↔
        e.Evaluates store (Fetches store depth) v o v' := by
  refine ⟨rfl, fun depth e v o v' => ?_⟩
  rw [evaluateAt, evaluateWith_print]
  exact e.exec_eval_toExpr_iff (exec_readAt_iff store depth) v o v'

end ShellWord.Arith
