import ShellWord.Proofs.Arith.Targets

/-!
# Evaluating while reading

Arithmetic is evaluated in two steps: the levels of the grammar make a tree of the tokens, and then the tree is
evaluated.  It can be done in one pass.  A production reads tokens and gives a value at once, and the tokens after
it.  It changes variables on the way, and since a value decides whether an operand counts, it counts in how many
operands that are left out it is (`Situation.skip`).  There it goes on reading, and does nothing else.

`evaluateWith_eq_onePass` says that the two are the same.  More than that, every production follows its level of
the grammar (`Follows`).  Outside of operands that are left out, it does what evaluating the tree does, ends
where the level ends and leaves the counter as it was.  Inside, it does what `discard` does with the tree.

### What is load-bearing

The two halves of `Agrees` have rules of the same form: one for each kind of tree, and each from what holds for its
operands.  A value that was computed in an operand that is left out means nothing, and the rules never say what it
is.  In the loops the tree grows at its left end, and so the rule for a loop (`agrees_chain`) is about the whole
computation up to there and not about one round.
-/

namespace ShellWord.Arith

/-- The state of a store, and how many of the operands around are left out. -/
structure Situation (σ : Type) where
  state : σ
  skip : Nat

/-- A production: from tokens to a value and the tokens after it. -/
abbrev Production (σ : Type) := List Token → Run (Situation σ) Error (Int64 × List Token)

variable {σ : Type}

namespace OnePass

/-! ### Productions -/

/-- Evaluate; in an operand that is left out, take a value for granted instead. -/
def unlessSkipped {α : Type} (value : α) (x : Eval σ α) : Run (Situation σ) Error α := do
  let s ← get
  if 0 < s.skip then
    return value
  else
    Run.within Situation.state (fun state s => { s with state := state }) id x

/-- Leave an operand out.  The counter is set back also after an error. -/
def leaveOut {α : Type} (x : Run (Situation σ) Error α) : Run (Situation σ) Error α :=
  Run.within (fun s => { s with skip := s.skip + 1 }) (fun t _ => { t with skip := t.skip - 1 }) id x

/-- An operand that may be left out. -/
def branch {α : Type} (left : Bool) (x : Run (Situation σ) Error α) : Run (Situation σ) Error α :=
  if left then leaveOut x else x

/-- Compute with an operator.  In an operand that is left out there are no errors. -/
def computing (op : BinaryOp) (a b : Int64) : Run (Situation σ) Error Int64 :=
  unlessSkipped ((op.apply a b).toOption.getD 0) (compute op a b)

/-- A symbol that has to follow. -/
def expect (symbol : Symbol) (c : Char) (tokens : List Token) : Run (Situation σ) Error (List Token) :=
  match tokens with
  | token :: rest =>
    if token.symbol = symbol then return rest else throw (.symbolExpected c (tokenText (token :: rest)))
  | [] => throw (.symbolExpected c [])

section

variable (store : Store σ) (read : Text → Eval σ Int64)

/-- Count a variable up or down; its old and its new value. -/
def steps (name : Text) (up : Bool) : Eval σ (Int64 × Int64) := do
  let old ← read name
  let new := if up then old + 1 else old - 1
  assign store name new
  return (old, new)

/-- Assign to a variable; its new value. -/
def assigns (name : Text) (op : Option BinaryOp) (value : Int64) : Eval σ Int64 := do
  match op with
  | none =>
    assign store name value
    return value
  | some op =>
    let old ← read name
    let new ← compute op old value
    assign store name new
    return new

/-- A number, a name, a name with `++` or `--` after it, or an expression in parentheses. -/
def primary (inner : Production σ) : Production σ
  | [] => throw .operandMissing
  | ⟨.number n, _⟩ :: rest => return (n, rest)
  | ⟨.name name, _⟩ :: ⟨.step up, _⟩ :: rest => do
    let (old, _) ← unlessSkipped (0, 0) (steps store read name up)
    return (old, rest)
  | ⟨.name name, _⟩ :: rest => do
    let value ← unlessSkipped 0 (read name)
    return (value, rest)
  | ⟨.openParen, _⟩ :: rest => do
    let (value, after) ← inner rest
    let after ← expect .closeParen ')' after
    return (value, after)
  | token :: rest => throw (.operandExpected (tokenText (token :: rest)))

/-- Operators in front of an operand. -/
def unary (inner : Production σ) : Production σ
  | ⟨.step up, _⟩ :: rest =>
    match rest with
    | ⟨.name name, _⟩ :: after => do
      let (_, new) ← unlessSkipped (0, 0) (steps store read name up)
      return (new, after)
    | after => throw (.operandExpected (tokenText after))
  | token :: rest =>
    match token.symbol.unary? with
    | some op => do
      let (value, after) ← unary inner rest
      return (op.apply value, after)
    | none => primary store read inner (token :: rest)
  | [] => primary store read inner []

/-- Powers, from right to left. -/
def powerAt (operand : Production σ) : Nat → Production σ
  | 0, tokens => operand tokens
  | n + 1, tokens => do
    let (base, rest) ← operand tokens
    match rest with
    | ⟨.binary .pow, _⟩ :: rest => do
      let (exponent, after) ← powerAt operand n rest
      let value ← computing .pow base exponent
      return (value, after)
    | rest => return (base, rest)

/-- Powers. -/
def powers (operand : Production σ) : Production σ := fun tokens =>
  powerAt operand tokens.length tokens

/-- More operands of one level.  The right operand is left out where the left one decides. -/
def chain (ops : List BinaryOp) (operand : Production σ) : Nat → Int64 → Production σ
  | 0, left, tokens => return (left, tokens)
  | n + 1, left, tokens =>
    match tokens with
    | ⟨.binary op, text⟩ :: rest =>
      if ops.contains op then do
        let (right, after) ← branch (op.decides left) (operand rest)
        let value ← computing op left right
        chain ops operand n value after
      else return (left, ⟨.binary op, text⟩ :: rest)
    | tokens => return (left, tokens)

/-- A level of left-associative operators. -/
def leftAssoc (ops : List BinaryOp) (operand : Production σ) : Production σ := fun tokens => do
  let (left, rest) ← operand tokens
  chain ops operand rest.length left rest

/-- The given levels of left-associative operators over the powers. -/
def binary (levels : List (List BinaryOp)) (inner : Production σ) : Production σ :=
  levels.foldl (fun operand ops => leftAssoc ops operand) (powers (unary store read inner))

/-- Assignments, from right to left, over a tighter production. -/
def assignment (tighter : Production σ) : Production σ
  | ⟨.name name, _⟩ :: ⟨.assign op, _⟩ :: rest => do
    let (value, after) ← assignment tighter rest
    let new ← unlessSkipped value (assigns store read name op value)
    return (new, after)
  | tokens => tighter tokens

/-- More expressions, each after a comma. -/
def commaChain (item : Production σ) : Nat → Int64 → Production σ
  | 0, first, tokens => return (first, tokens)
  | n + 1, first, tokens =>
    match tokens with
    | ⟨.comma, _⟩ :: rest => do
      let (second, after) ← item rest
      commaChain item n second after
    | tokens => return (first, tokens)

/-- Expressions separated by commas. -/
def commas (item : Production σ) : Production σ := fun tokens => do
  let (first, rest) ← item tokens
  commaChain item rest.length first rest

/-- A conditional: the condition decides which of the other two expressions is left out. -/
def conditional (inner : Production σ) : Production σ := fun tokens => do
  let (condition, rest) ← binary store read binaryLevels (commas (assignment store read inner)) tokens
  match rest with
  | ⟨.question, _⟩ :: rest => do
    let (taken, rest) ← branch (condition == 0) (assignment store read inner rest)
    let rest ← expect .colon ':' rest
    let (other, after) ← branch (condition != 0) (inner rest)
    return (if condition != 0 then taken else other, after)
  | rest => return (condition, rest)

/-- Conditionals in which parentheses and conditionals are nested at most so deep. -/
def conditionalAt : Nat → Production σ
  | 0 => fun _ => throw .operandMissing
  | n + 1 => conditional store read (conditionalAt n)

end

/-! ### Two ways to run -/

section

variable {α β γ δ : Type}

/-- Outside of operands that are left out, the computation does what `y` does with the state. -/
def Evals (x : Run (Situation σ) Error α) (y : Eval σ β) (result : β → α) : Prop :=
  ∀ state, x.exec ⟨state, 0⟩ = ((y.exec state).1.map result, ⟨(y.exec state).2, 0⟩)

/-- In operands that are left out, the computation changes nothing.  It fails with the mistake if there is one, and
otherwise gives something in `P`. -/
def Skims (x : Run (Situation σ) Error α) : Option Error → (α → Prop) → Prop
  | some error, _ => ∀ s, 0 < s.skip → x.exec s = (.error error, s)
  | none, P => ∀ s, 0 < s.skip → ∃ a, P a ∧ x.exec s = (.ok a, s)

theorem Evals.bind {x : Run (Situation σ) Error α} {y : Eval σ β} {result : β → α} (hx : Evals x y result)
    {f : α → Run (Situation σ) Error γ} {g : β → Eval σ δ} {result' : δ → γ}
    (hf : ∀ b, Evals (f (result b)) (g b) result') : Evals (x >>= f) (y >>= g) result' := by
  intro state
  rw [Run.exec_bind, Run.exec_bind, hx state]
  rcases y.exec state with ⟨error | b, state'⟩
  · rfl
  · exact hf b state'

/-- What can happen in an operand that is left out. -/
theorem Skims.exec_cases {x : Run (Situation σ) Error α} {m : Option Error} {P : α → Prop} (h : Skims x m P)
    {s : Situation σ} (skipped : 0 < s.skip) :
    (∃ error, m = some error ∧ x.exec s = (.error error, s)) ∨
      m = none ∧ ∃ a, P a ∧ x.exec s = (.ok a, s) := by
  cases m with
  | some error => exact .inl ⟨error, rfl, h s skipped⟩
  | none => exact .inr ⟨rfl, h s skipped⟩

theorem Skims.bind {x : Run (Situation σ) Error α} {m m' : Option Error} {P : α → Prop} (hx : Skims x m P)
    {f : α → Run (Situation σ) Error β} {Q : β → Prop} (hf : ∀ a, P a → Skims (f a) m' Q) :
    Skims (x >>= f) (m.or m') Q := by
  cases m with
  | some error => exact fun s skipped => Run.exec_bind_of_error (hx s skipped)
  | none =>
      cases m'
      all_goals
        intro s skipped
        obtain ⟨a, inside, ran⟩ := hx s skipped
        rw [Run.exec_bind_of_ok ran]
        exact hf a inside s skipped

/-- Behind a computation without mistakes nothing is added to those of the first one. -/
theorem Skims.followed {x : Run (Situation σ) Error α} {m : Option Error} {P : α → Prop} (hx : Skims x m P)
    {f : α → Run (Situation σ) Error β} {Q : β → Prop} (hf : ∀ a, P a → Skims (f a) none Q) :
    Skims (x >>= f) m Q := by
  have both := hx.bind hf
  rwa [Option.or_none] at both

theorem skims_pure {a : α} {P : α → Prop} (h : P a) :
    Skims (pure a : Run (Situation σ) Error α) none P :=
  fun _ _ => ⟨a, h, rfl⟩

/-- Running a computation on a part of the state, with its own errors. -/
theorem exec_within_id {σ τ : Type} (view : σ → τ) (update : τ → σ → σ) (x : Run τ Error α) (s : σ) :
    (Run.within view update id x : Run σ Error α).exec s =
      ((x.exec (view s)).1, update (x.exec (view s)).2 s) := by
  have ran := Run.exec_within view update id (fun _ => x) s
  refine ran.trans ?_
  cases (x.exec (view s)).1 <;> rfl

theorem evals_unlessSkipped (a : α) (y : Eval σ α) : Evals (unlessSkipped a y) y id := by
  intro state
  rw [unlessSkipped, Run.exec_bind_of_ok (Run.exec_get _), if_neg (Nat.lt_irrefl 0), exec_within_id]
  cases (y.exec state).1 <;> rfl

theorem skims_unlessSkipped (a : α) (y : Eval σ α) : Skims (unlessSkipped a y) none fun _ => True := by
  intro s skipped
  refine ⟨a, trivial, ?_⟩
  rw [unlessSkipped, Run.exec_bind_of_ok (Run.exec_get s), if_pos skipped]
  rfl

/-- An evaluation that gives a value at known tokens. -/
theorem evals_valued (a : α) (y : Eval σ α) (rest : List Token) :
    Evals (unlessSkipped a y >>= fun value => pure (value, rest)) y (·, rest) := by
  have evals : Evals (unlessSkipped a y >>= fun value => pure (value, rest)) (y >>= pure) (·, rest) :=
    (evals_unlessSkipped a y).bind fun value state => rfl
  rwa [bind_pure] at evals

theorem skims_valued (a : α) (y : Eval σ α) (rest : List Token) :
    Skims (unlessSkipped a y >>= fun value => pure (value, rest)) none (·.2 = rest) :=
  (skims_unlessSkipped a y).followed fun _ _ => skims_pure rfl

/-- A computation that changes nothing changes nothing one operand further in. -/
theorem exec_leaveOut_of_eq {x : Run (Situation σ) Error α} {s : Situation σ} {o : Except Error α}
    (h : x.exec { s with skip := s.skip + 1 } = (o, { s with skip := s.skip + 1 })) :
    (leaveOut x).exec s = (o, s) := by
  rw [leaveOut, exec_within_id, h]
  rfl

/-- Leaving an operand out is discarding its tree. -/
theorem Skims.evals_leaveOut_bind {x : Run (Situation σ) Error α} {e : Expr} {P : α → Prop}
    (hx : Skims x e.mistake? P) {f : α → Run (Situation σ) Error γ} {z : Eval σ δ} {result : δ → γ}
    (hf : ∀ a, P a → Evals (f a) z result) : Evals (leaveOut x >>= f) (discard e >>= fun _ => z) result := by
  intro state
  unfold discard
  rcases hx.exec_cases (s := ⟨state, 1⟩) Nat.one_pos with ⟨error, mistake, ran⟩ | ⟨clean, a, inside, ran⟩
  · rw [mistake]
    exact Run.exec_bind_of_error (exec_leaveOut_of_eq ran)
  · rw [clean, Run.exec_bind_of_ok (exec_leaveOut_of_eq ran), pure_bind]
    exact hf a inside state

theorem Skims.branch {x : Run (Situation σ) Error α} {m : Option Error} {P : α → Prop} (hx : Skims x m P)
    (left : Bool) : Skims (branch left x) m P := by
  cases left with
  | false => exact hx
  | true =>
      cases m with
      | some error => exact fun s _ => exec_leaveOut_of_eq (hx _ (Nat.succ_pos _))
      | none =>
          intro s _
          obtain ⟨a, inside, ran⟩ := hx { s with skip := s.skip + 1 } (Nat.succ_pos _)
          exact ⟨a, inside, exec_leaveOut_of_eq ran⟩

end

/-! ### Computations and trees -/

/-- The computation is for the tree `r.1` what two steps are, and ends at the tokens `r.2`. -/
structure Agrees (store : Store σ) (read : Text → Eval σ Int64) (x : Run (Situation σ) Error (Int64 × List Token))
    (r : Expr × List Token) : Prop where
  evals : Evals x (r.1.eval store read) (·, r.2)
  skims : Skims x r.1.mistake? (·.2 = r.2)

/-- The production does in one pass what reading a tree at this level and evaluating it does. -/
def Follows (store : Store σ) (read : Text → Eval σ Int64) (production : Production σ) (level : Level) : Prop :=
  ∀ tokens, Agrees store read (production tokens) (level tokens)

/-- Wherever the computation succeeds, it ends at these tokens. -/
def EndsAt (x : Run (Situation σ) Error (Int64 × List Token)) (rest : List Token) : Prop :=
  ∀ s r t, x.exec s = (.ok r, t) → r.2 = rest

section

variable {store : Store σ} {read : Text → Eval σ Int64} {x y z : Run (Situation σ) Error (Int64 × List Token)}
  {rest after : List Token}

theorem Agrees.endsAt {r : Expr × List Token} (h : Agrees store read x r) : EndsAt x r.2 := by
  rintro ⟨state, skip⟩ result t ran
  rcases Nat.eq_zero_or_pos skip with rfl | skipped
  · rw [h.evals state] at ran
    cases evaluated : ((r.1.eval store read).exec state).1 with
    | error error =>
        rw [evaluated] at ran
        cases ran
    | ok value =>
        rw [evaluated] at ran
        cases ran
        rfl
  · rcases h.skims.exec_cases (s := ⟨state, skip⟩) skipped with ⟨error, -, ran'⟩ | ⟨-, a, same, ran'⟩
    · rw [ran'] at ran
      cases ran
    · rw [ran'] at ran
      cases ran
      exact same

theorem EndsAt.branch (h : EndsAt x rest) (left : Bool) : EndsAt (branch left x) rest := by
  cases left with
  | false => exact h
  | true =>
      intro s r t ran
      replace ran : (leaveOut x).exec s = (.ok r, t) := ran
      rw [leaveOut, exec_within_id] at ran
      exact h _ r _ (Prod.ext (Prod.mk.inj ran).1 rfl)

/-- A mistake is a mistake also in an operand that is left out. -/
theorem branch_throw {α : Type} (left : Bool) (error : Error) :
    branch left (throw error : Run (Situation σ) Error α) = throw error := by
  cases left with
  | false => rfl
  | true =>
      apply Run.ext
      intro s
      exact exec_leaveOut_of_eq (Run.exec_throw error _)

/-- What follows only has to be known at the tokens where the computation ends. -/
theorem EndsAt.bind_congr {α : Type} (h : EndsAt x rest)
    {f g : Int64 × List Token → Run (Situation σ) Error α} (same : ∀ value, f (value, rest) = g (value, rest)) :
    x >>= f = x >>= g := by
  apply Run.ext
  intro s
  rw [Run.exec_bind, Run.exec_bind]
  rcases ran : x.exec s with ⟨error | ⟨value, tokens⟩, t⟩
  · rfl
  · obtain rfl : tokens = rest := h s _ t ran
    show (f (value, tokens)).exec t = (g (value, tokens)).exec t
    rw [same]

theorem Agrees.of_congr {r r' : Expr × List Token} (h : Agrees store read x r)
    {f g : Int64 × List Token → Run (Situation σ) Error (Int64 × List Token)} (h' : Agrees store read (x >>= g) r')
    (same : ∀ value, f (value, r.2) = g (value, r.2)) : Agrees store read (x >>= f) r' := by
  rwa [h.endsAt.bind_congr same]

/-- Nothing more is read. -/
theorem Agrees.stop {r : Expr × List Token} (h : Agrees store read x r)
    {f : Int64 × List Token → Run (Situation σ) Error (Int64 × List Token)}
    (same : ∀ value, f (value, r.2) = pure (value, r.2)) : Agrees store read (x >>= f) r := by
  rwa [h.endsAt.bind_congr same, bind_pure]

/-! ### A rule for each kind of tree -/

theorem Agrees.mistake (error : Error) : Agrees store read (throw error) (fail error) :=
  ⟨fun _ => rfl, fun _ _ => rfl⟩

theorem Agrees.number (n : Int64) : Agrees store read (pure (n, rest)) (.number n, rest) :=
  ⟨fun _ => rfl, skims_pure rfl⟩

/-- Symbols that add nothing to the tree. -/
theorem Agrees.passed {e : Expr} (h : Agrees store read x (e, rest)) :
    Agrees store read (x >>= fun r => pure (r.1, after)) (e, after) := by
  constructor
  · have evals : Evals (x >>= fun r => pure (r.1, after)) (e.eval store read >>= pure) (·, after) :=
      h.evals.bind fun value state => rfl
    rwa [bind_pure] at evals
  · exact h.skims.followed fun r _ => skims_pure rfl

theorem Agrees.variable (name : Text) :
    Agrees store read (unlessSkipped 0 (read name) >>= fun value => pure (value, rest)) (.variable name, rest) :=
  ⟨evals_valued _ _ _, skims_valued _ _ _⟩

theorem Agrees.step (name : Text) (up before : Bool) :
    Agrees store read
      (unlessSkipped (0, 0) (steps store read name up) >>= fun r => pure (if before then r.2 else r.1, rest))
      (.step name up before, rest) := by
  constructor
  · have same : Expr.eval store read (.step name up before) =
        steps store read name up >>= fun r => pure (if before then r.2 else r.1) := by
      simp only [Expr.eval, steps, bind_assoc, pure_bind]
    show Evals _ (Expr.eval store read (.step name up before)) _
    rw [same]
    exact (evals_unlessSkipped _ _).bind fun r state => rfl
  · exact (skims_unlessSkipped _ _).followed fun r _ => skims_pure rfl

theorem Agrees.unary {e : Expr} (h : Agrees store read x (e, rest)) (op : UnaryOp) :
    Agrees store read (x >>= fun r => pure (op.apply r.1, r.2)) (.unary op e, rest) := by
  constructor
  · exact h.evals.bind fun value state => rfl
  · exact h.skims.followed fun r same => skims_pure same

theorem Agrees.assign {e : Expr} (h : Agrees store read x (e, rest)) (name : Text) (op : Option BinaryOp) :
    Agrees store read
      (x >>= fun r => unlessSkipped r.1 (assigns store read name op r.1) >>= fun new => pure (new, r.2))
      (.assign name op e, rest) := by
  constructor
  · exact h.evals.bind fun value => evals_valued value (assigns store read name op value) rest
  · refine h.skims.followed fun r same => ?_
    rw [← same]
    exact skims_valued _ _ _

theorem Agrees.comma {first second : Expr} (h : Agrees store read x (first, rest))
    (h' : Agrees store read y (second, after)) : Agrees store read (x >>= fun _ => y) (.comma first second, after) := by
  constructor
  · exact h.evals.bind fun _ => h'.evals
  · exact h.skims.bind fun _ _ => h'.skims

/-- Where the left operand decides, the value of the right one does not matter. -/
theorem compute_of_decides {op : BinaryOp} {a : Int64} (h : op.decides a = true) (b : Int64) :
    (compute op a b : Eval σ Int64) = compute op a 0 := by
  unfold compute
  cases op with
  | and =>
      obtain rfl : a = 0 := beq_iff_eq.1 h
      rfl
  | or =>
      have nonzero : (a != 0) = true := h
      simp only [BinaryOp.apply, nonzero, Bool.true_or]
  | _ => cases h

theorem Agrees.binary {left right : Expr} (h : Agrees store read x (left, rest)) (op : BinaryOp)
    (h' : Agrees store read y (right, after)) :
    Agrees store read
      (x >>= fun a => OnePass.branch (op.decides a.1) y >>= fun b =>
        computing op a.1 b.1 >>= fun value => pure (value, b.2))
      (.binary op left right, after) := by
  constructor
  · refine h.evals.bind fun a => ?_
    cases decided : op.decides a with
    | true =>
        -- the right operand is read for its end only, and its value is not used
        rw [if_pos rfl]
        refine h'.skims.evals_leaveOut_bind fun b same => ?_
        rw [← compute_of_decides decided b.1, ← same]
        exact evals_valued _ _ _
    | false =>
        rw [if_neg Bool.false_ne_true]
        exact h'.evals.bind fun b => evals_valued _ _ _
  · refine h.skims.bind fun a _ => (h'.skims.branch _).followed fun b same => ?_
    rw [← same]
    exact skims_valued _ _ _

theorem Agrees.conditional {condition taken other : Expr} {between : List Token}
    (h : Agrees store read x (condition, rest)) (hTaken : Agrees store read y (taken, between))
    (hOther : Agrees store read z (other, after)) :
    Agrees store read
      (x >>= fun c => OnePass.branch (c.1 == 0) y >>= fun t => OnePass.branch (c.1 != 0) z >>= fun o =>
        pure (if c.1 != 0 then t.1 else o.1, o.2))
      (.conditional condition taken other, after) := by
  constructor
  · refine h.evals.bind fun c => ?_
    by_cases zero : c = 0
    · -- what comes before the colon is left out, and what comes behind it is the value
      subst zero
      refine hTaken.skims.evals_leaveOut_bind fun t _ => ?_
      show Evals (z >>= pure) _ _
      rw [bind_pure]
      exact hOther.evals
    · have nonzero : (c != 0) = true := bne_iff_ne.2 zero
      have notZero : (c == 0) = false := beq_eq_false_iff_ne.2 zero
      simp only [nonzero, notZero, if_true]
      refine hTaken.evals.bind fun value => hOther.skims.evals_leaveOut_bind fun o same => ?_
      rw [same]
      exact fun state => rfl
  · show Skims _ ((condition.mistake?.or taken.mistake?).or other.mistake?) _
    rw [Option.or_assoc]
    refine h.skims.bind fun c _ => (hTaken.skims.branch _).bind fun t _ => ?_
    exact (hOther.skims.branch _).followed fun o same => skims_pure same

end

/-! ### The levels of the grammar -/

section

variable {store : Store σ} {read : Text → Eval σ Int64}

theorem expect_of_eq (symbol : Symbol) (text : Text) (c : Char) (rest : List Token) :
    (expect symbol c (⟨symbol, text⟩ :: rest) : Run (Situation σ) Error (List Token)) = pure rest :=
  if_pos rfl

theorem expect_of_ne {symbol : Symbol} {tokens : List Token}
    (h : ∀ text rest, tokens ≠ ⟨symbol, text⟩ :: rest) (c : Char) :
    (expect symbol c tokens : Run (Situation σ) Error (List Token)) =
      throw (.symbolExpected c (tokenText tokens)) := by
  cases tokens with
  | nil => rfl
  | cons token rest =>
      refine if_neg ?_
      rintro rfl
      exact h token.text rest rfl

theorem follows_primary {inner : Production σ} {level : Level} (h : Follows store read inner level) :
    Follows store read (primary store read inner) (Arith.primary level) := by
  intro tokens
  unfold Arith.primary
  split
  · exact .mistake _
  · exact .number _
  · exact .step _ _ false
  · next notStep =>
    rw [primary]
    · exact .variable _
    · exact notStep
  · next rest =>
    have inside := h rest
    rw [primary]
    split
    · next found =>
      rw [found] at inside
      refine inside.of_congr inside.passed fun value => ?_
      exact congrArg (· >>= fun after => pure (value, after)) (expect_of_eq _ _ _ _)
    · next notClosed found =>
      rw [found] at inside
      refine inside.of_congr (inside.comma (.mistake _)) fun value => ?_
      exact congrArg (· >>= fun after => pure (value, after)) (expect_of_ne notClosed ')')
  · rw [primary]
    · exact .mistake _
    all_goals assumption

theorem follows_unary {inner : Production σ} {level : Level} (h : Follows store read inner level) :
    Follows store read (unary store read inner) (Arith.unary level) := by
  intro tokens
  induction tokens with
  | nil => exact follows_primary h []
  | cons token rest ih =>
      unfold Arith.unary
      split
      · next same =>
        obtain ⟨rfl, rfl⟩ := List.cons.inj same
        split
        · exact .step _ _ true
        · rw [unary]
          · exact .mistake _
          · assumption
      · next notStep same =>
        obtain ⟨rfl, rfl⟩ := List.cons.inj same
        rw [unary]
        · cases token.symbol.unary? with
          | some op => exact ih.unary op
          | none => exact follows_primary h _
        · exact notStep
      · next same => cases same

theorem follows_powerAt {operand : Production σ} {level : Level} (h : Follows store read operand level) (n : Nat) :
    Follows store read (powerAt operand n) (Arith.powerAt level n) := by
  induction n with
  | zero => exact h
  | succ n ih =>
      intro tokens
      have base := h tokens
      rw [powerAt, Arith.powerAt]
      split
      · next found =>
        rw [found] at base
        exact base.of_congr (base.binary .pow (ih _)) fun value => rfl
      · next notPower found =>
        rw [found] at base
        refine base.stop fun value => ?_
        dsimp only
        split
        · exact (notPower _ _ rfl).elim
        · rfl

theorem agrees_chain {operand : Production σ} {level : Level} (h : Follows store read operand level)
    (ops : List BinaryOp) (n : Nat) {x : Run (Situation σ) Error (Int64 × List Token)} {left : Expr}
    {rest : List Token} (before : Agrees store read x (left, rest)) :
    Agrees store read (x >>= fun r => chain ops operand n r.1 r.2) (Arith.chain ops level n left rest) := by
  induction n generalizing x left rest with
  | zero => exact before.stop fun value => rfl
  | succ n ih =>
      unfold Arith.chain
      split
      · next op text rest =>
        split
        · next mem =>
          -- the operand that is read next becomes part of the computation up to there
          have further := ih (before.binary op (h rest))
          simp only [bind_assoc, pure_bind] at further
          refine before.of_congr further fun value => ?_
          rw [chain, if_pos mem]
        · next mem =>
          refine before.stop fun value => ?_
          rw [chain, if_neg mem]
      · next notOp =>
        refine before.stop fun value => ?_
        rw [chain]
        exact notOp

theorem follows_leftAssoc {operand : Production σ} {level : Level} (h : Follows store read operand level)
    (ops : List BinaryOp) : Follows store read (leftAssoc ops operand) (Arith.leftAssoc ops level) := by
  intro tokens
  have first := h tokens
  exact first.of_congr (agrees_chain h ops (level tokens).2.length first) fun value => rfl

/-- A tower of levels, each over the one before. -/
theorem follows_foldl {operand : Production σ} {level : Level} (h : Follows store read operand level)
    (levels : List (List BinaryOp)) :
    Follows store read (levels.foldl (fun operand ops => leftAssoc ops operand) operand)
      (levels.foldl (fun level ops => Arith.leftAssoc ops level) level) := by
  induction levels generalizing operand level with
  | nil => exact h
  | cons ops levels ih => exact ih (follows_leftAssoc h ops)

theorem follows_powers {operand : Production σ} {level : Level} (h : Follows store read operand level) :
    Follows store read (powers operand) (Arith.powers level) :=
  fun tokens => follows_powerAt h tokens.length tokens

theorem follows_assignment {tighter : Production σ} {level : Level} (h : Follows store read tighter level) :
    Follows store read (assignment store read tighter) (Arith.assignment level) := by
  intro tokens
  fun_induction Arith.assignment level tokens with
  | case1 name _ op _ rest value after found ih =>
      rw [found] at ih
      exact ih.assign name op
  | case2 tokens notAssignment =>
      rw [assignment]
      · exact h tokens
      · exact notAssignment

theorem agrees_commaChain {item : Production σ} {level : Level} (h : Follows store read item level) (n : Nat)
    {x : Run (Situation σ) Error (Int64 × List Token)} {first : Expr} {rest : List Token}
    (before : Agrees store read x (first, rest)) :
    Agrees store read (x >>= fun r => commaChain item n r.1 r.2) (Arith.commaChain level n first rest) := by
  induction n generalizing x first rest with
  | zero => exact before.stop fun value => rfl
  | succ n ih =>
      unfold Arith.commaChain
      split
      · next rest =>
        have further := ih (before.comma (h rest))
        rw [bind_assoc] at further
        exact before.of_congr further fun value => rfl
      · next notComma =>
        refine before.stop fun value => ?_
        rw [commaChain]
        exact notComma

theorem follows_commas {item : Production σ} {level : Level} (h : Follows store read item level) :
    Follows store read (commas item) (Arith.commas level) := by
  intro tokens
  have first := h tokens
  exact first.of_congr (agrees_commaChain h (level tokens).2.length first) fun value => rfl

theorem follows_conditional {inner : Production σ} {level : Level} (h : Follows store read inner level) :
    Follows store read (conditional store read inner) (Arith.conditional level) := by
  intro tokens
  have first := follows_foldl (follows_powers (follows_unary (follows_commas (follows_assignment h))))
    binaryLevels tokens
  unfold Arith.conditional Arith.binary
  split
  · next rest found =>
    rw [found] at first
    have taken := follows_assignment h rest
    split
    · next after found' =>
      rw [found'] at taken
      refine first.of_congr (first.conditional taken (h after)) fun c => ?_
      refine (taken.endsAt.branch _).bind_congr fun value => ?_
      show (expect .colon ':' _ >>= _) = _
      rw [expect_of_eq, pure_bind]
    · next notColon found' =>
      rw [found'] at taken
      refine first.of_congr (first.conditional taken (.mistake _)) fun c => ?_
      refine (taken.endsAt.branch _).bind_congr fun value => ?_
      show (expect .colon ':' _ >>= _) = _
      rw [expect_of_ne notColon, branch_throw]
      rfl
  · next notQuestion found =>
    rw [found] at first
    refine first.stop fun value => ?_
    dsimp only
    split
    · exact (notQuestion _ _ rfl).elim
    · rfl

end

theorem follows_conditionalAt (store : Store σ) (read : Text → Eval σ Int64) (n : Nat) :
    Follows store read (conditionalAt store read n) (Arith.conditionalAt n) := by
  induction n with
  | zero => exact fun _ => .mistake _
  | succ n ih => exact follows_conditional ih

/-- A whole text: no tokens are zero, and tokens that are left over are a mistake. -/
def whole (store : Store σ) (read : Text → Eval σ Int64) (t : Text) : Run (Situation σ) Error Int64 :=
  match tokens t with
  | .error error => throw error
  | .ok [] => return 0
  | .ok tokens => do
    let (value, rest) ← commas (assignment store read (conditionalAt store read (tokens.length + 1))) tokens
    if rest.isEmpty then return value else throw (.trailing (tokenText rest))

theorem evals_whole (store : Store σ) (read : Text → Eval σ Int64) (t : Text) :
    Evals (whole store read t) (evaluateWith store read t) id := by
  unfold whole evaluateWith
  cases tokens t with
  | error error => exact fun state => rfl
  | ok tokens =>
      cases tokens with
      | nil => exact fun state => rfl
      | cons token tokens =>
          have agrees := follows_commas (follows_assignment
            (follows_conditionalAt store read ((token :: tokens).length + 1))) (token :: tokens)
          dsimp only
          rw [parse, List.isEmpty_cons, if_neg Bool.false_ne_true, expression]
          split
          · next e found =>
            rw [found] at agrees
            rw [agrees.endsAt.bind_congr (g := fun r => pure r.1) fun value => rfl, ← bind_pure (e.eval store read)]
            exact agrees.evals.bind fun value state => rfl
          · next e rest notEmpty found =>
            rw [found] at agrees
            have left : rest.isEmpty = false := List.isEmpty_eq_false_iff.2 notEmpty
            rw [agrees.endsAt.bind_congr (g := fun _ => throw (.trailing (tokenText rest))) fun value => by
              dsimp only
              rw [left, if_neg Bool.false_ne_true]]
            exact agrees.evals.bind fun value state => rfl

/-- **Evaluating in one pass is evaluating in two steps.** -/
theorem evaluateWith_eq_onePass (store : Store σ) (read : Text → Eval σ Int64) (t : Text) :
    evaluateWith store read t = Run.within (fun state => ⟨state, 0⟩) (fun s _ => s.state) id (whole store read t) := by
  apply Run.ext
  intro state
  rw [exec_within_id, evals_whole store read t state]
  rcases (evaluateWith store read t).exec state with ⟨error | value, after⟩ <;> rfl

end OnePass

end ShellWord.Arith
