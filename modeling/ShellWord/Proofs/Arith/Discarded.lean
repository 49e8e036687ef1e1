import ShellWord.Proofs.Arith.OnePass
import ShellWord.Proofs.Arith.Semantics
import ShellWord.Proofs.Parameter

/-!
# Operands that are left out

`&&`, `||` and `?:` leave operands out.  In one pass such an operand is read all the same, because its end has to be
found, and `discarded_inert` says that this is all that happens.  Whatever the production and wherever it begins, in
an operand that is left out it leaves the state and the counter as they were, and fails only where the
syntax is wrong.  It ends where it would end if it were evaluated.  And if the syntax is right, evaluating it can
only go wrong on account of a value: there is a division by zero or a negative exponent, or a variable cannot be
read.

Both runs are compared through the tree that the grammar makes of the tokens (`Nonterminal.follows`).  So what is
left are three facts on trees: the mistakes in a tree are mistakes of syntax (`legible_level`), a tree with a
mistake in it has no value (`mistake?_of_exec_eval`), and an error of a tree without mistakes is an error of a value
(`stops_of_exec_eval`).
-/

namespace ShellWord.Arith

variable {σ : Type}

/-- An operand or a symbol is missing. -/
def Error.isSyntax : Error → Bool
  | .operandMissing => true
  | .operandExpected _ => true
  | .symbolExpected _ _ => true
  | _ => false

/-! ### The productions -/

/-- The productions of the grammar; of the levels of binary operators, so many from the tightest on. -/
inductive Nonterminal where
  | comma
  | assignment
  | conditional
  | binary (levels : Nat)
  | power
  | unary
  | primary
  deriving DecidableEq, Repr

namespace Nonterminal

/-- The level of the grammar, with parentheses and conditionals nested at most so deep inside. -/
def level (depth : Nat) : Nonterminal → Level
  | .comma => commas (Arith.assignment (conditionalAt (depth + 1)))
  | .assignment => Arith.assignment (conditionalAt (depth + 1))
  | .conditional => conditionalAt (depth + 1)
  | .binary levels =>
    (binaryLevels.take levels).foldl (fun operand ops => leftAssoc ops operand)
      (powers (Arith.unary (commas (Arith.assignment (conditionalAt depth)))))
  | .power => powers (Arith.unary (commas (Arith.assignment (conditionalAt depth))))
  | .unary => Arith.unary (commas (Arith.assignment (conditionalAt depth)))
  | .primary => Arith.primary (commas (Arith.assignment (conditionalAt depth)))

/-- The production that does the same in one pass. -/
def production (store : Store σ) (read : Text → Eval σ Int64) (depth : Nat) : Nonterminal → Production σ
  | .comma => OnePass.commas (OnePass.assignment store read (OnePass.conditionalAt store read (depth + 1)))
  | .assignment => OnePass.assignment store read (OnePass.conditionalAt store read (depth + 1))
  | .conditional => OnePass.conditionalAt store read (depth + 1)
  | .binary levels =>
    OnePass.binary store read (binaryLevels.take levels)
      (OnePass.commas (OnePass.assignment store read (OnePass.conditionalAt store read depth)))
  | .power =>
    OnePass.powers (OnePass.unary store read
      (OnePass.commas (OnePass.assignment store read (OnePass.conditionalAt store read depth))))
  | .unary => OnePass.unary store read (OnePass.commas (OnePass.assignment store read (OnePass.conditionalAt store read depth)))
  | .primary => OnePass.primary store read (OnePass.commas (OnePass.assignment store read (OnePass.conditionalAt store read depth)))

theorem follows (store : Store σ) (read : Text → Eval σ Int64) (depth : Nat) (p : Nonterminal) :
    OnePass.Follows store read (p.production store read depth) (p.level depth) := by
  have outer := OnePass.follows_conditionalAt store read (depth + 1)
  have inner := OnePass.follows_commas (OnePass.follows_assignment (OnePass.follows_conditionalAt store read depth))
  cases p with
  | comma => exact OnePass.follows_commas (OnePass.follows_assignment outer)
  | assignment => exact OnePass.follows_assignment outer
  | conditional => exact outer
  | binary levels => exact OnePass.follows_foldl (OnePass.follows_powers (OnePass.follows_unary inner)) _
  | power => exact OnePass.follows_powers (OnePass.follows_unary inner)
  | unary => exact OnePass.follows_unary inner
  | primary => exact OnePass.follows_primary inner

end Nonterminal

/-! ### Mistakes -/

/-- The first mistake in the tree, if there is one, is a mistake of syntax. -/
def Expr.Readable (e : Expr) : Prop :=
  ∀ error, e.mistake? = some error → error.isSyntax = true

/-- All trees that the level reads are such. -/
def Legible (level : Level) : Prop :=
  ∀ tokens, (level tokens).1.Readable

section

variable {inner operand item tighter : Level}

theorem readable_mistake {error : Error} (h : error.isSyntax = true) : (Expr.mistake error).Readable := by
  rintro other same
  obtain rfl := Option.some.inj same
  exact h

theorem Expr.Readable.binary {left right : Expr} (h : left.Readable) (h' : right.Readable) (op : BinaryOp) :
    (Expr.binary op left right).Readable := by
  intro error found
  rcases Option.or_eq_some_iff.1 found with found | ⟨-, found⟩
  · exact h error found
  · exact h' error found

theorem Expr.Readable.comma {first second : Expr} (h : first.Readable) (h' : second.Readable) :
    (Expr.comma first second).Readable :=
  h.binary h' .add

theorem Expr.Readable.conditional {condition taken other : Expr} (h : condition.Readable)
    (hTaken : taken.Readable) (hOther : other.Readable) : (Expr.conditional condition taken other).Readable :=
  (h.binary hTaken .add).binary hOther .add

theorem legible_primary (h : Legible inner) : Legible (primary inner) := by
  intro tokens
  unfold primary
  split
  · exact readable_mistake rfl
  · exact nofun
  · exact nofun
  · exact nofun
  · next rest =>
    have inside := h rest
    split
    · next found =>
      rw [found] at inside
      exact inside
    · next found =>
      rw [found] at inside
      exact inside.comma (readable_mistake rfl)
  · exact readable_mistake rfl

theorem legible_unary (h : Legible inner) : Legible (unary inner) := by
  intro tokens
  fun_induction unary inner tokens with
  | case1 => exact nofun
  | case2 => exact readable_mistake rfl
  | case3 _ _ _ _ _ _ _ found ih =>
      rw [found] at ih
      exact ih
  | case4 => exact legible_primary h _
  | case5 => exact legible_primary h _

theorem legible_powerAt (h : Legible operand) (n : Nat) : Legible (powerAt operand n) := by
  induction n with
  | zero => exact h
  | succ n ih =>
      intro tokens
      have base := h tokens
      unfold powerAt
      split
      · next found =>
        rw [found] at base
        exact base.binary (ih _) .pow
      · next found =>
        rw [found] at base
        exact base

theorem legible_chain (h : Legible operand) (ops : List BinaryOp) (n : Nat) {left : Expr}
    (before : left.Readable) : Legible (chain ops operand n left) := by
  induction n generalizing left with
  | zero => exact fun _ => before
  | succ n ih =>
      intro tokens
      unfold chain
      split
      · next op _ rest =>
        split
        · exact ih (before.binary (h rest) op) _
        · exact before
      · exact before

theorem legible_foldl (levels : List (List BinaryOp)) (h : Legible operand) :
    Legible (levels.foldl (fun operand ops => leftAssoc ops operand) operand) := by
  induction levels generalizing operand with
  | nil => exact h
  | cons ops levels ih => exact ih fun tokens => legible_chain h ops _ (h tokens) _

theorem legible_assignment (h : Legible tighter) : Legible (assignment tighter) := by
  intro tokens
  fun_induction assignment tighter tokens with
  | case1 name _ op _ rest value after found ih =>
      rw [found] at ih
      exact ih
  | case2 tokens => exact h tokens

theorem legible_commaChain (h : Legible item) (n : Nat) {first : Expr} (before : first.Readable) :
    Legible (commaChain item n first) := by
  induction n generalizing first with
  | zero => exact fun _ => before
  | succ n ih =>
      intro tokens
      unfold commaChain
      split
      · next rest => exact ih (before.comma (h rest)) _
      · exact before

theorem legible_commas (h : Legible item) : Legible (commas item) :=
  fun tokens => legible_commaChain h _ (h tokens) _

theorem legible_powers (h : Legible operand) : Legible (powers operand) :=
  fun tokens => legible_powerAt h _ tokens

theorem legible_conditional (h : Legible inner) : Legible (conditional inner) := by
  intro tokens
  have condition : Legible (binary (commas (assignment inner))) :=
    legible_foldl binaryLevels (legible_powers (legible_unary (legible_commas (legible_assignment h))))
  replace condition := condition tokens
  unfold conditional
  split
  · next rest found =>
    rw [found] at condition
    have taken := legible_assignment h rest
    split
    · next found' =>
      rw [found'] at taken
      exact condition.conditional taken (h _)
    · next found' =>
      rw [found'] at taken
      exact condition.conditional taken (readable_mistake rfl)
  · next found =>
    rw [found] at condition
    exact condition

theorem legible_conditionalAt (n : Nat) : Legible (conditionalAt n) := by
  induction n with
  | zero => exact fun _ => readable_mistake rfl
  | succ n ih => exact legible_conditional ih

/-- **Whatever a level reads, a mistake in it is a mistake of syntax.** -/
theorem Nonterminal.legible_level (p : Nonterminal) (depth : Nat) : Legible (p.level depth) := by
  have outer := legible_conditionalAt (depth + 1)
  have inner := legible_commas (legible_assignment (legible_conditionalAt depth))
  cases p with
  | comma => exact legible_commas (legible_assignment outer)
  | assignment => exact legible_assignment outer
  | conditional => exact outer
  | binary levels => exact legible_foldl _ (legible_powers (legible_unary inner))
  | power => exact legible_powers (legible_unary inner)
  | unary => exact legible_unary inner
  | primary => exact legible_primary inner

end

/-! ### Values -/

section

variable {store : Store σ} {read : Text → Eval σ Int64}

theorem mistake?_of_exec_discard {e : Expr} {v v' : σ} (h : (discard e).exec v = (.ok (), v')) :
    e.mistake? = none := by
  unfold discard at h
  cases mistake : e.mistake? with
  | none => rfl
  | some error =>
      rw [mistake] at h
      cases h

/-- **A tree that has a value has no mistake in it**, not even in what is left out. -/
theorem mistake?_of_exec_eval {e : Expr} {v v' : σ} {value : Int64}
    (h : (e.eval store read).exec v = (.ok value, v')) : e.mistake? = none := by
  induction e generalizing v v' value with
  | number _ => rfl
  | «variable» _ => rfl
  | step _ _ _ => rfl
  | assign name op e ih =>
      obtain ⟨_, _, first, -⟩ := Run.exec_bind_eq_ok_iff.1 h
      exact ih first
  | unary op e ih =>
      obtain ⟨_, _, first, -⟩ := Run.exec_bind_eq_ok_iff.1 h
      exact ih first
  | binary op left right ihLeft ihRight =>
      obtain ⟨a, v₁, first, h⟩ := Run.exec_bind_eq_ok_iff.1 h
      have second : right.mistake? = none := by
        split at h
        · obtain ⟨_, _, discarded, -⟩ := Run.exec_bind_eq_ok_iff.1 h
          exact mistake?_of_exec_discard discarded
        · obtain ⟨_, _, evaluated, -⟩ := Run.exec_bind_eq_ok_iff.1 h
          exact ihRight evaluated
      rw [Expr.mistake?, ihLeft first, second]
      rfl
  | conditional condition taken other ihCondition ihTaken ihOther =>
      obtain ⟨c, v₁, first, h⟩ := Run.exec_bind_eq_ok_iff.1 h
      have others : taken.mistake? = none ∧ other.mistake? = none := by
        split at h
        · obtain ⟨_, _, evaluated, h⟩ := Run.exec_bind_eq_ok_iff.1 h
          obtain ⟨_, _, discarded, -⟩ := Run.exec_bind_eq_ok_iff.1 h
          exact ⟨ihTaken evaluated, mistake?_of_exec_discard discarded⟩
        · obtain ⟨_, _, discarded, evaluated⟩ := Run.exec_bind_eq_ok_iff.1 h
          exact ⟨mistake?_of_exec_discard discarded, ihOther evaluated⟩
      rw [Expr.mistake?, ihCondition first, others.1, others.2]
      rfl
  | comma first second ihFirst ihSecond =>
      obtain ⟨_, _, evaluated, h⟩ := Run.exec_bind_eq_ok_iff.1 h
      rw [Expr.mistake?, ihFirst evaluated, ihSecond h]
      rfl
  | mistake error => cases h

/-- Evaluating the tree from the state `v` comes to reading `name` in the state `w`. -/
inductive Expr.ComesTo (store : Store σ) (read : Text → Eval σ Int64) : Expr → σ → Text → σ → Prop where
  | variable {name v} : ComesTo store read (.variable name) v name v
  | step {name up before v} : ComesTo store read (.step name up before) v name v
  | assigned {x op e v name w} : ComesTo store read e v name w → ComesTo store read (.assign x op e) v name w
  /-- the target of `x op= e` is read behind the right side -/
  | target {x op e v value w} : (e.eval store read).exec v = (.ok value, w) →
      ComesTo store read (.assign x (some op) e) v x w
  | operand {op e v name w} : ComesTo store read e v name w → ComesTo store read (.unary op e) v name w
  | left {op left right v name w} : ComesTo store read left v name w → ComesTo store read (.binary op left right) v name w
  | right {op left right v a v' name w} : (left.eval store read).exec v = (.ok a, v') → op.decides a = false →
      ComesTo store read right v' name w → ComesTo store read (.binary op left right) v name w
  | condition {condition taken other v name w} : ComesTo store read condition v name w →
      ComesTo store read (.conditional condition taken other) v name w
  | taken {condition taken other v c v' name w} : (condition.eval store read).exec v = (.ok c, v') → c ≠ 0 →
      ComesTo store read taken v' name w → ComesTo store read (.conditional condition taken other) v name w
  | other {condition taken other v v' name w} : (condition.eval store read).exec v = (.ok 0, v') →
      ComesTo store read other v' name w → ComesTo store read (.conditional condition taken other) v name w
  | first {first second v name w} : ComesTo store read first v name w → ComesTo store read (.comma first second) v name w
  | second {first second v a v' name w} : (first.eval store read).exec v = (.ok a, v') →
      ComesTo store read second v' name w → ComesTo store read (.comma first second) v name w

/-- Evaluation stops because of a value, and leaves the state `v'`. -/
def Expr.Stops (store : Store σ) (read : Text → Eval σ Int64) (e : Expr) (v : σ) (error : Error) (v' : σ) : Prop :=
  error = .divisionByZero ∨ error = .negativeExponent ∨
    ∃ name w, e.ComesTo store read v name w ∧ (read name).exec w = (.error error, v')

/-- An operator has no other errors than these two. -/
theorem eq_of_apply_eq_error {op : BinaryOp} {a b : Int64} {error : Error} (h : op.apply a b = .error error) :
    error = .divisionByZero ∨ error = .negativeExponent := by
  cases op with
  | div =>
      by_cases zero : (b == 0) = true
      · exact .inl (Except.error.inj (h.symm.trans (if_pos zero)))
      · cases h.symm.trans (if_neg zero)
  | mod =>
      by_cases zero : (b == 0) = true
      · exact .inl (Except.error.inj (h.symm.trans (if_pos zero)))
      · cases h.symm.trans (if_neg zero)
  | pow =>
      by_cases negative : b < 0
      · exact .inr (Except.error.inj (h.symm.trans (if_pos negative)))
      · cases h.symm.trans (if_neg negative)
  | _ => cases h

/-- An operand that stops stops the whole, if the whole comes to whatever the operand comes to. -/
theorem Expr.Stops.of_operand {e whole : Expr} {v v₁ v' : σ} {error : Error}
    (h : e.Stops store read v₁ error v')
    (comes : ∀ {name w}, e.ComesTo store read v₁ name w → whole.ComesTo store read v name w) :
    whole.Stops store read v error v' :=
  h.imp_right (.imp_right fun ⟨name, w, there, failed⟩ => ⟨name, w, comes there, failed⟩)

theorem stops_of_exec_compute {op : BinaryOp} {a b : Int64} {e : Expr} {v v₁ v' : σ} {error : Error}
    (h : (compute op a b).exec v₁ = (.error error, v')) : e.Stops store read v error v' := by
  rw [exec_compute] at h
  rcases eq_of_apply_eq_error (Prod.mk.inj h).1 with same | same
  · exact .inl same
  · exact .inr (.inl same)

/-- **A tree without mistakes stops only because of a value.** -/
theorem stops_of_exec_eval {e : Expr} (h : e.mistake? = none) {v v' : σ} {error : Error}
    (ran : (e.eval store read).exec v = (.error error, v')) : e.Stops store read v error v' := by
  -- in each case the operands in the order of evaluation; the first that fails stops the whole
  induction e generalizing v v' with
  | number _ => cases ran
  | «variable» name => exact .inr (.inr ⟨name, v, .variable, ran⟩)
  | step name up before =>
      rcases Run.exec_bind_eq_error_iff.1 ran with failed | ⟨old, v₁, -, ran⟩
      · exact .inr (.inr ⟨name, v, .step, failed⟩)
      · cases ran
  | assign name op e ih =>
      rcases Run.exec_bind_eq_error_iff.1 ran with failed | ⟨value, v₁, first, ran⟩
      · exact (ih h failed).of_operand .assigned
      · cases op with
        | none => cases ran
        | some op =>
            rcases Run.exec_bind_eq_error_iff.1 ran with failed | ⟨old, v₂, -, ran⟩
            · exact .inr (.inr ⟨name, v₁, .target first, failed⟩)
            · rcases Run.exec_bind_eq_error_iff.1 ran with failed | ⟨new, v₃, -, ran⟩
              · exact stops_of_exec_compute failed
              · cases ran
  | unary op e ih =>
      rcases Run.exec_bind_eq_error_iff.1 ran with failed | ⟨value, v₁, -, ran⟩
      · exact (ih h failed).of_operand .operand
      · cases ran
  | binary op left right ihLeft ihRight =>
      obtain ⟨noneLeft, noneRight⟩ := Option.or_eq_none_iff.1 h
      rcases Run.exec_bind_eq_error_iff.1 ran with failed | ⟨a, v₁, first, ran⟩
      · exact (ihLeft noneLeft failed).of_operand .left
      · cases decided : op.decides a with
        | true =>
            rw [decided, if_pos rfl, discard, noneRight] at ran
            exact stops_of_exec_compute ran
        | false =>
            rw [decided, if_neg Bool.false_ne_true] at ran
            rcases Run.exec_bind_eq_error_iff.1 ran with failed | ⟨b, v₂, -, ran⟩
            · exact (ihRight noneRight failed).of_operand (.right first decided)
            · exact stops_of_exec_compute ran
  | conditional condition taken other ihCondition ihTaken ihOther =>
      obtain ⟨noneFirst, noneOther⟩ := Option.or_eq_none_iff.1 h
      obtain ⟨noneCondition, noneTaken⟩ := Option.or_eq_none_iff.1 noneFirst
      rcases Run.exec_bind_eq_error_iff.1 ran with failed | ⟨c, v₁, first, ran⟩
      · exact (ihCondition noneCondition failed).of_operand .condition
      · by_cases zero : c = 0
        · subst zero
          rw [if_neg (by decide), discard, noneTaken] at ran
          exact (ihOther noneOther ran).of_operand (.other first)
        · rw [if_pos (bne_iff_ne.2 zero), discard, noneOther] at ran
          rcases Run.exec_bind_eq_error_iff.1 ran with failed | ⟨value, v₂, -, ran⟩
          · exact (ihTaken noneTaken failed).of_operand (.taken first zero)
          · cases ran
  | comma first second ihFirst ihSecond =>
      obtain ⟨noneFirst, noneSecond⟩ := Option.or_eq_none_iff.1 h
      rcases Run.exec_bind_eq_error_iff.1 ran with failed | ⟨a, v₁, before, ran⟩
      · exact (ihFirst noneFirst failed).of_operand .first
      · exact (ihSecond noneSecond ran).of_operand (.second before)
  | mistake error => cases h

end

/-! ### The two runs -/

section

variable {store : Store σ} {read : Text → Eval σ Int64} {x : Run (Situation σ) Error (Int64 × List Token)} {r : Expr × List Token}

/-- In an operand that is left out, nothing changes, and the outcome is that of discarding the tree. -/
theorem exec_of_skipped (h : OnePass.Agrees store read x r) {s : Situation σ} (skipped : 0 < s.skip) :
    (x.exec s).2 = s ∧ (x.exec s).1.map (·.2) = ((discard r.1).exec s.state).1.map fun _ => r.2 := by
  rcases h.skims.exec_cases skipped with ⟨error, mistake, ran⟩ | ⟨clean, a, same, ran⟩
  · rw [ran, discard, mistake]
    exact ⟨rfl, rfl⟩
  · rw [ran, discard, clean, ← same]
    exact ⟨rfl, rfl⟩

theorem isSyntax_of_skipped (h : OnePass.Agrees store read x r) (readable : r.1.Readable) {s : Situation σ}
    (skipped : 0 < s.skip) {error : Error} (failed : (x.exec s).1 = .error error) : error.isSyntax = true := by
  rcases h.skims.exec_cases skipped with ⟨first, mistake, ran⟩ | ⟨-, a, -, ran⟩
  · rw [ran] at failed
    obtain rfl := Except.error.inj failed
    exact readable first mistake
  · rw [ran] at failed
    cases failed

/-- Where there is a mistake, no operand that is left out is read to its end. -/
theorem mistake?_of_skipped (h : OnePass.Agrees store read x r) {s s' : Situation σ} (skipped : 0 < s.skip)
    {result : Int64 × List Token} (ran : x.exec s = (.ok result, s')) : r.1.mistake? = none := by
  rcases h.skims.exec_cases skipped with ⟨error, -, failed⟩ | ⟨clean, -⟩
  · rw [failed] at ran
    cases ran
  · exact clean

/-- What can be evaluated can be left out, and ends at the same place. -/
theorem exec_skipped_of_evaluated (h : OnePass.Agrees store read x r) {state : σ} {s' : Situation σ}
    {value : Int64} {after : List Token} (ran : x.exec ⟨state, 0⟩ = (.ok (value, after), s')) {s : Situation σ}
    (skipped : 0 < s.skip) : ∃ value', x.exec s = (.ok (value', after), s) := by
  obtain rfl : after = r.2 := h.endsAt _ _ _ ran
  rw [h.evals state] at ran
  rcases evaluated : (r.1.eval store read).exec state with ⟨error | value, state'⟩
  · rw [evaluated] at ran
    cases ran
  · rcases h.skims.exec_cases skipped with ⟨error, mistake, -⟩ | ⟨-, ⟨value', after⟩, rfl, ran⟩
    · rw [mistake?_of_exec_eval evaluated] at mistake
      cases mistake
    · exact ⟨value', ran⟩

/-- What can be left out can be evaluated and ends at the same place, unless a value stops it. -/
theorem exec_evaluated_of_skipped (h : OnePass.Agrees store read x r) {s s' : Situation σ} (skipped : 0 < s.skip)
    {value : Int64} {after : List Token} (ran : x.exec s = (.ok (value, after), s')) (state : σ) :
    (∃ value' state', x.exec ⟨state, 0⟩ = (.ok (value', after), ⟨state', 0⟩)) ∨
      ∃ error state', x.exec ⟨state, 0⟩ = (.error error, ⟨state', 0⟩) ∧ r.1.Stops store read state error state' := by
  obtain rfl : after = r.2 := h.endsAt _ _ _ ran
  have clean := mistake?_of_skipped h skipped ran
  have evals := h.evals state
  rcases evaluated : (r.1.eval store read).exec state with ⟨error | value', state'⟩
  · rw [evaluated] at evals
    exact .inr ⟨error, state', evals, stops_of_exec_eval clean evaluated⟩
  · rw [evaluated] at evals
    exact .inl ⟨value', state', evals⟩

end

/-- Run a production at tokens that were met so many variables deep. -/
def Nonterminal.run (store : Store σ) (depth nesting : Nat) (p : Nonterminal)
    (tokens : List Token) (s : Situation σ) : Except Error (Int64 × List Token) × Situation σ :=
  (p.production store (readAt store (maxLevels - depth)) nesting tokens).exec s

/-- **Operands that are left out are inert.**  Evaluating a text is one pass over it, so many variables deep.  In
such a pass, at any tokens and in any state of the variables:

* outside of operands that are left out, a production does what evaluating its tree does, and the counter is
  zero again at its end;
* inside, its outcome is that of discarding the tree;
* inside, it leaves state and counter as they were, and its errors are errors of syntax;
* if it ends at some tokens outside, it ends there inside;
* if it ends at some tokens inside, then outside it ends there as well, or it is stopped by a division by zero, by a
  negative exponent, or by an error in reading a variable that evaluation comes to. -/
theorem discarded_inert (store : Store σ) (depth : Nat) :
    (∀ t, evaluateAt store depth t =
      Run.within (fun state => ⟨state, 0⟩) (fun s _ => s.state) id
        (OnePass.whole store (readAt store (maxLevels - depth)) t)) ∧
    (∀ tokens, expression tokens = Nonterminal.comma.level tokens.length tokens) ∧
    ∀ (p : Nonterminal) (nesting : Nat) (tokens : List Token),
      (∀ state, p.run store depth nesting tokens ⟨state, 0⟩ =
        ((((p.level nesting tokens).1.eval store (readAt store (maxLevels - depth))).exec state).1.map
            (·, (p.level nesting tokens).2),
          ⟨(((p.level nesting tokens).1.eval store (readAt store (maxLevels - depth))).exec state).2, 0⟩)) ∧
      (∀ s, 0 < s.skip →
        (p.run store depth nesting tokens s).1.map (·.2) =
          ((discard (p.level nesting tokens).1).exec s.state).1.map fun _ => (p.level nesting tokens).2) ∧
      (∀ s, 0 < s.skip →
        (p.run store depth nesting tokens s).2 = s ∧
          ∀ error, (p.run store depth nesting tokens s).1 = .error error → error.isSyntax = true) ∧
      (∀ state value after s',
        p.run store depth nesting tokens ⟨state, 0⟩ = (.ok (value, after), s') →
        ∀ s, 0 < s.skip → ∃ value', p.run store depth nesting tokens s = (.ok (value', after), s)) ∧
      (∀ s value after s', 0 < s.skip →
        p.run store depth nesting tokens s = (.ok (value, after), s') →
        ∀ state,
          (∃ value' state', p.run store depth nesting tokens ⟨state, 0⟩ = (.ok (value', after), ⟨state', 0⟩)) ∨
          ∃ error state', p.run store depth nesting tokens ⟨state, 0⟩ = (.error error, ⟨state', 0⟩) ∧
            (error = .divisionByZero ∨ error = .negativeExponent ∨
              ∃ name w,
                (p.level nesting tokens).1.ComesTo store (readAt store (maxLevels - depth)) state name w ∧
                Fetches store depth name w (.error error) state')) := by
  refine ⟨fun t => OnePass.evaluateWith_eq_onePass _ _ t, fun tokens => rfl, fun p nesting tokens => ?_⟩
  have agrees := p.follows store (readAt store (maxLevels - depth)) nesting tokens
  have readable := p.legible_level nesting tokens
  refine ⟨agrees.evals, fun s skipped => (exec_of_skipped agrees skipped).2, fun s skipped => ?_, ?_, ?_⟩
  · exact ⟨(exec_of_skipped agrees skipped).1, fun error => isSyntax_of_skipped agrees readable skipped⟩
  · intro state value after s' ran s skipped
    exact exec_skipped_of_evaluated agrees ran skipped
  · intro s value after s' skipped ran state
    rcases exec_evaluated_of_skipped agrees skipped ran state with ended | ⟨error, state', failed, stops⟩
    · exact .inl ended
    · refine .inr ⟨error, state', failed, ?_⟩
      rcases stops with zero | negative | ⟨name, w, comes, failed⟩
      · exact .inl zero
      · exact .inr (.inl negative)
      · exact .inr (.inr ⟨name, w, comes, (exec_readAt_iff store depth name w _ _).1 failed⟩)

/-- The tokens of `x++ / y)`. -/
def steppedTokens : List Token :=
  [⟨.name ['x'], []⟩, ⟨.step true, []⟩, ⟨.binary .div, []⟩, ⟨.name ['y'], []⟩, ⟨.closeParen, []⟩]

/-- The statement for `x++ / y)`.  It can be evaluated where `y` is 1, so it can be left out, and ends at the
parenthesis.  Where `y` is not set, evaluating it fails, with `x` counted up already. -/
theorem discarded_inert_stepped :
    (∀ s : Situation (Session Unit), 0 < s.skip →
      ∃ value, Nonterminal.comma.run (Session.store Host.idle) 0 3 steppedTokens s =
        (.ok (value, [⟨.closeParen, []⟩]), s)) ∧
    ∃ error state,
      Nonterminal.comma.run (Session.store Host.idle) 0 3 steppedTokens ⟨.blank, 0⟩ = (.error error, ⟨state, 0⟩) ∧
      error = .divisionByZero ∧ state = .holding ['1'] := by
  obtain ⟨-, -, inert⟩ := discarded_inert (Session.store Host.idle) 0
  obtain ⟨-, -, -, ends, stops⟩ := inert .comma 3 steppedTokens
  have skipped := ends (Session.blank.onShell (Shell.define ['y'] ['1'])) 0 [⟨.closeParen, []⟩] _ rfl
  refine ⟨skipped, ?_⟩
  obtain ⟨value, ran⟩ := skipped ⟨.blank, 1⟩ Nat.one_pos
  rcases stops ⟨.blank, 1⟩ value [⟨.closeParen, []⟩] ⟨.blank, 1⟩ Nat.one_pos ran .blank with
    ⟨_, _, ended⟩ | ⟨error, state, failed, -⟩
  · cases ended
  · refine ⟨error, state, failed, ?_⟩
    cases failed
    exact ⟨rfl, rfl⟩

end ShellWord.Arith
