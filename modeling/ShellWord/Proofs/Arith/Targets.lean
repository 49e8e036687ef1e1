import ShellWord.Arith.Eval
import ShellWord.Proofs.Arith.Lexing
import ShellWord.Proofs.Run

/-!
# What arithmetic may read and set

Evaluating a text reads variables, and sets some, by assignments and by `++` and `--`.  Their names are names
that stand in the text; and since the value of a variable may be evaluated again, they are names that stand in
*some* text, which may come from anywhere.  All the same, what stands as a name in a text has the form of one.
So two evaluations of a text over different stores are alike in whatever way reading and setting variables
with proper names is (`Coupling.rel_evaluate`).  In particular, what is kept by these is kept by evaluating any
text at all, also when that fails (`evaluate_ensures`).

The names of an expression come from tokens.  Reading tokens is confined to a set of names
(`Confines`) if the names of the expression that is read, and the names among the tokens that are left,
are in the set whenever all names among the tokens were; every level of the grammar is, if the levels that
it is made of are.
-/

namespace ShellWord.Arith

/-! ### Names -/

/-- All names in the expression are in `P`. -/
def Expr.NamesIn (P : Text → Prop) : Expr → Prop
  | .number _ => True
  | .variable name => P name
  | .step name _ _ => P name
  | .assign name _ value => P name ∧ value.NamesIn P
  | .unary _ operand => operand.NamesIn P
  | .binary _ left right => left.NamesIn P ∧ right.NamesIn P
  | .conditional condition taken other =>
    condition.NamesIn P ∧ taken.NamesIn P ∧ other.NamesIn P
  | .comma first second => first.NamesIn P ∧ second.NamesIn P
  | .mistake _ => True

/-- All names among the tokens are in `P`. -/
def NamesIn (P : Text → Prop) (tokens : List Token) : Prop :=
  ∀ token ∈ tokens, ∀ name, token.symbol = .name name → P name

/-- An expression and the tokens after it keep to the names in `P`. -/
def Confined (P : Text → Prop) (read : Expr × List Token) : Prop :=
  read.1.NamesIn P ∧ NamesIn P read.2

/-- From tokens with names in `P`, a level reads what keeps to `P`. -/
def Confines (P : Text → Prop) (level : Level) : Prop :=
  ∀ ⦃tokens⦄, NamesIn P tokens → Confined P (level tokens)

section

variable {P : Text → Prop}

theorem namesIn_nil : NamesIn P [] :=
  nofun

theorem NamesIn.head {name text : Text} {rest : List Token}
    (h : NamesIn P (⟨.name name, text⟩ :: rest)) : P name :=
  h _ List.mem_cons_self name rfl

theorem NamesIn.tail {token : Token} {rest : List Token} (h : NamesIn P (token :: rest)) :
    NamesIn P rest :=
  fun other mem => h other (List.mem_cons_of_mem _ mem)

/-- After a mistake no tokens are left. -/
theorem confined_fail (error : Error) : Confined P (fail error) :=
  ⟨trivial, namesIn_nil⟩

/-! ### The levels of the grammar -/

section

variable {inner operand item tighter : Level}

theorem confines_primary (h : Confines P inner) : Confines P (primary inner) := by
  intro tokens names
  unfold primary
  split
  · exact confined_fail _
  · exact ⟨trivial, names.tail⟩
  · exact ⟨names.head, names.tail.tail⟩
  · exact ⟨names.head, names.tail⟩
  · have within := h names.tail
    split
    · next read =>
      rw [read] at within
      exact ⟨within.1, within.2.tail⟩
    · next read =>
      rw [read] at within
      exact ⟨⟨within.1, trivial⟩, namesIn_nil⟩
  · exact confined_fail _

theorem confines_unary (h : Confines P inner) : Confines P (unary inner) := by
  intro tokens names
  induction tokens with
  | nil => exact confines_primary h names
  | cons token rest ih =>
      unfold unary
      split
      · next same =>
        obtain ⟨rfl, rfl⟩ := List.cons.inj same
        split
        · exact ⟨names.tail.head, names.tail.tail⟩
        · exact confined_fail _
      · next same =>
        obtain ⟨rfl, rfl⟩ := List.cons.inj same
        split
        · exact ih names.tail
        · exact confines_primary h names
      · next same => cases same

theorem confines_powerAt (h : Confines P operand) (n : Nat) : Confines P (powerAt operand n) := by
  induction n with
  | zero => exact h
  | succ n ih =>
      intro tokens names
      have base := h names
      unfold powerAt
      split
      · next read =>
        rw [read] at base
        have exponent := ih base.2.tail
        exact ⟨⟨base.1, exponent.1⟩, exponent.2⟩
      · next read =>
        rw [read] at base
        exact base

theorem confines_chain (h : Confines P operand) (ops : List BinaryOp) (n : Nat) {left : Expr}
    (inLeft : left.NamesIn P) : Confines P (chain ops operand n left) := by
  induction n generalizing left with
  | zero =>
      intro tokens names
      exact ⟨inLeft, names⟩
  | succ n ih =>
      intro tokens names
      unfold chain
      split
      · next op _ rest =>
        split
        · have right := h names.tail
          have both : (Expr.binary op left (operand rest).1).NamesIn P := ⟨inLeft, right.1⟩
          exact ih both right.2
        · exact ⟨inLeft, names⟩
      · exact ⟨inLeft, names⟩

theorem confines_leftAssoc (ops : List BinaryOp) (h : Confines P operand) :
    Confines P (leftAssoc ops operand) := by
  intro tokens names
  have left := h names
  exact confines_chain h ops _ left.1 left.2

/-- A tower of levels, each over the one before. -/
theorem confines_foldl (levels : List (List BinaryOp)) (h : Confines P operand) :
    Confines P (levels.foldl (fun operand ops => leftAssoc ops operand) operand) := by
  induction levels generalizing operand with
  | nil => exact h
  | cons ops levels ih => exact ih (confines_leftAssoc ops h)

theorem confines_binary (h : Confines P inner) : Confines P (binary inner) :=
  confines_foldl binaryLevels fun _ names => confines_powerAt (confines_unary h) _ names

theorem confines_assignment (h : Confines P tighter) : Confines P (assignment tighter) := by
  intro tokens names
  fun_induction assignment tighter tokens with
  | case1 name _ op _ rest value after read ih =>
      have within := ih names.tail.tail
      rw [read] at within
      exact ⟨⟨names.head, within.1⟩, within.2⟩
  | case2 tokens => exact h names

theorem confines_commaChain (h : Confines P item) (n : Nat) {first : Expr}
    (inFirst : first.NamesIn P) : Confines P (commaChain item n first) := by
  induction n generalizing first with
  | zero =>
      intro tokens names
      exact ⟨inFirst, names⟩
  | succ n ih =>
      intro tokens names
      unfold commaChain
      split
      · next rest =>
        have second := h names.tail
        have both : (Expr.comma first (item rest).1).NamesIn P := ⟨inFirst, second.1⟩
        exact ih both second.2
      · exact ⟨inFirst, names⟩

theorem confines_commas (h : Confines P item) : Confines P (commas item) := by
  intro tokens names
  have first := h names
  exact confines_commaChain h _ first.1 first.2

theorem confines_conditional (h : Confines P inner) : Confines P (conditional inner) := by
  intro tokens names
  have condition := confines_binary (confines_commas (confines_assignment h)) names
  unfold conditional
  split
  · next read =>
    rw [read] at condition
    have taken := confines_assignment h condition.2.tail
    split
    · next readTaken =>
      rw [readTaken] at taken
      have other := h taken.2.tail
      exact ⟨⟨condition.1, taken.1, other.1⟩, other.2⟩
    · next readTaken =>
      rw [readTaken] at taken
      exact ⟨⟨condition.1, taken.1, trivial⟩, namesIn_nil⟩
  · next read =>
    rw [read] at condition
    exact condition

theorem confines_conditionalAt (depth : Nat) : Confines P (conditionalAt depth) := by
  induction depth with
  | zero => exact fun _ _ => confined_fail _
  | succ depth ih => exact confines_conditional ih

end

/-- **The names in an expression are names among its tokens.** -/
theorem namesIn_parse {tokens : List Token} (names : NamesIn P tokens) :
    (parse tokens).NamesIn P := by
  have whole := confines_commas (confines_assignment (confines_conditionalAt (tokens.length + 1))) names
  unfold parse
  split
  · trivial
  · split
    · next read =>
      rw [expression] at read
      rw [read] at whole
      exact whole.1
    · next read =>
      rw [expression] at read
      rw [read] at whole
      exact ⟨whole.1, trivial⟩

end

/-! ### The names of a text -/

/-- No operator is a name. -/
theorem isName_of_operator? {afterName : Bool} {t : Text} {symbol : Symbol} {more : Nat}
    (h : operator? afterName t = some (symbol, more)) : symbol.isName = false := by
  have table : ∀ entry ∈ operators, entry.2.isName = false := by decide
  have found : ∀ {symbol rest}, longest? t = some (symbol, rest) → symbol.isName = false := by
    intro symbol rest longest
    obtain ⟨entry, mem, begins⟩ := List.exists_of_findSome?_eq_some longest
    obtain ⟨_, -, same⟩ := Option.map_eq_some_iff.1 begins
    exact (Prod.mk.inj same).1 ▸ table entry mem
  unfold operator? at h
  split at h
  · split at h <;> cases h <;> rfl
  · next longest =>
    cases h
    exact found longest
  · cases h

/-- A name begins like one and goes on like one. -/
theorem isName_cons_takeWhile {c : Char} (start : Text.isNameStart c = true) (t : Text) :
    Text.isName (c :: t.takeWhile Text.isNameChar) = true := by
  rw [Text.isName_cons, start, Bool.true_and]
  exact List.all_takeWhile

/-- One more token, and names that are in `P` already. -/
theorem namesIn_of_map_cons {P : Text → Prop} {token : Token} {read : Except Error (List Token)}
    {tokens : List Token} (h : read.map (token :: ·) = .ok tokens)
    (own : ∀ name, token.symbol = .name name → P name)
    (others : ∀ {rest}, read = .ok rest → NamesIn P rest) : NamesIn P tokens := by
  cases read with
  | error error => cases h
  | ok rest =>
      cases h
      exact List.forall_mem_cons.2 ⟨own, others rfl⟩

/-- **The names among the tokens of a text have the form of a name.** -/
theorem namesIn_tokensAfter (afterName : Bool) (t : Text) {tokens : List Token}
    (h : tokensAfter afterName t = .ok tokens) : NamesIn (Text.isName · = true) tokens := by
  fun_induction tokensAfter afterName t generalizing tokens
  case case1 =>
    cases h
    exact namesIn_nil
  case case2 ih => exact ih h
  case case3 ih => exact ih h
  case case4 ih => exact namesIn_of_map_cons h nofun ih
  case case5 => cases h
  case case6 c rest _ _ _ start _ ih =>
    refine namesIn_of_map_cons h ?_ ih
    intro name same
    obtain rfl := Symbol.name.inj same
    exact isName_cons_takeWhile start rest
  case case7 found ih =>
    refine namesIn_of_map_cons h ?_ ih
    rintro name rfl
    cases isName_of_operator? found
  case case8 => cases h

/-! ### Evaluation -/

/-- A relation between evaluations over two stores that respects everything they are made of.  Reading and
setting variables have to respect it for proper names. -/
structure Coupling {σ τ : Type} (store : Store σ) (store' : Store τ) where
  Rel {α : Type} : Eval σ α → Eval τ α → Prop
  pure {α : Type} (a : α) : Rel (pure a) (pure a)
  throw {α : Type} (error : Error) :
    Rel (MonadExcept.throw error : Eval σ α) (MonadExcept.throw error : Eval τ α)
  bind {α β : Type} {x : Eval σ α} {y : Eval τ α} {f : α → Eval σ β} {g : α → Eval τ β} :
    Rel x y → (∀ a, Rel (f a) (g a)) → Rel (x >>= f) (y >>= g)
  read {name : Text} : Text.isName name = true →
    Rel (Run.total (store.read name)) (Run.total (store'.read name))
  write {name : Text} : Text.isName name = true →
    ∀ value, Rel (modify (store.write name value)) (modify (store'.write name value))

namespace Coupling

variable {σ τ : Type} {store : Store σ} {store' : Store τ} (c : Coupling store store')

theorem rel_compute (op : BinaryOp) (a b : Int64) : c.Rel (compute op a b) (compute op a b) := by
  unfold compute
  split
  · exact c.pure _
  · exact c.throw _

theorem rel_discard (e : Expr) : c.Rel (discard e) (discard e) := by
  unfold discard
  split
  · exact c.throw _
  · exact c.pure _

theorem rel_eval {read : Text → Eval σ Int64} {read' : Text → Eval τ Int64}
    (onRead : ∀ {name}, Text.isName name = true → c.Rel (read name) (read' name)) {e : Expr}
    (names : e.NamesIn (Text.isName · = true)) : c.Rel (e.eval store read) (e.eval store' read') := by
  induction e with
  | number value => exact c.pure _
  | «variable» name => exact onRead names
  | step name up before =>
      exact c.bind (onRead names) fun old => c.bind (c.write names _) fun _ => c.pure _
  | assign name op value ih =>
      obtain ⟨isName, names⟩ := names
      refine c.bind (ih names) fun new => ?_
      cases op with
      | none => exact c.bind (c.write isName _) fun _ => c.pure _
      | some op =>
          refine c.bind (onRead isName) fun old => c.bind (c.rel_compute op old new) fun result => ?_
          exact c.bind (c.write isName _) fun _ => c.pure _
  | unary op operand ih => exact c.bind (ih names) fun _ => c.pure _
  | binary op left right ihLeft ihRight =>
      refine c.bind (ihLeft names.1) fun a => ?_
      split
      · exact c.bind (c.rel_discard right) fun _ => c.rel_compute op a 0
      · exact c.bind (ihRight names.2) fun b => c.rel_compute op a b
  | conditional condition taken other ihCondition ihTaken ihOther =>
      obtain ⟨inCondition, inTaken, inOther⟩ := names
      refine c.bind (ihCondition inCondition) fun d => ?_
      split
      · exact c.bind (ihTaken inTaken) fun value => c.bind (c.rel_discard other) fun _ => c.pure _
      · exact c.bind (c.rel_discard taken) fun _ => ihOther inOther
  | comma first second ihFirst ihSecond =>
      exact c.bind (ihFirst names.1) fun _ => ihSecond names.2
  | mistake error => exact c.throw error

theorem rel_evaluateWith {read : Text → Eval σ Int64} {read' : Text → Eval τ Int64}
    (onRead : ∀ {name}, Text.isName name = true → c.Rel (read name) (read' name)) (t : Text) :
    c.Rel (evaluateWith store read t) (evaluateWith store' read' t) := by
  unfold evaluateWith
  split
  · next cut => exact c.rel_eval onRead (namesIn_parse (namesIn_tokensAfter false t cut))
  · exact c.throw _

/-- The induction is on how deep variables may still refer to others. -/
theorem rel_readAt (levels : Nat) {name : Text} (isName : Text.isName name = true) :
    c.Rel (readAt store levels name) (readAt store' levels name) := by
  induction levels generalizing name with
  | zero => exact c.throw _
  | succ levels ih =>
      refine c.bind (c.read isName) fun found => ?_
      dsimp only
      split
      · exact c.pure _
      · split
        · exact c.pure _
        · exact c.rel_evaluateWith ih _

/-- **Evaluating a text reads and sets variables with proper names only**, so two evaluations are related as
soon as these steps are. -/
theorem rel_evaluate (t : Text) : c.Rel (evaluate store t) (evaluate store' t) :=
  c.rel_evaluateWith (c.rel_readAt maxLevels) t

end Coupling

section

variable {σ τ : Type} {store : Store σ} {store' : Store τ}

/-- What is kept by reading and setting variables with proper names is kept by evaluation.  Nothing is said
about the errors. -/
theorem evaluate_ensures {I : σ → Prop}
    (read : ∀ {name}, Text.isName name = true → ∀ s, I s → I (store.read name s).2)
    (write : ∀ {name}, Text.isName name = true → ∀ value s, I s → I (store.write name value s))
    (t : Text) : Run.Ensures I (fun _ => True) (evaluate store t) :=
  -- the second side plays no part
  let keeping : Coupling store store :=
    { Rel := fun x _ => Run.Ensures I (fun _ => True) x
      pure := fun a => .pure a
      throw := fun _ => .throw trivial
      bind := fun first rest => .bind first rest
      read := fun isName => .total fun s holds => read isName s holds
      write := fun isName value => .modify fun s holds => write isName value s holds }
  keeping.rel_evaluate t

/-- Where reading and setting variables with proper names is alike in two stores, evaluation is. -/
theorem evaluate_related {R : σ → τ → Prop}
    (read : ∀ {name}, Text.isName name = true → ∀ s t, R s t →
      (store.read name s).1 = (store'.read name t).1 ∧ R (store.read name s).2 (store'.read name t).2)
    (write : ∀ {name}, Text.isName name = true → ∀ value s t, R s t →
      R (store.write name value s) (store'.write name value t))
    (text : Text) : Run.Related R (evaluate store text) (evaluate store' text) :=
  let relating : Coupling store store' :=
    { Rel := fun x y => Run.Related R x y
      pure := fun a => .pure a
      throw := fun error => .throw error
      bind := fun first rest => .bind first rest
      read := fun isName => .total fun s t related => read isName s t related
      write := fun isName value => .modify fun s t related => write isName value s t related }
  relating.rel_evaluate text

end

end ShellWord.Arith
