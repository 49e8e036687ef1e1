import Mathlib.Data.Fintype.Pigeonhole
import ShellWord.Proofs.Arith.ReadBack

/-!
# Variables that name variables

A variable may hold the name of another variable, which may hold a name again.  Reading the first one follows this
chain, through the tokens and the grammar at every link, until it comes to a number or to a variable that holds
nothing.  The chain is in the hands of the user, and it may lead back to itself.  So every link costs a level, and
there are `maxLevels` of them: the first variable takes one and each link another, which leaves fifteen links.

`variableAfter` follows the chain without any of that, one variable after the other, and `exec_readAt_of_variableAfter`
says that reading a variable with some levels is reading the variable behind so many links with as many levels less.
What happens at the end of the chain, or when the levels are used up, is then a matter of counting
(`integer_indirection`).

### What is load-bearing

A chain that never ends comes back to itself, since each of its variables is in the table: a variable that is not holds
nothing, or a number if it is one of those that change by themselves (`exists_get?_of_link`).  So the cases of the
theorem are all there are, but for values of another form.  For the same reason following a link changes nothing, and
only the last variable of a chain can be one that the world is asked for.
-/

namespace ShellWord.Arith

/-! ### Chains -/

section

variable (lookup : Text → Option Text)

/-- What a variable holds, without the blanks around it; nothing if it is unset. -/
def held (name : Text) : Text :=
  Text.trim ((lookup name).getD [])

/-- The number that a variable holds, which is zero if it holds nothing. -/
def numberIn? (name : Text) : Option Int64 :=
  if held lookup name = [] then some 0 else Numeral.read? (held lookup name)

/-- The variable behind so many links; a variable is linked to another one if it holds its name. -/
def variableAfter : (links : Nat) → Text → Option Text
  | 0, name => some name
  | links + 1, name =>
    if Text.isName (held lookup name) then variableAfter links (held lookup name) else none

/-- The number at the end of the chain, if that is behind so many links. -/
def chainEnd? (links : Nat) (name : Text) : Option Int64 :=
  (variableAfter lookup links name).bind (numberIn? lookup)

/-- The chain leads to a variable, and from there back to it. -/
def ComesBack (name : Text) : Prop :=
  ∃ before around y, variableAfter lookup before name = some y ∧ variableAfter lookup (around + 1) y = some y

/-- The chain leads to a value that is neither a number nor a name. -/
def Strays (name : Text) : Prop :=
  ∃ links y, variableAfter lookup links name = some y ∧ numberIn? lookup y = none ∧
    Text.isName (held lookup y) = false

end

section

variable {lookup : Text → Option Text} {x y : Text}

theorem variableAfter_succ_of_isName (h : Text.isName (held lookup x) = true) (links : Nat) :
    variableAfter lookup (links + 1) x = variableAfter lookup links (held lookup x) := by
  rw [variableAfter, if_pos h]

/-- Links are followed one after the other. -/
theorem variableAfter_add (m n : Nat) (x : Text) :
    variableAfter lookup (m + n) x = (variableAfter lookup m x).bind (variableAfter lookup n) := by
  induction m generalizing x with
  | zero => rw [Nat.zero_add, variableAfter, Option.bind_some]
  | succ m ih =>
      rw [Nat.add_right_comm, variableAfter, variableAfter, ih]
      split
      · rfl
      · rfl

theorem variableAfter_concat {links : Nat} (h : variableAfter lookup links x = some y)
    (linked : Text.isName (held lookup y) = true) :
    variableAfter lookup (links + 1) x = some (held lookup y) := by
  rw [variableAfter_add, h, Option.bind_some, variableAfter_succ_of_isName linked, variableAfter]

/-- On the way to a variable there are others. -/
theorem exists_variableAfter_of_le {m n : Nat} (h : variableAfter lookup n x = some y) (le : m ≤ n) :
    ∃ z, variableAfter lookup m x = some z := by
  rw [← Nat.add_sub_cancel' le, variableAfter_add] at h
  obtain ⟨z, reached, -⟩ := Option.bind_eq_some_iff.1 h
  exact ⟨z, reached⟩

theorem isName_of_variableAfter {links : Nat} (hx : Text.isName x = true)
    (h : variableAfter lookup links x = some y) : Text.isName y = true := by
  induction links generalizing x with
  | zero => exact Option.some.inj h ▸ hx
  | succ links ih =>
      rw [variableAfter] at h
      split at h
      · next linked => exact ih linked h
      · cases h

/-- Going round again and again leads as far as one likes. -/
theorem ComesBack.exists_variableAfter (h : ComesBack lookup x) (links : Nat) :
    ∃ z, variableAfter lookup links x = some z := by
  obtain ⟨before, around, y, reached, back⟩ := h
  have rounds (k : Nat) : variableAfter lookup (k * (around + 1)) y = some y := by
    induction k with
    | zero => rw [Nat.zero_mul, variableAfter]
    | succ k ih => rw [Nat.succ_mul, variableAfter_add, ih, Option.bind_some, back]
  have far : variableAfter lookup (before + links * (around + 1)) x = some y := by
    rw [variableAfter_add, reached, Option.bind_some, rounds]
  refine exists_variableAfter_of_le far ?_
  calc links ≤ links * (around + 1) := Nat.le_mul_of_pos_right links (Nat.succ_pos around)
    _ ≤ before + links * (around + 1) := Nat.le_add_left _ _

/-- A chain that goes on for ever comes back to one of its variables, if those that are linked to others are finitely
many. -/
theorem comesBack_of_forall (names : List Text)
    (finite : ∀ links y, variableAfter lookup links x = some y → Text.isName (held lookup y) = true → y ∈ names)
    (endless : ∀ links, ∃ y, variableAfter lookup links x = some y) : ComesBack lookup x := by
  choose walk reached using endless
  have linked (links : Nat) : walk links ∈ names := by
    refine finite links _ (reached links) ?_
    have next := reached (links + 1)
    rw [variableAfter_add, reached links, Option.bind_some, variableAfter] at next
    split at next
    · next name => exact name
    · cases next
  obtain ⟨i, j, different, same⟩ :=
    Finite.exists_ne_map_eq_of_infinite fun links => (⟨walk links, linked links⟩ : { name // name ∈ names })
  have repeats : walk i = walk j := congrArg Subtype.val same
  have back {i j : Nat} (later : i < j) (repeats : walk i = walk j) : ComesBack lookup x := by
    refine ⟨i, j - i - 1, walk i, reached i, ?_⟩
    have split : variableAfter lookup (i + (j - i)) x = _ := variableAfter_add i (j - i) x
    rw [Nat.add_sub_cancel' (Nat.le_of_lt later), reached i, reached j, Option.bind_some] at split
    rw [Nat.sub_add_cancel (Nat.sub_pos_of_lt later), ← split, repeats]
  rcases Nat.lt_or_gt_of_ne different with later | later
  · exact back later repeats
  · exact back later repeats.symm

/-- **How chains go**: they end with a number, come back, or lead to a value of another form. -/
theorem chain_cases (names : List Text)
    (finite : ∀ links y, variableAfter lookup links x = some y → Text.isName (held lookup y) = true → y ∈ names) :
    (∃ links value, chainEnd? lookup links x = some value) ∨ ComesBack lookup x ∨ Strays lookup x := by
  by_cases ends : ∃ links value, chainEnd? lookup links x = some value
  · exact .inl ends
  by_cases strays : Strays lookup x
  · exact .inr (.inr strays)
  refine .inr (.inl (comesBack_of_forall names finite fun links => ?_))
  induction links with
  | zero => exact ⟨x, rfl⟩
  | succ links ih =>
      obtain ⟨y, reached⟩ := ih
      refine ⟨held lookup y, variableAfter_concat reached ?_⟩
      by_contra other
      cases number : numberIn? lookup y with
      | some value => exact ends ⟨links, value, by rw [chainEnd?, reached, Option.bind_some, number]⟩
      | none => exact strays ⟨links, y, reached, number, Bool.eq_false_iff.2 other⟩

end

/-! ### Reading along a chain -/

/-- A decimal numeral is no name, with or without a sign. -/
theorem isName_trim_ofInt (i : Int) : Text.isName (Text.trim (Text.ofInt i)) = false := by
  rw [Text.trim_of_not_isBlank (isBlank_of_mem_ofInt i)]
  cases i with
  | ofNat n =>
      obtain ⟨c, rest, spelled⟩ := List.exists_cons_of_ne_nil (Text.ofNat_ne_nil n)
      have digit : Text.isDigit c = true := Text.isDigit_of_mem_ofNat n c (spelled ▸ List.mem_cons_self)
      have start : Text.isNameStart c = false := by
        by_contra other
        rw [isDigit_of_isNameStart (Bool.eq_true_of_not_eq_false other)] at digit
        cases digit
      rw [Text.ofInt, spelled, Text.isName_cons, start, Bool.false_and]
  | negSucc n => rfl

/-- A name is no numeral. -/
theorem read?_of_isName {name : Text} (h : Text.isName name = true) : Numeral.read? name = none := by
  cases name with
  | nil => cases h
  | cons c rest =>
      rw [Text.isName_cons, Bool.and_eq_true, List.all_eq_true] at h
      have digit : Text.isDigit c = false := isDigit_of_isNameStart h.1
      have zero : c ≠ '0' := by
        rintro rfl
        cases digit
      have noMark : Text.cutAt? (· == '#') (c :: rest) = none := by
        refine Numeral.cutAt?_eq_none fun d mem => beq_eq_false_iff_ne.2 ?_
        have inName : Text.isNameChar d = true := by
          rcases List.mem_cons.1 mem with rfl | mem
          · exact isNameChar_of_isNameStart h.1
          · exact h.2 d mem
        rintro rfl
        cases inName
      unfold Numeral.read?
      rw [noMark]
      dsimp only
      split
      · next same => exact absurd (List.cons.inj same).1 zero
      · next same => exact absurd (List.cons.inj same).1 zero
      · next same => exact absurd (List.cons.inj same).1 zero
      · rw [List.all_cons, digit]
        rfl

section

variable {σ : Type} {store : Store σ} {lookup : Text → Option Text} {x y : Text} {state after : σ}

/-- **One variable is read**: a number is its value, and nothing is zero. -/
theorem exec_readAt_of_number (sees : store.read y state = (lookup y, after)) {value : Int64}
    (h : numberIn? lookup y = some value) (levels : Nat) :
    (readAt store (levels + 1) y).exec state = (.ok value, after) := by
  rw [exec_readAt_succ, sees]
  unfold numberIn? held at h
  cases stored : lookup y with
  | none =>
      rw [stored] at h
      exact congrArg (fun value => (Except.ok value, after)) (Option.some.inj h)
  | some text =>
      rw [stored, Option.getD_some] at h
      dsimp only
      split at h
      · next nothing =>
        rw [if_pos nothing]
        exact congrArg (fun value => (Except.ok value, after)) (Option.some.inj h)
      · next something => rw [if_neg something, h]

/-- A variable that holds a name is read by reading the variable of that name, one level down. -/
theorem exec_readAt_of_link (sees : store.read x state = (lookup x, after))
    (h : Text.isName (held lookup x) = true) (levels : Nat) :
    (readAt store (levels + 1) x).exec state = (readAt store levels (held lookup x)).exec after := by
  rw [exec_readAt_succ, sees]
  unfold held at h ⊢
  cases stored : lookup x with
  | none =>
      rw [stored] at h
      cases h
  | some text =>
      rw [stored, Option.getD_some] at h
      have something : Text.trim text ≠ [] := by
        intro nothing
        rw [nothing] at h
        cases h
      dsimp only
      rw [if_neg something, read?_of_isName h, Option.getD_some, evaluateWith_name _ _ h]

end

/-! ### In a session -/

section

variable {World : Type} (host : Host World) (s : Session World) {x y : Text}

/-- A variable that holds a name is in the table. -/
theorem exists_get?_of_link (h : Text.isName y = true) (linked : Text.isName (held (s.lookup host) y) = true) :
    ∃ value, s.shell.vars.get? y = some value := by
  unfold held at linked
  rw [s.lookup_of_isName host h] at linked
  cases stored : s.shell.vars.get? y with
  | some value => exact ⟨value, rfl⟩
  | none =>
      rw [stored, Option.none_or] at linked
      cases dynamic : Dynamic.ofName? y with
      | none =>
          rw [dynamic] at linked
          cases linked
      | some which =>
          rw [dynamic, Option.map_some, Option.getD_some, isName_trim_ofInt] at linked
          cases linked

theorem mem_names_of_link (h : Text.isName y = true) (linked : Text.isName (held (s.lookup host) y) = true) :
    y ∈ s.shell.vars.names := by
  obtain ⟨value, stored⟩ := exists_get?_of_link host s h linked
  obtain ⟨before, after, split, -⟩ := List.lookup_eq_some_iff.1 stored
  rw [Variables.names, split]
  simp

/-- **Along the chain**, every link takes a level and changes nothing. -/
theorem exec_readAt_of_variableAfter (hx : Text.isName x = true) {links : Nat}
    (h : variableAfter (s.lookup host) links x = some y) (levels : Nat) :
    (readAt (Session.store host) (levels + links) x).exec s = (readAt (Session.store host) levels y).exec s := by
  induction links generalizing x with
  | zero =>
      obtain rfl := Option.some.inj h
      rfl
  | succ links ih =>
      rw [variableAfter] at h
      split at h
      · next linked =>
        obtain ⟨value, stored⟩ := exists_get?_of_link host s hx linked
        have sees : (Session.store host).read x s = (s.lookup host x, s) :=
          Prod.ext rfl (s.afterRead_of_get? host stored)
        rw [← Nat.add_assoc, exec_readAt_of_link sees linked, ih linked h]
      · cases h

/-- Evaluating a name is reading the variable behind some links with the levels that are left. -/
theorem exec_integer_of_variableAfter (hx : Text.isName x = true) (levels : Nat) {links : Nat}
    (reached : variableAfter (s.lookup host) links x = some y) (count : levels + links = maxLevels) :
    (integer host x).exec s = (readAt (Session.store host) levels y).exec s := by
  rw [integer, evaluate, evaluateWith_name _ _ hx, ← count, exec_readAt_of_variableAfter host s hx reached]

/-- **Sixteen links are too many.** -/
theorem exec_integer_of_sixteen (hx : Text.isName x = true)
    (h : ∃ y, variableAfter (s.lookup host) 16 x = some y) :
    ∃ y, variableAfter (s.lookup host) 16 x = some y ∧
      (integer host x).exec s = (.error (.recursionLevel y), s) := by
  obtain ⟨y, reached⟩ := h
  exact ⟨y, reached, exec_integer_of_variableAfter host s hx 0 reached rfl⟩

/-- **Names of variables are followed for fifteen links.**  From the variable `x`, follow the chain of variables each
of which holds the name of the next.  If it ends with a number after at most fifteen links, this number is the value of
the expression `x`, and nothing is changed, unless the world is asked for the last variable.  If it is longer, or if it
comes back to one of its variables, evaluation fails, with the name of the sixteenth variable behind `x`, and nothing is
changed at all.  And this is all that can happen, unless the chain leads to a value that is neither a number nor a
name. -/
theorem integer_indirection (hx : Text.isName x = true) :
    (∀ links value, chainEnd? (s.lookup host) links x = some value → links ≤ 15 →
      ∃ y, variableAfter (s.lookup host) links x = some y ∧
        (integer host x).exec s = (.ok value, s.afterRead host y) ∧
        (s.asked? y = none → (integer host x).exec s = (.ok value, s))) ∧
    (∀ links value, chainEnd? (s.lookup host) links x = some value → 15 < links →
      ∃ y, variableAfter (s.lookup host) 16 x = some y ∧
        (integer host x).exec s = (.error (.recursionLevel y), s)) ∧
    (ComesBack (s.lookup host) x →
      ∃ y, variableAfter (s.lookup host) 16 x = some y ∧
        (integer host x).exec s = (.error (.recursionLevel y), s)) ∧
    ((∃ links value, chainEnd? (s.lookup host) links x = some value) ∨ ComesBack (s.lookup host) x ∨
      Strays (s.lookup host) x) := by
  refine ⟨fun links value ends few => ?_, fun links value ends many => ?_, fun back => ?_, ?_⟩
  · obtain ⟨y, reached, number⟩ := Option.bind_eq_some_iff.1 ends
    have count : 15 - links + 1 + links = maxLevels := by
      rw [maxLevels]
      omega
    have ran : (integer host x).exec s = (.ok value, s.afterRead host y) := by
      rw [exec_integer_of_variableAfter host s hx _ reached count]
      exact exec_readAt_of_number rfl number _
    refine ⟨y, reached, ran, fun unasked => ?_⟩
    rw [ran, s.afterRead_of_asked?_none host unasked]
  · obtain ⟨y, reached, -⟩ := Option.bind_eq_some_iff.1 ends
    exact exec_integer_of_sixteen host s hx (exists_variableAfter_of_le reached many)
  · exact exec_integer_of_sixteen host s hx (back.exists_variableAfter 16)
  · exact chain_cases s.shell.vars.names fun links y reached linked =>
      mem_names_of_link host s (isName_of_variableAfter hx reached) linked

end

/-! ### A chain of every kind

The variables `a`, `aa`, `aaa` and so on are linked, and the one with sixteen letters holds a number.  The variable `b`
stands in front of them, and `c` and `d` name each other. -/

/-- The chains, with blanks around some of the names. -/
def chains : List (Text × Text) :=
  (List.range 15).map (fun i => (List.replicate (i + 1) 'a', ' ' :: List.replicate (i + 2) 'a')) ++
    [(List.replicate 16 'a', "0x10".toList), (['b'], ['a']), (['c'], ['d']), (['d'], ['c', ' '])]

/-- A session with these variables. -/
def chained : Session Unit :=
  Session.blank.onShell ({ · with vars := ⟨chains⟩ })

/-- The statement for these chains: fifteen links are followed, sixteen are not, and neither is a cycle. -/
theorem integer_indirection_chained :
    (integer Host.idle ['a']).exec chained = (.ok 16, chained) ∧
      (integer Host.idle ['b']).exec chained = (.error (.recursionLevel (List.replicate 16 'a')), chained) ∧
      (integer Host.idle ['c']).exec chained = (.error (.recursionLevel ['c']), chained) := by
  have fifteen : chainEnd? (chained.lookup Host.idle) 15 ['a'] = some 16 := by decide +kernel
  have sixteen : chainEnd? (chained.lookup Host.idle) 16 ['b'] = some 16 := by decide +kernel
  have last : variableAfter (chained.lookup Host.idle) 16 ['b'] = some (List.replicate 16 'a') := by decide +kernel
  have around : ComesBack (chained.lookup Host.idle) ['c'] := ⟨0, 1, ['c'], rfl, by decide +kernel⟩
  have again : variableAfter (chained.lookup Host.idle) 16 ['c'] = some ['c'] := by decide +kernel
  have kept : chained.asked? (List.replicate 16 'a') = none := by decide +kernel
  have sixteenth : variableAfter (chained.lookup Host.idle) 15 ['a'] = some (List.replicate 16 'a') := by
    decide +kernel
  obtain ⟨w, ended, -, ran⟩ := (integer_indirection Host.idle chained (x := ['a']) rfl).1 15 16 fifteen (by decide)
  obtain ⟨y, reached, tooLong⟩ := (integer_indirection Host.idle chained (x := ['b']) rfl).2.1 16 16 sixteen (by decide)
  obtain ⟨z, returned, endless⟩ := (integer_indirection Host.idle chained (x := ['c']) rfl).2.2.1 around
  obtain rfl := Option.some.inj (ended.symm.trans sixteenth)
  obtain rfl := Option.some.inj (reached.symm.trans last)
  obtain rfl := Option.some.inj (returned.symm.trans again)
  exact ⟨ran kept, tooLong, endless⟩

end ShellWord.Arith
