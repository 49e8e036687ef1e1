import ShellWord.Proofs.Slice

/-!
# Slices of the positional parameters

`${@:offset:length}` selects from the list of `$0` and the positional parameters.  The offset counts from `$0`, or back
from the end of the list; the length only counts forward, and a negative one is an error wherever the slice begins.

`slicePositional?` computes with numbers without bound.  `Slice.positional` is the same on words of 64 bits, where the
number of parameters becomes a word with a sign, the start becomes one without, and the end is a sum that may
be too large.  Nothing of that goes wrong (`positional_eq`).  `slicePositional_partitions` says which parameters are
selected, and that a list is cut in two by the slices up to a place and from it on.

### What is load-bearing

The list is never empty, since `$0` is always there; so there is a place `-k` for every `k` from one up to the
number of parameters and one more, and the farthest of them is `$0`.
-/

namespace ShellWord

namespace Slice

/-! ### The computation on words -/

/-- A start is outside of a list of this size.  Only a start that is not negative is taken for a place. -/
def isOutside (size : Nat) (start : Int64) : Except Fault Bool :=
  if start < 0 then return true else return decide (size ≤ (← place start).toNat)

/-- The place where a slice of parameters ends. -/
def positionalStop (size : Int64) (start : UInt64) : Option Int64 → Except Fault UInt64
  | none => place size
  | some count => return min (addSaturating start (← place count)) (← place size)

/-- The positional parameters from `offset` on, computed on words. -/
def positional (shellName : Text) (params : List Text) (offset : Int64) (length : Option Int64) :
    Except Fault (Option (List Text)) := do
  let all := shellName :: params
  let size ← signed all.length
  let start ← origin size offset
  if ← isOutside all.length start then
    return if length.any (· < 0) then none else some []
  else if length.any (· < 0) then
    return none
  else
    let first ← place start
    return some (← cut all first (← positionalStop size first length))

/-! ### What is selected -/

/-- A length that counts backward. -/
def IsNegative (length : Option Int) : Prop :=
  ∃ count, length = some count ∧ count < 0

/-- The number of members to select where `left` of them are left. -/
def countWithin (left : Int) : Option Int → Int
  | none => left
  | some count => min count left

/-- The members of a list from `start` on, `count` of them. -/
def IsRun {α : Type} (l : List α) (start count : Int) (run : List α) : Prop :=
  ∃ before after, l = before ++ run ++ after ∧ (before.length : Int) = start ∧ (run.length : Int) = count

/-- The slice of a list that begins at an offset and has a length: no answer for a negative length, nothing outside of
the list, and otherwise the members from the start on, as many as there are or as the length says. -/
structure IsListSlice {α : Type} (l : List α) (offset : Int) (length : Option Int) (outcome : Option (List α)) :
    Prop where
  fails_iff : outcome = none ↔ IsNegative length
  outside : ∀ run, outcome = some run → ∀ start : Int, start = (if offset < 0 then l.length + offset else offset) →
    start < 0 ∨ l.length ≤ start → run = []
  inside : ∀ run, outcome = some run → ∀ start : Int, start = (if offset < 0 then l.length + offset else offset) →
    0 ≤ start → start < l.length → IsRun l start (countWithin (l.length - start) length) run

variable {shellName : Text} {params : List Text} {offset : Int} {length : Option Int}

theorem slicePositional?_eq_none_iff : slicePositional? shellName params offset length = none ↔ IsNegative length := by
  unfold slicePositional? IsNegative
  cases length <;> simp

theorem forward_of_slicePositional? {run : List Text}
    (found : slicePositional? shellName params offset length = some run) : ¬ IsNegative length := by
  intro negative
  rw [slicePositional?_eq_none_iff.2 negative] at found
  cases found

/-- Outside of the list, nothing is selected. -/
theorem slicePositional?_of_outside {start : Int} (starts : sliceStart (shellName :: params).length offset = start)
    (outside : start < 0 ∨ (shellName :: params).length ≤ start) (forward : ¬ IsNegative length) :
    slicePositional? shellName params offset length = some [] := by
  have nothing : ¬ inRange (shellName :: params).length start = true := by
    rw [inRange_iff]
    omega
  unfold slicePositional?
  dsimp only
  rw [starts, if_neg nothing]
  cases length with
  | none => rfl
  | some count =>
      dsimp only
      rw [if_neg fun negative => forward ⟨count, rfl, negative⟩, List.take_nil]

/-- Inside of the list, the members from the start on are selected, as many as there are or as the length says. -/
theorem slicePositional?_of_inside {i : Nat} (starts : sliceStart (shellName :: params).length offset = i)
    (inside : i < (shellName :: params).length) (forward : ¬ IsNegative length) :
    slicePositional? shellName params offset length =
      some (((shellName :: params).drop i).take (countWithin ((shellName :: params).length - i) length).toNat) := by
  have left : ((shellName :: params).drop i).length = (shellName :: params).length - i := List.length_drop
  unfold slicePositional?
  dsimp only
  rw [starts, if_pos (inRange_iff.2 ⟨by omega, by omega⟩), Int.toNat_natCast]
  cases length with
  | none =>
      dsimp only
      rw [countWithin, List.take_of_length_le (by omega)]
  | some count =>
      have nonneg : ¬ count < 0 := fun negative => forward ⟨count, rfl, negative⟩
      have bound : (min count ((shellName :: params).length - i)).toNat =
          min count.toNat ((shellName :: params).drop i).length := by omega
      dsimp only
      rw [if_neg nonneg, countWithin, bound, ← List.take_eq_take_min]

theorem countWithin_bounds {left : Int} (nonneg : 0 ≤ left) (forward : ¬ IsNegative length) :
    0 ≤ countWithin left length ∧ countWithin left length ≤ left := by
  cases length with
  | none => exact ⟨nonneg, Int.le_refl _⟩
  | some count =>
      have : ¬ count < 0 := fun negative => forward ⟨count, rfl, negative⟩
      rw [countWithin]
      omega

theorem isRun_take_drop {α : Type} {l : List α} {i n : Nat} (inside : i + n ≤ l.length) :
    IsRun l i n ((l.drop i).take n) := by
  refine ⟨l.take i, (l.drop i).drop n, ?_, ?_, ?_⟩
  · rw [List.append_assoc, List.take_append_drop, List.take_append_drop]
  · rw [List.length_take]
    omega
  · rw [List.length_take, List.length_drop]
    omega

theorem isListSlice_slicePositional? (shellName : Text) (params : List Text) (offset : Int) (length : Option Int) :
    IsListSlice (shellName :: params) offset length (slicePositional? shellName params offset length) where
  fails_iff := slicePositional?_eq_none_iff
  outside run found start starts out := by
    rw [slicePositional?_of_outside starts.symm out (forward_of_slicePositional? found)] at found
    exact (Option.some.inj found).symm
  inside run found start starts nonneg inside := by
    obtain ⟨i, rfl⟩ := Int.eq_ofNat_of_zero_le nonneg
    have forward := forward_of_slicePositional? found
    have bounds := countWithin_bounds (by omega : 0 ≤ ((shellName :: params).length : Int) - i) forward
    rw [slicePositional?_of_inside starts.symm (by omega) forward] at found
    obtain rfl := Option.some.inj found
    have run := isRun_take_drop (l := shellName :: params) (i := i)
      (n := (countWithin ((shellName :: params).length - i) length).toNat) (by omega)
    rwa [Int.toNat_of_nonneg bounds.1] at run

/-! ### No fault -/

theorem isOutside_eq (size : Nat) (start : Int64) :
    isOutside size start = .ok (decide (start.toInt < 0 ∨ size ≤ start.toInt)) := by
  rw [isOutside]
  by_cases negative : start.toInt < 0
  · rw [if_pos (Int64.lt_iff_toInt_lt.2 negative), decide_eq_true (.inl negative)]
    rfl
  · obtain ⟨placed, value⟩ := place_eq (Int.not_lt.1 negative)
    rw [if_neg (mt Int64.lt_iff_toInt_lt.1 negative), placed]
    refine congrArg Except.ok (decide_eq_decide.2 ?_)
    omega

/-- The end of a slice is found: where the sum of the start and the length is too large for a word, it is beyond the
end of the list. -/
theorem positionalStop_eq {size : Int64} {i : UInt64} {n : Nat} (sized : size.toInt = n) (inside : i.toNat < n)
    {length : Option Int64} (forward : ¬ IsNegative (length.map Int64.toInt)) :
    ∃ last, positionalStop size i length = .ok last ∧
      last.toNat = i.toNat + (countWithin (n - i.toNat) (length.map Int64.toInt)).toNat := by
  obtain ⟨sizePlace, sizeValue⟩ := place_eq (by omega : 0 ≤ size.toInt)
  cases length with
  | none =>
      refine ⟨size.toUInt64, sizePlace, ?_⟩
      rw [Option.map_none, countWithin]
      omega
  | some count =>
      have nonneg : 0 ≤ count.toInt := Int.not_lt.1 fun negative => forward ⟨_, rfl, negative⟩
      obtain ⟨countPlace, countValue⟩ := place_eq nonneg
      rw [positionalStop, countPlace, sizePlace]
      refine ⟨_, rfl, ?_⟩
      rw [toNat_min_addSaturating, Option.map_some, countWithin]
      omega

theorem any_lt_zero_iff {length : Option Int64} :
    length.any (· < 0) = true ↔ IsNegative (length.map Int64.toInt) := by
  cases length with
  | none => simp [IsNegative]
  | some count => simp [IsNegative, Int64.lt_iff_toInt_lt]

/-- **No computation on words goes wrong.**  A slice of parameters that fit into memory is found without a fault, and
it is the one that numbers without bound give. -/
theorem positional_eq (small : (shellName :: params).length < Numeral.limit) (offset : Int64)
    (length : Option Int64) : positional shellName params offset length =
      .ok (slicePositional? shellName params offset.toInt (length.map Int64.toInt)) := by
  obtain ⟨signed, size⟩ := signed_eq small
  obtain ⟨start, begun, starts⟩ := origin_eq size offset
  rw [positional, signed]
  change (origin _ offset >>= fun start => _) = _
  rw [begun]
  change (isOutside _ start >>= fun outside => _) = _
  rw [isOutside_eq]
  change ite _ _ _ = _
  by_cases negative : length.any (· < 0) = true
  · rw [slicePositional?_eq_none_iff.2 (any_lt_zero_iff.1 negative), negative]
    split <;> rfl
  · have forward := mt any_lt_zero_iff.2 negative
    by_cases outside : start.toInt < 0 ∨ (shellName :: params).length ≤ start.toInt
    · rw [slicePositional?_of_outside starts outside forward, if_pos (decide_eq_true outside), if_neg negative]
      rfl
    · obtain ⟨placed, startValue⟩ := place_eq (by omega : 0 ≤ start.toInt)
      obtain ⟨last, stopped, stopValue⟩ := positionalStop_eq size (i := start.toUInt64) (by omega) forward
      have bounds := countWithin_bounds
        (by omega : 0 ≤ ((shellName :: params).length : Int) - start.toUInt64.toNat) forward
      rw [slicePositional?_of_inside (starts.trans startValue.symm) (by omega) forward,
        if_neg (mt of_decide_eq_true outside), if_neg negative, placed]
      change (positionalStop _ _ length >>= fun last => _) = _
      rw [stopped]
      change (cut _ _ last >>= fun run => _) = _
      rw [cut_eq (by omega) (by omega), stopValue, List.drop_take, Nat.add_sub_cancel_left]
      rfl

/-! ### A list in two parts -/

/-- What is selected from a place on. -/
theorem slicePositional?_from {i : Nat} (starts : sliceStart (shellName :: params).length offset = i) :
    slicePositional? shellName params offset none = some ((shellName :: params).drop i) := by
  have forward : ¬ IsNegative none := nofun
  by_cases inside : i < (shellName :: params).length
  · rw [slicePositional?_of_inside starts inside forward, countWithin, List.take_of_length_le]
    rw [List.length_drop]
    omega
  · rw [slicePositional?_of_outside starts (by omega) forward, List.drop_eq_nil_of_le (Nat.le_of_not_lt inside)]

/-- What is selected before a place: the list has a first member, so it begins inside. -/
theorem slicePositional?_upTo (shellName : Text) (params : List Text) (n : Nat) :
    slicePositional? shellName params 0 (some n) = some ((shellName :: params).take n) := by
  have forward : ¬ IsNegative (some (n : Int)) := by
    rintro ⟨count, same, negative⟩
    obtain rfl := Option.some.inj same
    omega
  have bound : (min (n : Int) ((shellName :: params).length - (0 : Nat))).toNat =
      min n (shellName :: params).length := by omega
  rw [slicePositional?_of_inside (i := 0) rfl (Nat.succ_pos _) forward, countWithin, bound, List.drop_zero,
    ← List.take_eq_take_min]

/-- The slice up to a place and the one from it on. -/
theorem slicePositional?_front_back (shellName : Text) (params : List Text) (n : Nat) :
    ∃ front back, slicePositional? shellName params 0 (some n) = some front ∧
      slicePositional? shellName params n none = some back ∧ front ++ back = shellName :: params :=
  ⟨_, _, slicePositional?_upTo shellName params n, slicePositional?_from (if_neg (by omega)),
    List.take_append_drop ..⟩

/-- The slice from a place on that is counted from the back. -/
theorem slicePositional?_last {k : Nat} (pos : 0 < k) (le : k ≤ (shellName :: params).length) :
    ∃ front back, slicePositional? shellName params (-k) none = some back ∧ back.length = k ∧
      front ++ back = shellName :: params := by
  have starts : sliceStart (shellName :: params).length (-k) = ((shellName :: params).length - k : Nat) := by
    rw [sliceStart, if_pos (by omega)]
    omega
  refine ⟨_, _, slicePositional?_from starts, ?_, List.take_append_drop ..⟩
  rw [List.length_drop]
  omega

section

variable {World : Type} {host : Host World} {s : Session World}

variable (host s) in
/-- `${@:offset:length}` and `${*:offset:length}` select these parameters, and change nothing. -/
def Selects (offset : Text) (length : Option Text) (run : List Text) : Prop :=
  ∀ name list word, PositionalList.ofName? name = some list →
    (positionalSlice? host (.parameter name (some (.substring offset length)) word)).exec s = (.ok (some (list, run)), s)

theorem selects_of_slicePositional? {offset : Text} {length : Option Text} {start : Int64} {count : Option Int}
    {run : List Text} (starts : (arithmetic host offset).exec s = (.ok start, s))
    (counts : (arithmeticOption host length).exec s = (.ok count, s))
    (found : slicePositional? s.shell.name s.shell.positional start.toInt count = some run) :
    Selects host s offset length run := by
  intro name list word named
  have selected : (slicePositional host offset length).exec s = (.ok run, s) := by
    rw [slicePositional, Run.exec_bind_of_ok starts, Run.exec_bind_of_ok counts, Run.exec_bind_of_ok (Run.exec_get s),
      found]
    rfl
  rw [positionalSlice?, named]
  exact Run.exec_bind_of_ok selected

end

end Slice

/-- **Positional slices partition the list.**  For all numbers, the outcome is an error exactly for a negative length,
nothing outside of the list of `$0` and the parameters, and otherwise the members from the start on, as many as there
are or as the length says.  On words of 64 bits the computation has no fault and gives the same.  So the
slices `0:n` and `n:` are the list in two parts, and `-k:` is its last `k` members, for the computation and for
expansions alike. -/
theorem slicePositional_partitions (shellName : Text) (params : List Text) :
    (∀ (offset : Int) (length : Option Int),
      Slice.IsListSlice (shellName :: params) offset length (slicePositional? shellName params offset length)) ∧
    ((shellName :: params).length < Numeral.limit → ∀ (offset : Int64) (length : Option Int64),
      Slice.positional shellName params offset length =
        .ok (slicePositional? shellName params offset.toInt (length.map Int64.toInt))) ∧
    (∀ n : Nat, ∃ front back, slicePositional? shellName params 0 (some n) = some front ∧
      slicePositional? shellName params n none = some back ∧ front ++ back = shellName :: params) ∧
    (∀ k : Nat, 0 < k → k ≤ params.length + 1 → ∃ front back,
      slicePositional? shellName params (-k) none = some back ∧ back.length = k ∧
        front ++ back = shellName :: params) ∧
    ∀ {World : Type} {host : Host World} {s : Session World}, s.shell.name = shellName →
      s.shell.positional = params →
      (∀ n < Numeral.limit, ∃ front back, Slice.Selects host s ['0'] (some (Text.ofNat n)) front ∧
        Slice.Selects host s (Text.ofNat n) none back ∧ front ++ back = shellName :: params) ∧
      ∀ k < Numeral.limit, 0 < k → k ≤ params.length + 1 → ∃ front back,
        Slice.Selects host s (' ' :: '-' :: Text.ofNat k) none back ∧ back.length = k ∧
          front ++ back = shellName :: params := by
  refine ⟨Slice.isListSlice_slicePositional? shellName params, Slice.positional_eq,
    Slice.slicePositional?_front_back shellName params, fun k => Slice.slicePositional?_last, ?_⟩
  rintro World host s rfl rfl
  refine ⟨fun n fits => ?_, fun k fits pos le => ?_⟩
  · have zero : (arithmetic host ['0']).exec s = (.ok 0, s) := exec_arithmetic_number host s (n := 0) (by decide)
    have number := exec_arithmetic_number host s fits
    have same : (Int64.ofNat n).toInt = n := Int64.toInt_ofNat_of_lt fits
    have limited : (arithmeticOption host (some (Text.ofNat n))).exec s = (.ok (some (n : Int)), s) := by
      rw [arithmeticOption, Run.exec_bind_of_ok number, same]
      rfl
    obtain ⟨front, back, upTo, behind, whole⟩ := Slice.slicePositional?_front_back s.shell.name s.shell.positional n
    refine ⟨front, back, ?_, ?_, whole⟩
    · exact Slice.selects_of_slicePositional? zero limited upTo
    · exact Slice.selects_of_slicePositional? number rfl (same ▸ behind)
  · have same : (-Int64.ofNat k).toInt = -k := Int64.toInt_neg_ofNat_of_le (Nat.le_of_lt fits)
    obtain ⟨front, back, last, counted, whole⟩ := Slice.slicePositional?_last pos le
    refine ⟨front, back, ?_, counted, whole⟩
    exact Slice.selects_of_slicePositional? (exec_arithmetic_blank_minus host s fits) rfl (same ▸ last)

/-- A session of `sh` with the parameters `a` and `b`. -/
def Session.namedShell : Session Unit :=
  Session.blank.onShell ({ · with name := "sh".toList, positional := [['a'], ['b']] })

/-- The statement at the ends of the range, and at the place of `$0` counted from the back. -/
theorem slicePositional_partitions_namedShell :
    Slice.positional "sh".toList [['a'], ['b']] Int64.minValue none = .ok (some []) ∧
    Slice.positional "sh".toList [['a'], ['b']] 1 (some Int64.maxValue) = .ok (some [['a'], ['b']]) ∧
    ∃ front back, Slice.Selects Host.idle .namedShell " -3".toList none back ∧ back.length = 3 ∧
      front ++ back = ["sh".toList, ['a'], ['b']] := by
  obtain ⟨-, words, -, -, expansions⟩ := slicePositional_partitions "sh".toList [['a'], ['b']]
  refine ⟨?_, ?_, ?_⟩
  · exact words (by decide) Int64.minValue none
  · exact words (by decide) 1 (some Int64.maxValue)
  · exact (expansions rfl rfl).2 3 (by decide) (by decide) (by decide)

end ShellWord
