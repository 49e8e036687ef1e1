import ShellWord.Param.Slice
import ShellWord.Proofs.Arith.Plain
import ShellWord.Proofs.Simulation

/-!
# Slices of values

`${x:offset:length}` takes two numbers of 64 bits, each of any sign and size.  `substring?` computes with them as if
numbers had no bound.  A machine has words: the size of the value is a word with a sign, places are words without
one, and in between there are sums and conversions, each of which could go wrong for numbers near the ends
of the range.

`Slice.substring` is the computation on words, where a sum that does not fit, a conversion that changes the number
and a cut outside of the value are faults.  There are none (`substring_eq`), and what comes out is what
`substring?` gives.  `substring_exact` says in terms of places what that is, and draws the conclusion
for expansions: a value can be cut in two at any place, counted from the front or from the back, and nothing is lost.

### What is load-bearing

A value has fewer than 2^63 characters, since it fits into memory.  Only negative numbers are ever added to its size as
signed words, so these sums stay in range.  The sum of a place and a length can be too large for a word; it is cut off
at the largest one, which is still beyond the end of the value.
-/

namespace ShellWord

namespace Slice

/-! ### Words of 64 bits -/

/-- Why a computation on words cannot go on. -/
inductive Fault where
  /-- a sum or a conversion leaves the range of its words -/
  | overflow
  /-- a cut is made outside of what is cut -/
  | outOfRange
  deriving DecidableEq, Repr

/-- A size as a word with a sign. -/
def signed (n : Nat) : Except Fault Int64 :=
  if Numeral.fits n then .ok (Int64.ofNat n) else .error .overflow

/-- The sum of two words with a sign. -/
def add (a b : Int64) : Except Fault Int64 :=
  if Numeral.fits (a.toInt + b.toInt) then .ok (a + b) else .error .overflow

/-- A word with a sign as a place. -/
def place (a : Int64) : Except Fault UInt64 :=
  if 0 ≤ a then .ok a.toUInt64 else .error .overflow

/-- The sum of two places, or the largest place if it is no word. -/
def addSaturating (a b : UInt64) : UInt64 :=
  if a.toNat + b.toNat < UInt64.size then a + b else UInt64.ofNat (UInt64.size - 1)

/-- The members of a list from one place up to another. -/
def cut {α : Type} (l : List α) (start stop : UInt64) : Except Fault (List α) :=
  if start ≤ stop ∧ stop.toNat ≤ l.length then .ok ((l.take stop.toNat).drop start.toNat)
  else .error .outOfRange

/-- The place where a slice begins. -/
def origin (size offset : Int64) : Except Fault Int64 :=
  if offset < 0 then add size offset else return offset

/-- The place where a slice that begins at `start` ends; none if that is before it begins. -/
def stop (size start : Int64) (length : Option Int64) : Except Fault (Option UInt64) :=
  match length with
  | none => return some (← place size)
  | some count => do
    if count < 0 then
      let last ← add size count
      if last < start then return none else return some (← place last)
    else
      return some (min (addSaturating (← place start) (← place count)) (← place size))

/-- The characters of a value from `offset` on, computed on words. -/
def substring (value : Text) (offset : Int64) (length : Option Int64) : Except Fault (Option Text) := do
  let size ← signed value.length
  let start ← origin size offset
  if start < 0 ∨ size ≤ start then
    return some []
  else
    match ← stop size start length with
    | none => return none
    | some last => return some (← cut value (← place start) last)

/-! ### Places of a slice -/

/-- The place where a slice ends: the end of the value, `count` characters behind its start but not beyond the end, or
the place that a negative number counts back to. -/
def stopAt (size start : Int) : Option Int → Int
  | none => size
  | some count => if count < 0 then size + count else min (start + count) size

theorem inRange_iff {size : Nat} {start : Int} : inRange size start = true ↔ 0 ≤ start ∧ start < size := by
  rw [inRange, Bool.and_eq_true, decide_eq_true_eq, decide_eq_true_eq]

theorem stopAt_le (size start : Int) (length : Option Int) : stopAt size start length ≤ size := by
  cases length with
  | none => exact Int.le_refl size
  | some count =>
      rw [stopAt]
      split <;> omega

/-- Only a negative length ends a slice before it begins. -/
theorem stopAt_lt_iff {size start : Int} (inside : start < size) (length : Option Int) :
    stopAt size start length < start ↔ ∃ count, length = some count ∧ count < 0 ∧ size + count < start := by
  cases length with
  | none => simpa [stopAt] using Int.le_of_lt inside
  | some count =>
      rw [stopAt]
      split
      · next negative => simp [negative]
      · next nonneg =>
        have : ¬ min (start + count) size < start := by omega
        simp [nonneg, this]

variable {value : Text} {offset : Int}

/-- Inside of the value, a slice is what lies between its two places. -/
theorem substring?_of_inRange {start : Int} (starts : sliceStart value.length offset = start)
    (nonneg : 0 ≤ start) (inside : start < value.length) (length : Option Int) :
    substring? value offset length = if stopAt value.length start length < start then none
      else some ((value.take (stopAt value.length start length).toNat).drop start.toNat) := by
  unfold substring?
  dsimp only
  rw [starts, if_pos (inRange_iff.2 ⟨nonneg, inside⟩)]
  cases length with
  | none =>
      rw [stopAt, if_neg (by omega), Int.toNat_natCast, List.take_length]
  | some count =>
      dsimp only
      rw [stopAt]
      split
      · rfl
      · next negative =>
        have last : (min (start + count) value.length).toNat = min (start.toNat + count.toNat) value.length := by omega
        rw [if_neg (by omega), last, ← List.take_eq_take_min, List.take_drop]

/-- Outside of the value, there is nothing. -/
theorem substring?_of_not_inRange
    (outside : ¬ (0 ≤ sliceStart value.length offset ∧ sliceStart value.length offset < value.length))
    (length : Option Int) : substring? value offset length = some [] := by
  unfold substring?
  exact if_neg (mt inRange_iff.1 outside)

/-! ### No fault -/

variable {a b : Int64}

theorem fits_iff {i : Int} : Numeral.fits i = true ↔ -Numeral.limit ≤ i ∧ i < Numeral.limit := by
  rw [Numeral.fits, Bool.and_eq_true, decide_eq_true_eq, decide_eq_true_eq, Numeral.limit_eq]
  omega

/-- A size below the limit is a word with a sign. -/
theorem signed_eq {n : Nat} (small : n < Numeral.limit) :
    signed n = .ok (Int64.ofNat n) ∧ (Int64.ofNat n).toInt = n :=
  ⟨if_pos (fits_iff.2 ⟨by omega, by omega⟩), Int64.toInt_ofNat_of_lt small⟩

/-- A number that is negative can be added to one that is not. -/
theorem add_eq (ha : 0 ≤ a.toInt) (hb : b.toInt < 0) :
    add a b = .ok (a + b) ∧ (a + b).toInt = a.toInt + b.toInt := by
  have limit := Numeral.limit_eq
  have low := b.le_toInt
  have high := a.toInt_lt
  refine ⟨if_pos (fits_iff.2 ⟨by omega, by omega⟩), ?_⟩
  rw [Int64.toInt_add, Int.bmod_eq_of_le] <;> omega

theorem place_eq (h : 0 ≤ a.toInt) : place a = .ok a.toUInt64 ∧ (a.toUInt64.toNat : Int) = a.toInt := by
  have nonneg : 0 ≤ a := Int64.le_iff_toInt_le.2 h
  refine ⟨if_pos nonneg, ?_⟩
  rw [Int64.toNat_toUInt64_of_le nonneg, Int64.toNatClampNeg, Int.toNat_of_nonneg h]

theorem origin_eq {size : Int64} {n : Nat} (sized : size.toInt = n) (offset : Int64) :
    ∃ start, origin size offset = .ok start ∧ sliceStart n offset.toInt = start.toInt := by
  rw [origin, sliceStart]
  by_cases negative : offset.toInt < 0
  · obtain ⟨summed, sum⟩ := add_eq (by omega : 0 ≤ size.toInt) negative
    refine ⟨size + offset, (if_pos (Int64.lt_iff_toInt_lt.2 negative)).trans summed, ?_⟩
    rw [if_pos negative, sum, sized]
  · exact ⟨offset, if_neg (mt Int64.lt_iff_toInt_lt.1 negative), if_neg negative⟩

/-- Where the sum of two places is too large, it is beyond every size. -/
theorem toNat_min_addSaturating (i j k : UInt64) :
    (min (addSaturating i j) k).toNat = min (i.toNat + j.toNat) k.toNat := by
  have least (m : UInt64) : (min m k).toNat = min m.toNat k.toNat := by
    change (if m ≤ k then m else k).toNat = _
    rw [apply_ite UInt64.toNat, Nat.min_def]
    rfl
  rw [least, addSaturating]
  split
  · next fit => rw [UInt64.toNat_add, Nat.mod_eq_of_lt fit]
  · next large =>
    have below : k.toNat ≤ UInt64.size - 1 := Nat.le_pred_of_lt k.toNat_lt
    have largest : (UInt64.ofNat (UInt64.size - 1)).toNat = UInt64.size - 1 := rfl
    rw [largest, Nat.min_eq_right below, Nat.min_eq_right (by omega)]

/-- The end of a slice is found, unless it is before the start. -/
theorem stop_eq {size start : Int64} (nonneg : 0 ≤ start.toInt) (inside : start.toInt < size.toInt)
    (length : Option Int64) :
    if stopAt size.toInt start.toInt (length.map Int64.toInt) < start.toInt then
      stop size start length = .ok none
    else ∃ last, stop size start length = .ok (some last) ∧
      (last.toNat : Int) = stopAt size.toInt start.toInt (length.map Int64.toInt) := by
  have sizeNonneg : 0 ≤ size.toInt := Int.le_of_lt (Int.lt_of_le_of_lt nonneg inside)
  obtain ⟨sizePlace, sizeValue⟩ := place_eq sizeNonneg
  obtain ⟨startPlace, startValue⟩ := place_eq nonneg
  cases length with
  | none =>
      rw [if_neg (by simpa [stopAt] using Int.le_of_lt inside)]
      refine ⟨size.toUInt64, ?_, sizeValue⟩
      rw [stop, sizePlace]
      rfl
  | some count =>
      rw [Option.map_some, stopAt, stop]
      by_cases negative : count.toInt < 0
      · obtain ⟨summed, sum⟩ := add_eq sizeNonneg negative
        have below : count < 0 := Int64.lt_iff_toInt_lt.2 negative
        rw [if_pos negative, if_pos below, summed, ← sum]
        change ite _ (ite _ _ _ = _) (∃ last, ite _ _ _ = _ ∧ _)
        by_cases early : (size + count).toInt < start.toInt
        · rw [if_pos early, if_pos (Int64.lt_iff_toInt_lt.2 early)]
          rfl
        · obtain ⟨lastPlace, lastValue⟩ := place_eq (by omega : 0 ≤ (size + count).toInt)
          rw [if_neg early, if_neg (mt Int64.lt_iff_toInt_lt.1 early), lastPlace]
          exact ⟨_, rfl, lastValue⟩
      · obtain ⟨countPlace, countValue⟩ := place_eq (Int.not_lt.1 negative)
        have below : ¬ count < 0 := mt Int64.lt_iff_toInt_lt.1 negative
        rw [if_neg negative, if_neg below, startPlace, countPlace, sizePlace, if_neg (by omega)]
        -- The sum of the two places may be too large for a word, the smaller of it and the size is not.
        refine ⟨_, rfl, ?_⟩
        rw [toNat_min_addSaturating]
        omega

/-- A cut between two places of a list. -/
theorem cut_eq {α : Type} {l : List α} {i j : UInt64} (ordered : i.toNat ≤ j.toNat) (inside : j.toNat ≤ l.length) :
    cut l i j = .ok ((l.take j.toNat).drop i.toNat) :=
  if_pos ⟨UInt64.le_iff_toNat_le.2 ordered, inside⟩

/-- **No computation on words goes wrong.**  A slice of a value that fits into memory is found without a fault, and
it is the one that numbers without bound give. -/
theorem substring_eq (small : value.length < Numeral.limit) (offset : Int64) (length : Option Int64) :
    substring value offset length = .ok (substring? value offset.toInt (length.map Int64.toInt)) := by
  obtain ⟨signed, size⟩ := signed_eq small
  obtain ⟨start, begun, starts⟩ := origin_eq size offset
  have outside_iff : start < 0 ∨ Int64.ofNat value.length ≤ start ↔
      start.toInt < 0 ∨ value.length ≤ start.toInt := by
    rw [Int64.lt_iff_toInt_lt, Int64.le_iff_toInt_le, size]
    rfl
  rw [substring, signed]
  change (origin _ offset >>= fun start => _) = _
  rw [begun]
  change ite (start < 0 ∨ Int64.ofNat value.length ≤ start) _ _ = _
  by_cases outside : start.toInt < 0 ∨ value.length ≤ start.toInt
  · rw [if_pos (outside_iff.2 outside), substring?_of_not_inRange (by omega)]
    rfl
  · have nonneg : 0 ≤ start.toInt := by omega
    have inside : start.toInt < value.length := by omega
    have stopped := stop_eq nonneg (size ▸ inside) length
    obtain ⟨placed, startValue⟩ := place_eq nonneg
    have last := stopAt_le value.length start.toInt (length.map Int64.toInt)
    rw [if_neg (mt outside_iff.1 outside), substring?_of_inRange starts nonneg inside]
    rw [size] at stopped
    split
    · next early =>
      rw [if_pos early] at stopped
      rw [stopped]
      rfl
    · next ordered =>
      rw [if_neg ordered] at stopped
      obtain ⟨j, stopped, stopValue⟩ := stopped
      rw [stopped]
      change (place start >>= fun i => cut value i j >>= fun text => _) = _
      rw [placed]
      change (cut value _ j >>= fun text => _) = _
      rw [cut_eq (by omega) (by omega), ← stopValue, ← startValue]
      rfl

/-! ### What a slice is -/

/-- The text between two places of a value. -/
def IsSpan (value : Text) (start stop : Int) (text : Text) : Prop :=
  ∃ before after, value = before ++ text ++ after ∧
    (before.length : Int) = start ∧ ((before ++ text).length : Int) = stop

theorem isSpan_drop_take {start stop : Int} (nonneg : 0 ≤ start) (ordered : start ≤ stop)
    (inside : stop ≤ value.length) :
    IsSpan value start stop ((value.take stop.toNat).drop start.toNat) := by
  have front : (value.take stop.toNat).take start.toNat ++ (value.take stop.toNat).drop start.toNat =
      value.take stop.toNat := List.take_append_drop ..
  refine ⟨(value.take stop.toNat).take start.toNat, value.drop stop.toNat, ?_, ?_, ?_⟩
  · rw [front, List.take_append_drop]
  · rw [List.length_take, List.length_take]
    omega
  · rw [front, List.length_take]
    omega

/-- The slice of a value that begins at an offset and has a length: nothing outside of the value, no answer where a
negative length ends it before it begins, and otherwise the text between its two places. -/
structure IsSlice (value : Text) (offset : Int) (length : Option Int) (outcome : Option Text) : Prop where
  outside : ∀ start, sliceStart value.length offset = start → start < 0 ∨ value.length ≤ start → outcome = some []
  fails_iff : ∀ start, sliceStart value.length offset = start → 0 ≤ start → start < value.length →
    (outcome = none ↔ ∃ count, length = some count ∧ count < 0 ∧ value.length + count < start)
  inside : ∀ start, sliceStart value.length offset = start → 0 ≤ start → start < value.length →
    ∀ text, outcome = some text → IsSpan value start (stopAt value.length start length) text

theorem isSlice_substring? (value : Text) (offset : Int) (length : Option Int) :
    IsSlice value offset length (substring? value offset length) where
  outside start starts out := by
    apply substring?_of_not_inRange
    omega
  fails_iff start starts nonneg inside := by
    rw [substring?_of_inRange starts nonneg inside, ← stopAt_lt_iff inside]
    simp
  inside start starts nonneg inside text found := by
    rw [substring?_of_inRange starts nonneg inside] at found
    split at found
    · contradiction
    · next ordered =>
      obtain rfl := Option.some.inj found
      exact isSpan_drop_take nonneg (Int.not_lt.1 ordered) (stopAt_le ..)

/-! ### A value in two parts -/

/-- What is left from a place on. -/
theorem substring?_from {i : Nat} (starts : sliceStart value.length offset = i) :
    substring? value offset none = some (value.drop i) := by
  by_cases inside : i < value.length
  · rw [substring?_of_inRange starts (by omega) (by omega), stopAt, if_neg (by omega), Int.toNat_natCast,
      Int.toNat_natCast, List.take_length]
  · rw [substring?_of_not_inRange (by omega), List.drop_eq_nil_of_le (Nat.le_of_not_lt inside)]

/-- What comes before a place. -/
theorem substring?_upTo {i : Nat} {count : Int} (stops : stopAt value.length 0 (some count) = min i value.length) :
    substring? value 0 (some count) = some (value.take i) := by
  have starts : sliceStart value.length 0 = 0 := rfl
  by_cases inside : 0 < value.length
  · rw [substring?_of_inRange starts (by omega) (by omega), stops, if_neg (by omega), Int.toNat_natCast,
      ← List.take_eq_take_min]
    rfl
  · obtain rfl : value = [] := List.eq_nil_of_length_eq_zero (by omega)
    rw [substring?_of_not_inRange (by omega), List.take_nil]

section

variable {World : Type} {host : Host World} {s : Session World} {name : Text}

variable (host s name) in
/-- `${name:offset:length}` gives a text and does nothing but read the parameter. -/
def Gives (offset : Text) (length : Option Text) (text : Text) : Prop :=
  ∀ word, (evaluate host (.parameter name (some (.substring offset length)) word)).exec s =
    (.ok text, s.afterRead host name)

theorem gives_of_substring? (named : isParameter name = true) (single : PositionalList.ofName? name = none)
    (set : s.lookup host name = some value) {offset text : Text} {length : Option Text} {start : Int64}
    {count : Option Int} (starts : ∀ t, (arithmetic host offset).exec t = (.ok start, t))
    (counts : ∀ t, (arithmeticOption host length).exec t = (.ok count, t))
    (found : substring? value start.toInt count = some text) : Gives host s name offset length text := by
  intro word
  apply exec_orSource_of_ok
  rw [tryEvaluate, if_pos named, applyOperator, expandSubstring, single]
  dsimp only
  rw [Run.exec_bind_of_ok (exec_requireValue_of_lookup set), Run.exec_bind_of_ok (starts _),
    Run.exec_bind_of_ok (counts _), found]
  rfl

/-- The slice up to a place and the one from that place on are the value: the length of the one and the offset of the
other only have to name the same place. -/
theorem exists_front_back (named : isParameter name = true) (single : PositionalList.ofName? name = none)
    (set : s.lookup host name = some value) {offset length : Text} {start count : Int64} {i : Nat}
    (started : ∀ t, (arithmetic host offset).exec t = (.ok start, t))
    (counted : ∀ t, (arithmetic host length).exec t = (.ok count, t))
    (starts : sliceStart value.length start.toInt = i)
    (stops : stopAt value.length 0 (some count.toInt) = min i value.length) :
    ∃ front back, Gives host s name ['0'] (some length) front ∧ Gives host s name offset none back ∧
      front ++ back = value := by
  have zero (t : Session World) : (arithmetic host ['0']).exec t = (.ok 0, t) :=
    exec_arithmetic_number host t (n := 0) (by decide)
  have limited (t : Session World) :
      (arithmeticOption host (some length)).exec t = (.ok (some count.toInt), t) := by
    rw [arithmeticOption, Run.exec_bind_of_ok (counted t)]
    rfl
  refine ⟨value.take i, value.drop i, ?_, ?_, List.take_append_drop i value⟩
  · exact gives_of_substring? named single set zero limited (substring?_upTo stops)
  · exact gives_of_substring? named single set started (fun _ => rfl) (substring?_from starts)

end

end Slice

/-- **Slices are exact.**  For a value that fits into memory and any two numbers of 64 bits, the computation on words
has no fault and agrees with the one on numbers without bound.  The outcome is nothing outside of the value, fails
exactly where a negative length ends the slice before it begins, and is the text between the two places
otherwise.  So `${v:0:n}` and `${v:n}` are the value in two parts, and so are `${v:0:-k}` and `${v: -k}`. -/
theorem substring_exact {value : Text} (small : value.length < Numeral.limit) :
    (∀ (offset : Int64) (length : Option Int64), ∃ outcome,
      Slice.substring value offset length = .ok outcome ∧
      substring? value offset.toInt (length.map Int64.toInt) = outcome ∧
      Slice.IsSlice value offset.toInt (length.map Int64.toInt) outcome) ∧
    ∀ {World : Type} {host : Host World} {s : Session World} {name : Text}, isParameter name = true →
      PositionalList.ofName? name = none → s.lookup host name = some value →
      (∀ n < Numeral.limit, ∃ front back,
        Slice.Gives host s name ['0'] (some (Text.ofNat n)) front ∧
        Slice.Gives host s name (Text.ofNat n) none back ∧ front ++ back = value) ∧
      ∀ k, 0 < k → k ≤ value.length → ∃ front back,
        Slice.Gives host s name ['0'] (some ('-' :: Text.ofNat k)) front ∧
        Slice.Gives host s name (' ' :: '-' :: Text.ofNat k) none back ∧ front ++ back = value := by
  refine ⟨fun offset length => ?_, fun {World host s name} named single set => ⟨fun n fits => ?_, fun k pos le => ?_⟩⟩
  · exact ⟨_, Slice.substring_eq small offset length, rfl, Slice.isSlice_substring? ..⟩
  · have number (t : Session World) := exec_arithmetic_number host t fits
    have same : (Int64.ofNat n).toInt = n := Int64.toInt_ofNat_of_lt fits
    refine Slice.exists_front_back named single set (i := n) number number ?_ ?_
    · rw [same, sliceStart, if_neg (by omega)]
    · rw [same, Slice.stopAt, if_neg (by omega)]
      omega
  · have fits : k < Numeral.limit := Nat.lt_of_le_of_lt le small
    have same : (-Int64.ofNat k).toInt = -k := Int64.toInt_neg_ofNat_of_le (Nat.le_of_lt fits)
    -- The place is counted from the back here, by the offset and by the length alike.
    refine Slice.exists_front_back named single set (i := value.length - k)
      (fun t => exec_arithmetic_blank_minus host t fits) (fun t => exec_arithmetic_minus host t fits) ?_ ?_
    · rw [same, sliceStart, if_pos (by omega)]
      omega
    · rw [same, Slice.stopAt, if_pos (by omega)]
      omega

/-- A session where `v` holds `héllo`. -/
def Session.greeting : Session Unit :=
  Session.blank.onShell (·.define ['v'] "héllo".toList)

/-- The statement at the ends of the range, and at a place counted from the back. -/
theorem substring_exact_greeting :
    Slice.substring "héllo".toList Int64.minValue none = .ok (some []) ∧
    Slice.substring "héllo".toList 0 (some Int64.minValue) = .ok none ∧
    ∃ front back, Slice.Gives Host.idle .greeting ['v'] ['0'] (some "-4".toList) front ∧
      Slice.Gives Host.idle .greeting ['v'] " -4".toList none back ∧ front ++ back = "héllo".toList := by
  have small : "héllo".toList.length < Numeral.limit := by decide
  obtain ⟨words, parts⟩ := substring_exact small
  refine ⟨?_, ?_, ?_⟩
  · obtain ⟨outcome, computed, -, slice⟩ := words Int64.minValue none
    rw [computed, slice.outside _ rfl (by decide)]
  · obtain ⟨outcome, computed, -, slice⟩ := words 0 (some Int64.minValue)
    have early : outcome = none :=
      (slice.fails_iff 0 rfl (by decide) (by decide)).2 ⟨_, rfl, by decide, by decide⟩
    rw [computed, early]
  · exact (parts rfl rfl rfl).2 4 (by decide) (by decide)

end ShellWord
