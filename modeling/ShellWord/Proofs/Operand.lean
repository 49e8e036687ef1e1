import ShellWord.Expand.Word
import ShellWord.Proofs.FieldReading
import ShellWord.Proofs.Simulation

/-!
# Operands and words

The operand of `${x:-word}` and a word of a command are walked over in the same way: the parts from left to
right, each under its own quotes or under those of the word, a tilde at the front of the first part only,
and every expansion evaluated in the session that the parts before it have left.  The walks are two, since they
keep different things.  An operand is text and pattern at once, and nothing of it will be split; a word is a
list of segments that still know what was quoted.  Literal text, too, is treated by each of them in its own way
(`operandLiteral` and `literalSegments`).

`expandOperand_eq_joined` says that the walks agree: the operand is what is left of the segments when they are
joined.  It is an equation between computations, so errors and what happens to the session on the way are
the same.

Two things are left out.  A word in single quotes is not walked over at all when it is an operand.  And the
positional list is as many segments as there are parameters for a word, and one text for an operand.
-/

namespace ShellWord

variable {World : Type} (host : Host World)

/-! ### Joining segments -/

/-- The pattern of a segment.  In a result that is still to be split every character is active. -/
def Segment.pattern : Segment → Text
  | .fixed literal _ => literal.pattern
  | .splittable text => text
  | .boundary => []

/-- Segments one after the other, as text and as pattern. -/
def joined (segments : List Segment) : Literal :=
  ⟨segments.flatMap Segment.text, segments.flatMap Segment.pattern⟩

theorem joined_append (first second : List Segment) :
    joined (first ++ second) = joined first ++ joined second := by
  unfold joined
  rw [List.flatMap_append, List.flatMap_append]
  rfl

theorem joined_quoted (text : Text) : joined [.quoted text] = Literal.quoted text := by
  simp [joined, Segment.quoted, Segment.text, Segment.pattern, Literal.quoted]

theorem joined_splittable (text : Text) : joined [.splittable text] = Literal.active text := by
  simp [joined, Segment.text, Segment.pattern, Literal.active]

theorem joined_fixed (literal : Literal) (quoted : Bool) : joined [.fixed literal quoted] = literal := by
  simp [joined, Segment.text, Segment.pattern]

/-- The two ways to treat literal text agree, case by case: text in single quotes, text in double quotes,
a tilde at the front, and any other text outside of quotes. -/
theorem operandLiteral_eq_joined (s : Session World) (text : Text) (quote : Option Quote)
    (leading continues : Bool) :
    operandLiteral host s text quote leading continues =
      joined (literalSegments host s text quote leading continues) := by
  cases quote with
  | some quote =>
      cases literal : quote.isLiteral with
      | true => rw [operandLiteral, literalSegments, if_pos literal, if_pos literal, joined_quoted]
      | false =>
          rw [operandLiteral, literalSegments, if_neg (by rw [literal]; decide),
            if_neg (by rw [literal]; decide), joined_quoted]
  | none =>
      unfold operandLiteral literalSegments
      cases (if leading then s.tildePrefix? host text continues else none) with
      | some found =>
          -- the directory of a tilde is quoted, and what follows it is not
          obtain ⟨dir, rest⟩ := found
          exact ((joined_append [.quoted dir] _).trans
            (congr (congrArg _ (joined_quoted dir)) (joined_fixed _ false))).symm
      | none => exact (joined_fixed _ false).symm

/-! ### Parts -/

/-- `$@`, `$*`, `${@}`, `${*}` and the slices of the two. -/
def Expansion.isList : Expansion → Bool
  | .variable name => (PositionalList.ofName? name).isSome
  | .parameter name none _ => (PositionalList.ofName? name).isSome
  | .parameter name (some (.substring _ _)) _ => (PositionalList.ofName? name).isSome
  | _ => false

/-- The part is the positional list or a slice of it. -/
def Part.isList : Part → Bool
  | .literal _ _ => false
  | .expansion inner _ => inner.isList

/-- An expansion that is no list stands for no parameters. -/
theorem positionalValues?_of_not_isList {expansion : Expansion} (h : expansion.isList = false) :
    positionalValues? host expansion = pure none := by
  cases expansion with
  | «variable» name =>
      have notList : PositionalList.ofName? name = none := by simpa [Expansion.isList] using h
      simp only [positionalValues?, Expansion.positionalList?, notList, positionalSlice?]
  | parameter name operator word =>
      cases operator with
      | none =>
          have notList : PositionalList.ofName? name = none := by simpa [Expansion.isList] using h
          simp only [positionalValues?, Expansion.positionalList?, notList, positionalSlice?]
      | some operator =>
          cases operator with
          | substring offset length =>
              have notList : PositionalList.ofName? name = none := by simpa [Expansion.isList] using h
              simp only [positionalValues?, Expansion.positionalList?, positionalSlice?, notList]
          | _ => rfl
  | _ => rfl

/-- One part contributes the same to an operand and to a word. -/
theorem expandOperandPart_eq_joined {part : Part} (h : part.isList = false) (quote : Option Quote)
    (continues leading : Bool) :
    expandOperandPart host quote continues leading part =
      partSegments host quote continues leading part >>= fun segments => pure (joined segments) := by
  cases part with
  | literal text own =>
      simp only [expandOperandPart, partSegments, bind_assoc, pure_bind, operandLiteral_eq_joined]
  | expansion expansion own =>
      have quotes : (quote.or own).isSome = (quote.isSome || own.isSome) := Option.isSome_or
      simp only [expandOperandPart, partSegments, positionalValues?_of_not_isList host h, bind_assoc,
        pure_bind, quotes]
      show (evaluate host expansion >>= _) = _
      congr 1
      funext value
      split
      · rw [joined_quoted]
      · rw [joined_splittable]

/-- The parts from left to right; only the first of them is leading. -/
theorem expandOperandParts_eq_joined {parts : List Part} (h : ∀ part ∈ parts, part.isList = false)
    (quote : Option Quote) (continues leading : Bool) :
    expandOperandParts host quote continues leading parts =
      partsSegments host quote continues leading parts >>= fun segments => pure (joined segments) := by
  induction parts generalizing leading with
  | nil => rfl
  | cons part parts ih =>
      rw [List.forall_mem_cons] at h
      rw [expandOperandParts, partsSegments, expandOperandPart_eq_joined host h.1, ih h.2]
      simp only [bind_assoc, pure_bind, joined_append]

/-! ### Words -/

/-- **An operand is its segments, joined.**  Take a word that is not in single quotes and has no positional
list among its parts.  Expanding it as an operand is the same computation as expanding it into segments and
joining them: it fails where that fails, with the same error, it leaves the same session, and its text and its
pattern are those of the segments in a row. -/
theorem expandOperand_eq_joined {word : Word} (quotes : ∀ quote ∈ word.quote, quote.isLiteral = false)
    (lists : ∀ part ∈ word.parts, part.isList = false) :
    expandOperand host word =
      wordSegments host word >>= fun segments =>
        pure ⟨segments.flatMap Segment.text, segments.flatMap Segment.pattern⟩ := by
  obtain ⟨parts, quote⟩ := word
  have expanded : quote.any Quote.isLiteral = false := by
    cases quote with
    | none => rfl
    | some quote => exact quotes quote rfl
  rw [expandOperand, expanded, if_neg (by decide)]
  exact expandOperandParts_eq_joined host lists quote (parts.length > 1) true

/-! ### An operand that sets a variable

The word is `~/\*${x:=?}"$x"`, with a home directory that has a wildcard in its name.  The last part reads
what the one before has set. -/

/-- The parts `~/\*`, `${x:=?}` and `"$x"`. -/
def Word.settingOperand : Word :=
  .mk
    [.literal ['~', '/', '\\', '*'] none,
      .expansion (.parameter ['x'] (some (.assignDefault true)) (some (.ofText ['?']))) none,
      .expansion (.variable ['x']) (some .double)] none

/-- A session whose home directory is `/*`. -/
def Session.starHome : Session Unit :=
  Session.blank.onShell (Shell.define "HOME".toList ['/', '*'])

/-- The statement at this word: both stars are literal in the pattern, the first question mark is active in it
and the second one, which was quoted, is not. -/
theorem expandOperand_settingOperand :
    (∀ quote ∈ Word.settingOperand.quote, quote.isLiteral = false) ∧
    (∀ part ∈ Word.settingOperand.parts, part.isList = false) ∧
    (expandOperand Host.idle Word.settingOperand).exec .starHome =
      (.ok ⟨"/*/*??".toList, "/\\*/\\*?\\?".toList⟩,
        Session.starHome.onShell (Shell.define ['x'] ['?'])) := by
  have quotes : ∀ quote ∈ Word.settingOperand.quote, quote.isLiteral = false := nofun
  have lists : ∀ part ∈ Word.settingOperand.parts, part.isList = false := by
    simp [Word.settingOperand, Part.isList, Expansion.isList, PositionalList.ofName?]
  refine ⟨quotes, lists, ?_⟩
  rw [expandOperand_eq_joined Host.idle quotes lists]
  rfl

end ShellWord
