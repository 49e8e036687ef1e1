import ShellWord.Proofs.FieldText
import ShellWord.Proofs.Invariant
import ShellWord.Proofs.Operand
import ShellWord.Proofs.Quoting

/-!
# Assignments are not split

The word `x=$y` is one argument, whatever `y` holds: the separators in it are kept, and an empty value leaves `x=`.
Assignments differ from other words in one place only, where their segments are made into fields, and there in
one thing only, that no separators are given.  `splitSegments_none` says what comes of that: the segments are joined to
one field, unless there is a boundary among them, and there is such a field if only one of the segments anchors it.

Neither can go wrong in an assignment.  The name in front of the equals sign is text, so the first segment anchors the
field (`exists_isNameStart_of_beginsAssignment`); and boundaries come from positional lists alone, which are excepted
here.  `expandWord_assignment` is the equation between the two computations, the arguments of the word and its
segments, so that errors and the session that is left are the same as well.
-/

namespace ShellWord

/-! ### Fields without separators -/

/-- The segment makes a field of its own if there is none: it is quoted, or not empty. -/
def Segment.anchors : Segment → Bool
  | .fixed literal quoted => quoted || !literal.text.isEmpty
  | .splittable text => !text.isEmpty
  | .boundary => false

/-- Without separators, a segment that is no boundary joins the field under construction. -/
theorem Builder.add_none {b : Builder Field} (pending : b.pending = false) {segment : Segment}
    (inner : segment ≠ .boundary) :
    b.add none segment =
      { b with current := b.current ++ joined [segment], anchored := b.anchored || segment.anchors } := by
  cases segment with
  | fixed literal quoted => simp [add, append, pending, joined, Segment.text, Segment.pattern, Segment.anchors]
  | splittable text =>
      simp [add, append, pending, joined, Segment.text, Segment.pattern, Segment.anchors, Literal.active]
  | boundary => exact absurd rfl inner

theorem Builder.foldl_add_none {segments : List Segment} (inner : .boundary ∉ segments) {b : Builder Field}
    (pending : b.pending = false) :
    segments.foldl (Builder.add none) b =
      { b with current := b.current ++ joined segments, anchored := b.anchored || segments.any Segment.anchors } := by
  induction segments generalizing b with
  | nil =>
      have same : b.current ++ joined [] = b.current := Literal.append_empty b.current
      simp [same]
  | cons segment segments ih =>
      obtain ⟨first, rest⟩ : .boundary ≠ segment ∧ .boundary ∉ segments := by simpa using inner
      have step := add_none pending first.symm
      have whole : joined (segment :: segments) = joined [segment] ++ joined segments :=
        joined_append [segment] segments
      rw [List.foldl_cons, ih rest (step ▸ pending), step, whole, ← Literal.append_assoc]
      simp [Bool.or_assoc]

/-- **Without separators the segments are joined to one field**, if none of them is a boundary. -/
theorem splitSegments_none {segments : List Segment} (inner : .boundary ∉ segments) :
    splitSegments none segments = if segments.any Segment.anchors then [joined segments] else [] := by
  rw [splitSegments, Builder.build, Builder.foldl_add_none inner rfl]
  cases segments.any Segment.anchors <;> rfl

variable {World : Type} (host : Host World)

/-! ### The segments of an assignment -/

theorem boundary_notMem_partSegments {part : Part} (notList : part.isList = false) {quote : Option Quote}
    {continues leading : Bool} {s s' : Session World} {segments : List Segment}
    (ran : (partSegments host quote continues leading part).exec s = (.ok segments, s')) :
    .boundary ∉ segments := by
  cases part with
  | literal text own =>
      obtain ⟨t, u, -, made⟩ := Run.exec_bind_eq_ok_iff.1 ran
      obtain rfl := Except.ok.inj (Prod.mk.inj made).1
      intro mem
      rcases cases_of_mem_literalSegments mem with ⟨_, same⟩ | ⟨-, _, same, -⟩
      · cases same
      · cases same
  | expansion expansion own =>
      simp only [partSegments, positionalValues?_of_not_isList host notList, pure_bind] at ran
      obtain ⟨value, t, -, made⟩ := Run.exec_bind_eq_ok_iff.1 ran
      obtain rfl := Except.ok.inj (Prod.mk.inj made).1
      rw [List.mem_singleton]
      split
      · rintro ⟨⟩
      · rintro ⟨⟩

theorem boundary_notMem_partsSegments {parts : List Part} (lists : ∀ part ∈ parts, part.isList = false)
    {quote : Option Quote} {continues leading : Bool} {s s' : Session World} {segments : List Segment}
    (ran : (partsSegments host quote continues leading parts).exec s = (.ok segments, s')) :
    .boundary ∉ segments := by
  induction parts generalizing leading s segments with
  | nil =>
      obtain rfl := Except.ok.inj (Prod.mk.inj ran).1
      exact List.not_mem_nil
  | cons part parts ih =>
      rw [List.forall_mem_cons] at lists
      obtain ⟨first, t, here, later⟩ := Run.exec_bind_eq_ok_iff.1 ran
      obtain ⟨rest, u, there, made⟩ := Run.exec_bind_eq_ok_iff.1 later
      obtain ⟨rfl, rfl⟩ : first ++ rest = segments ∧ u = s' := by simpa using made
      rw [List.mem_append, not_or]
      exact ⟨boundary_notMem_partSegments host lists.1 here, ih lists.2 there⟩

/-- An assignment begins with the first character of a name. -/
theorem exists_isNameStart_of_beginsAssignment {text : Text} (h : beginsAssignment text = true) :
    ∃ c rest, text = c :: rest ∧ Text.isNameStart c = true := by
  have named : Text.isName (text.takeWhile Text.isNameChar) = true := by
    unfold beginsAssignment at h
    split at h
    · exact h
    · exact h
    · cases h
  cases text with
  | nil => cases named
  | cons c rest =>
      refine ⟨c, rest, rfl, ?_⟩
      rw [List.takeWhile_cons] at named
      split at named
      · exact (Bool.and_eq_true_iff.1 named).1
      · cases named

/-- A character of a name is neither a tilde nor a backslash. -/
theorem ne_of_isNameStart {c : Char} (h : Text.isNameStart c = true) : c ≠ '~' ∧ c ≠ '\\' := by
  constructor <;> rintro rfl <;> cases h

/-- Text that begins with a name has no tilde prefix, and its first character is kept. -/
theorem literalSegments_of_isNameStart {c : Char} (h : Text.isNameStart c = true) (s : Session World) (rest : Text)
    (leading continues : Bool) :
    ∃ literal, literalSegments host s (c :: rest) none leading continues = [.fixed literal false] ∧
      literal.text ≠ [] := by
  obtain ⟨tilde, backslash⟩ := ne_of_isNameStart h
  have none : s.tildePrefix? host (c :: rest) continues = none := by
    unfold Session.tildePrefix?
    split
    · next same => exact absurd (List.cons.inj same).1 tilde
    · rfl
  refine ⟨Literal.ofUnquoted (c :: rest), ?_, ?_⟩
  · simp only [literalSegments, none, ite_self]
  · rw [ofUnquoted_cons backslash]
    exact List.cons_ne_nil _ _

/-- The first segment of an assignment anchors a field. -/
theorem any_anchors_of_isAssignment {word : Word} (assignment : word.isAssignment = true) {s s' : Session World}
    {segments : List Segment} (ran : (wordSegments host word).exec s = (.ok segments, s')) :
    segments.any Segment.anchors = true := by
  unfold Word.isAssignment at assignment
  split at assignment
  · next text parts =>
    obtain ⟨c, rest, rfl, start⟩ := exists_isNameStart_of_beginsAssignment assignment
    obtain ⟨first, t, here, later⟩ := Run.exec_bind_eq_ok_iff.1 ran
    obtain ⟨others, u, -, made⟩ := Run.exec_bind_eq_ok_iff.1 later
    obtain ⟨literal, alone, ne⟩ := literalSegments_of_isNameStart host start s rest true (parts.length + 1 > 1)
    have head : first = [.fixed literal false] := (Except.ok.inj (Prod.mk.inj here).1).symm.trans alone
    obtain ⟨rfl, -⟩ : first ++ others = segments ∧ u = s' := by simpa using made
    simp [head, Segment.anchors, ne]
  · cases assignment

/-! ### Arguments -/

/-- Expanding a word into segments does not change whether patterns are matched against files. -/
theorem noglob_wordSegments (word : Word) {s : Session World} (noglob : s.shell.options.noglob = true) :
    ((wordSegments host word).exec s).2.shell.options.noglob = true := by
  have kept : host.Maintains (fun s => s.shell.options.noglob = true) (fun _ => True) :=
    { hard := fun _ => trivial
      define := fun _ _ _ holds => holds
      advance := fun _ _ holds => holds
      command := fun _ => runCommand_ensures id fun _ holds => ⟨holds, trivial⟩
      start := fun _ => startPaths_ensures id fun _ holds => ⟨holds, trivial⟩ }
  have run : Run.Ensures _ _ (wordSegments host word) :=
    kept.coupling.rel_wordSegments fun node _ => kept.admits node
  exact (run noglob).1

/-- **Assignments are never split.**  Take an assignment that has no positional list among its parts, in a session in
which patterns are not matched against files.  Expanding it is expanding it into segments, and joining their texts to
one argument: whatever the separators are, whatever the expansions in it give, and with the same errors. -/
theorem expandWord_assignment {word : Word} (assignment : word.isAssignment = true)
    (lists : ∀ part ∈ word.parts, part.isList = false) {s : Session World}
    (noglob : s.shell.options.noglob = true) :
    (expandWord host word).exec s =
      (((wordSegments host word).exec s).1.map fun segments => [segments.flatMap Segment.text],
        ((wordSegments host word).exec s).2) := by
  have unquoted : word.quote = none := by
    unfold Word.isAssignment at assignment
    split at assignment
    · rfl
    · cases assignment
  have after := noglob_wordSegments host word noglob
  rw [expandWord, unquoted]
  dsimp only
  rcases ran : (wordSegments host word).exec s with ⟨error | segments, s'⟩ <;> rw [ran] at after
  · rw [expandComposite, Run.exec_bind_of_error ran]
    rfl
  · have inner := boundary_notMem_partsSegments host lists ran
    rw [exec_expandComposite_of_ok ran, if_pos after, Word.separators, if_pos assignment, splitSegments_none inner,
      if_pos (any_anchors_of_isAssignment host assignment ran)]
    rfl

/-! ### Separators in the values

The word is `x=$a$b"$b"`, where `a` is nothing but separators and `b` is empty. -/

/-- The parts `x=`, `$a`, `$b` and `"$b"`. -/
def Word.blankAssignment : Word :=
  .mk
    [.literal ['x', '='] none, .expansion (.variable ['a']) none, .expansion (.variable ['b']) none,
      .expansion (.variable ['b']) (some .double)] none

/-- A session without pathname expansion in which `a` holds separators of both kinds and `b` is empty. -/
def Session.blankValues : Session Unit :=
  (Session.blank.onShell ({ · with options := { noglob := true } })).onShell fun sh =>
    ((sh.define "IFS".toList [' ', ':']).define ['a'] [' ', ':', ' ', ':']).define ['b'] []

/-- The statement at this word: all separators are kept, and there is one argument. -/
theorem expandWord_blankAssignment :
    Word.blankAssignment.isAssignment = true ∧ (∀ part ∈ Word.blankAssignment.parts, part.isList = false) ∧
      Session.blankValues.shell.options.noglob = true ∧
      (expandWord Host.idle .blankAssignment).exec .blankValues =
        (.ok [['x', '=', ' ', ':', ' ', ':']], .blankValues) := by
  have lists : ∀ part ∈ Word.blankAssignment.parts, part.isList = false := by
    simp [Word.blankAssignment, Part.isList, Expansion.isList, PositionalList.ofName?]
  refine ⟨rfl, lists, rfl, ?_⟩
  rw [expandWord_assignment Host.idle rfl lists rfl]
  rfl

end ShellWord
