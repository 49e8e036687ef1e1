import ShellWord.Proofs.Quoting
import ShellWord.Proofs.Splice

/-!
# Quoting a word, or each of its parts

The word `"a$x"` can be handed over in two ways: as a word in double quotes, or as a composite word each of
whose parts is in double quotes.  The two go different ways.  The composite word is asked whether it is an
assignment, its segments are split at the separators, and its fields are matched against files; the quoted
one skips all of that, and puts one empty argument in the place of none.  `expandWord_quotedParts` says that
nobody can tell the difference, once there is a part at all.

Both are brought to the same form, the splice of the texts of the parts, which `Proofs.Splice` has for the
quoted word.  On the way the composite word passes two tests that it cannot fail: a word without unquoted
literals and unquoted results is harmless for want of anything that could do harm (`harmless_of_quotedParts`),
so that no field of it is active, and how it is split does not matter since quoted segments are never
split.

Without parts the two differ: the composite word is no argument, and the quoted one is an empty one.
-/

namespace ShellWord

variable {World : Type} (host : Host World)

/-! ### Segments -/

/-- Double quotes count in the same way around a part and around its word. -/
theorem partSegments_of_quote_double {part : Part} (quoted : part.quote = some .double)
    (continues leading : Bool) :
    partSegments host none continues leading part =
      partSegments host (some .double) continues leading part := by
  cases part with
  | literal text own =>
      obtain rfl : own = some .double := quoted
      rfl
  | expansion expansion own =>
      obtain rfl : own = some .double := quoted
      rfl

theorem partsSegments_of_quote_double {parts : List Part}
    (quoted : ∀ part ∈ parts, part.quote = some .double) (continues leading : Bool) :
    partsSegments host none continues leading parts =
      partsSegments host (some .double) continues leading parts := by
  induction parts generalizing leading with
  | nil => rfl
  | cons part parts ih =>
      rw [List.forall_mem_cons] at quoted
      rw [partsSegments, partsSegments, partSegments_of_quote_double host quoted.1, ih quoted.2]

/-- The segments of a composite word with quoted parts are the texts of the parts, quoted. -/
theorem wordSegments_quotedParts {parts : List Part}
    (quoted : ∀ part ∈ parts, part.quote = some .double) :
    wordSegments host (.mk parts none) =
      parts.mapM (quotedTexts host) >>= fun lists => pure (lists.flatMap quotedSegments) := by
  unfold wordSegments
  rw [Word.quote_mk, Word.parts_mk, partsSegments_of_quote_double host quoted,
    partsSegments_doubleQuoted]

/-- No quoted segment is a result to be split. -/
theorem splittable_not_mem_quotedSegments (text : Text) (lists : List (List Text)) :
    .splittable text ∉ lists.flatMap quotedSegments := by
  intro mem
  obtain ⟨list, -, mem⟩ := List.mem_flatMap.1 mem
  rcases mem_of_mem_intersperse mem with same | mem
  · cases same
  · obtain ⟨param, -, same⟩ := List.mem_map.1 mem
    cases same

/-! ### Fields -/

/-- Where every part is quoted, nothing unquoted is active. -/
theorem harmless_of_quotedParts {parts : List Part}
    (quoted : ∀ part ∈ parts, part.quote = some .double) (extglob : Bool)
    (lists : List (List Text)) :
    Harmless extglob (.mk parts none) (lists.flatMap quotedSegments) where
  literals _ mem := nomatch quoted _ mem
  results text mem := absurd mem (splittable_not_mem_quotedSegments text lists)

/-- **The fields of quoted parts are taken as they are**, whatever files and options there are, and wherever
the separators are. -/
theorem exec_expandComposite_quotedParts {parts : List Part}
    (quoted : ∀ part ∈ parts, part.quote = some .double) {s s' : Session World}
    {lists : List (List Text)} (ran : (parts.mapM (quotedTexts host)).exec s = (.ok lists, s')) :
    (expandComposite host (.mk parts none)).exec s = (.ok (lists.foldl splice []), s') := by
  have segments : (wordSegments host (.mk parts none)).exec s =
      (.ok (lists.flatMap quotedSegments), s') := by
    rw [wordSegments_quotedParts host quoted, Run.exec_bind_of_ok ran, Run.exec_pure]
  have harmless := harmless_of_quotedParts quoted s'.shell.globbing.extglob lists
  have inactive : ∀ pieces ∈ fieldPieces (Word.separators (.mk parts none) s')
      (lists.flatMap quotedSegments), ¬ Slips (pieces.flatMap FieldPiece.marks) :=
    fun pieces mem => harmless.not_slips rfl segments
      (fun text result => absurd result (splittable_not_mem_quotedSegments text lists)) mem
  rw [exec_expandComposite_of_ok segments, expandFieldList_of_not_slips harmless rfl segments inactive,
    ite_self, text_splitSegments_quotedSegments]

/-- **Quoting a word and quoting each of its parts are the same.**  Take parts, at least one, all of them in
double quotes: the composite word and the word in double quotes have the same outcome from every session, be
it arguments or an error, and leave the same session. -/
theorem expandWord_quotedParts {parts : List Part} (nonempty : parts ≠ [])
    (quoted : ∀ part ∈ parts, part.quote = some .double) :
    expandWord host (.mk parts none) = expandWord host (.mk parts (some .double)) := by
  rw [expandWord_eq_splice]
  apply Run.ext
  intro s
  show (expandComposite host (.mk parts none)).exec s = _
  rcases ran : (parts.mapM (quotedTexts host)).exec s with ⟨error | lists, s'⟩
  · rw [Run.exec_bind_of_error ran, expandComposite, wordSegments_quotedParts host quoted, bind_assoc,
      Run.exec_bind_of_error ran]
  · rw [exec_expandComposite_quotedParts host quoted ran, Run.exec_bind_of_ok ran, Run.exec_pure,
      if_neg (by simpa using nonempty)]

/-! ### A star before the parameters

The word is `"x=*$@"`, which as a text is an assignment with a wildcard, and where a pattern without matches
is an error. -/

/-- `x=*` and `$@`, both in double quotes. -/
def Part.starAndList : List Part :=
  [.literal ['x', '=', '*'] (some .double), .expansion (.variable ['@']) (some .double)]

/-- A session with two parameters, the second of which has a blank in it, and with `failglob` on. -/
def Session.twoParameters : Session Unit :=
  Session.blank.onShell
    ({ · with positional := [['a'], ['b', ' ', 'c']], globbing := { failglob := true } })

/-- The statement at this word; what is left to do on the quoted side needs no separators and no files. -/
theorem expandWord_starAndList :
    Part.starAndList ≠ [] ∧ (∀ part ∈ Part.starAndList, part.quote = some .double) ∧
      (expandWord Host.idle (.mk Part.starAndList none)).exec .twoParameters =
        (.ok [['x', '=', '*', 'a'], ['b', ' ', 'c']], .twoParameters) := by
  have quoted : ∀ part ∈ Part.starAndList, part.quote = some .double := by
    simp [Part.starAndList, Part.quote]
  have nonempty : Part.starAndList ≠ [] := List.cons_ne_nil _ _
  refine ⟨nonempty, quoted, ?_⟩
  rw [expandWord_quotedParts Host.idle nonempty quoted]
  rfl

end ShellWord
