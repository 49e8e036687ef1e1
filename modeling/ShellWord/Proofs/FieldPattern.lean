import ShellWord.Proofs.Files.Name
import ShellWord.Proofs.Quoting

/-!
# The text and the pattern of a field

A field has a text and a pattern, and both are put together piece by piece.  The text is the argument if nothing is
matched, and the pattern is what is matched; where it has no active characters, they had better be the same thing
written in two ways: the pattern without its backslashes is the text.

That this holds of the pieces is not enough.  A backslash at the end of a pattern stands for itself, and once there is
another piece behind it, it is gone and takes the meaning from the first character there.  So the invariant is about
what may follow: a literal is in step if removing the backslashes from its pattern *and anything behind it* gives its
text and then the rest without its backslashes (`Literal.InStep`).  In this form it passes from two literals to their
concatenation, and from there to fields.

It holds of everything but the results of unquoted expansions, whose characters go into the pattern as they are.  A
word without such expansions has three sources of text left, literals, quoted text and tilde directories, and
`unescape_pattern_of_mem_splitSegments` says that its fields are in step.
-/

namespace ShellWord

namespace Literal

/-- In front of any text, the pattern without its backslashes is the text of the literal. -/
def InStep (literal : Literal) : Prop :=
  ∀ rest, Pattern.unescape (literal.pattern ++ rest) = literal.text ++ Pattern.unescape rest

/-! ### Literals in step -/

theorem InStep.unescape_pattern {literal : Literal} (h : literal.InStep) :
    Pattern.unescape literal.pattern = literal.text := by
  have alone := h []
  rwa [List.append_nil, Pattern.unescape, List.append_nil] at alone

theorem inStep_empty : empty.InStep := fun _ => rfl

/-- **One literal after the other.** -/
theorem InStep.append {a b : Literal} (ha : a.InStep) (hb : b.InStep) : (a ++ b).InStep := by
  intro rest
  rw [pattern_append, text_append, List.append_assoc, ha, hb, List.append_assoc]

/-- A character with a backslash in front of it is complete. -/
theorem inStep_escaped (c : Char) : InStep ⟨[c], ['\\', c]⟩ := fun _ => rfl

theorem inStep_bare {c : Char} (backslash : c ≠ '\\') : InStep ⟨[c], [c]⟩ :=
  fun rest => Pattern.unescape_cons backslash rest

theorem inStep_escapeChar (c : Char) : InStep ⟨[c], Pattern.escapeChar c⟩ := by
  unfold Pattern.escapeChar
  split
  · exact inStep_escaped c
  · next plain => exact inStep_bare (Pattern.ne_backslash_of_not_isSpecial (Bool.eq_false_iff.2 plain))

theorem inStep_quoted (text : Text) : (quoted text).InStep := by
  induction text with
  | nil => exact inStep_empty
  | cons c text ih => exact (inStep_escapeChar c).append ih

/-- A backslash of unquoted text is removed, kept or vanishes with a newline, together with what is behind it. -/
theorem inStep_escapedLiteral (c : Char) : (escapedLiteral c).InStep := by
  unfold escapedLiteral
  split
  · exact inStep_empty
  · split
    · exact inStep_escapeChar c
    · next kept =>
      have backslash : c ≠ '\\' := by
        rintro rfl
        exact kept rfl
      exact (inStep_escaped '\\').append (inStep_bare backslash)

/-- **Unquoted text is in step**, whatever backslashes are in it. -/
theorem inStep_ofUnquoted (raw : Text) : (ofUnquoted raw).InStep := by
  -- a backslash is read with the character behind it, so the induction takes one or two characters at a time
  fun_induction unescapedChars raw with
  | case1 => exact inStep_empty
  | case2 => exact inStep_escaped '\\'
  | case3 c t ih =>
      rw [ofUnquoted_backslash]
      exact (inStep_escapedLiteral c).append ih
  | case4 c t single pair ih =>
      have backslash : c ≠ '\\' := Text.ne_of_single_of_pair single pair
      rw [ofUnquoted_cons backslash]
      exact (inStep_bare backslash).append ih

end Literal

/-! ### Fields in step -/

/-- The segment is no unquoted result, and its content is in step. -/
def Segment.InStep : Segment → Prop
  | .fixed literal _ => literal.InStep
  | .splittable _ => False
  | .boundary => True

theorem inStep_joinPieces {pieces : List FieldPiece} (h : ∀ piece ∈ pieces, piece.literal.InStep) :
    (joinPieces pieces).InStep := by
  induction pieces using List.reverseRecOn with
  | nil => exact Literal.inStep_empty
  | append_singleton pieces piece ih =>
      rw [joinPieces_concat]
      exact (ih fun other mem => h other (List.mem_append_left _ mem)).append (h piece List.mem_concat_self)

/-- **The fields of segments in step are in step**, wherever the separators are. -/
theorem inStep_of_mem_splitSegments {segments : List Segment} (h : ∀ segment ∈ segments, segment.InStep)
    {ifs : Option Ifs} {field : Field} (mem : field ∈ splitSegments ifs segments) : field.InStep := by
  rw [← map_joinPieces_fieldPieces] at mem
  obtain ⟨pieces, inside, rfl⟩ := List.mem_map.1 mem
  refine inStep_joinPieces fun piece member => ?_
  have source := from_of_mem_fieldPieces inside member
  cases piece with
  | fixed literal =>
      obtain ⟨quoted, contributed⟩ := source
      exact h _ contributed
  | word part =>
      obtain ⟨text, result, -⟩ := source
      exact (h _ result).elim

/-! ### Words without unquoted expansions -/

/-- The part is an expansion that neither its own quotes nor those around the word protect. -/
def Part.isUnquotedExpansion (quote : Option Quote) : Part → Bool
  | .literal _ _ => false
  | .expansion _ own => !(quote.isSome || own.isSome)

/-- Some expansion of the word is unquoted. -/
def Word.hasUnquotedExpansion (word : Word) : Bool :=
  word.parts.any (Part.isUnquotedExpansion word.quote)

variable {World : Type} {host : Host World} {s s' : Session World} {segments : List Segment}

theorem inStep_of_mem_literalSegments {text : Text} {quote : Option Quote} {leading continues : Bool}
    {segment : Segment} (mem : segment ∈ literalSegments host s text quote leading continues) :
    segment.InStep := by
  rcases cases_of_mem_literalSegments mem with ⟨inner, rfl⟩ | ⟨-, rest, rfl, -⟩
  · exact Literal.inStep_quoted inner
  · exact Literal.inStep_ofUnquoted rest

theorem inStep_of_mem_positionalSegments {list : PositionalList} {separator : Text} {params : List Text}
    {segment : Segment} (mem : segment ∈ positionalSegments list true separator params) : segment.InStep := by
  unfold positionalSegments at mem
  split at mem
  · obtain rfl := List.mem_singleton.1 mem
    exact Literal.inStep_quoted _
  · rcases mem_of_mem_intersperse mem with rfl | inside
    · trivial
    · obtain ⟨param, -, rfl⟩ := List.mem_map.1 inside
      exact Literal.inStep_quoted param

/-- The segments of a part that is no unquoted expansion. -/
theorem inStep_of_mem_partSegments {quote : Option Quote} {continues leading : Bool} {part : Part}
    (quoted : part.isUnquotedExpansion quote = false)
    (ran : (partSegments host quote continues leading part).exec s = (.ok segments, s')) :
    ∀ segment ∈ segments, segment.InStep := by
  intro segment mem
  cases part with
  | literal text own =>
      obtain ⟨t, _, -, ran⟩ := Run.exec_bind_eq_ok_iff.1 ran
      obtain rfl := Except.ok.inj (Prod.mk.inj ran).1
      exact inStep_of_mem_literalSegments mem
  | expansion expansion own =>
      have protects : (quote.isSome || own.isSome) = true := by
        simpa only [Part.isUnquotedExpansion, Bool.not_eq_false'] using quoted
      rw [partSegments, protects] at ran
      obtain ⟨values, t, -, ran⟩ := Run.exec_bind_eq_ok_iff.1 ran
      cases values with
      | some values =>
          obtain ⟨u, _, -, ran⟩ := Run.exec_bind_eq_ok_iff.1 ran
          obtain rfl := Except.ok.inj (Prod.mk.inj ran).1
          exact inStep_of_mem_positionalSegments mem
      | none =>
          obtain ⟨value, _, -, ran⟩ := Run.exec_bind_eq_ok_iff.1 ran
          obtain rfl := Except.ok.inj (Prod.mk.inj ran).1
          obtain rfl := List.mem_singleton.1 mem
          exact Literal.inStep_quoted value

theorem inStep_of_mem_partsSegments {quote : Option Quote} {continues leading : Bool} {parts : List Part}
    (quoted : ∀ part ∈ parts, part.isUnquotedExpansion quote = false)
    (ran : (partsSegments host quote continues leading parts).exec s = (.ok segments, s')) :
    ∀ segment ∈ segments, segment.InStep := by
  induction parts generalizing leading s segments with
  | nil =>
      obtain rfl := Except.ok.inj (Prod.mk.inj ran).1
      exact fun _ mem => absurd mem List.not_mem_nil
  | cons part parts ih =>
      rw [List.forall_mem_cons] at quoted
      obtain ⟨first, t, here, later⟩ := Run.exec_bind_eq_ok_iff.1 ran
      obtain ⟨rest, u, there, made⟩ := Run.exec_bind_eq_ok_iff.1 later
      obtain ⟨rfl, rfl⟩ : first ++ rest = segments ∧ u = s' := by simpa using made
      exact List.forall_mem_append.2 ⟨inStep_of_mem_partSegments quoted.1 here, ih quoted.2 there⟩

/-- **The pattern of a field without its backslashes is its text**, for the fields of every word without unquoted
expansions, in every session and with any separators or none.  In particular it is so for unquoted literal text,
whatever backslashes are in it. -/
theorem unescape_pattern_of_mem_splitSegments (host : Host World) :
    (∀ word s segments s', word.hasUnquotedExpansion = false →
      (wordSegments host word).exec s = (.ok segments, s') →
      ∀ ifs, ∀ field ∈ splitSegments ifs segments, Pattern.unescape field.pattern = field.text) ∧
    (∀ raw, Pattern.unescape (Literal.ofUnquoted raw).pattern = (Literal.ofUnquoted raw).text) := by
  refine ⟨fun word s segments s' quoted ran ifs field mem => ?_,
    fun raw => (Literal.inStep_ofUnquoted raw).unescape_pattern⟩
  have parts : ∀ part ∈ word.parts, part.isUnquotedExpansion word.quote = false :=
    fun part inside => Bool.eq_false_iff.2 (List.any_eq_false.1 quoted part inside)
  exact (inStep_of_mem_splitSegments (inStep_of_mem_partsSegments parts ran) mem).unescape_pattern

/-! ### Backslashes from everywhere

The word is `~/\**\q\` and then `"$@"` without anything between them, where the home directory and the parameters have
backslashes and wildcards in them. -/

/-- A tilde prefix, an escaped and an unescaped wildcard, two backslashes that are kept, and the list. -/
def Word.mixedEscapes : Word :=
  .mk [.literal ['~', '/', '\\', '*', '*', '\\', 'q', '\\'] none, .expansion (.variable ['@']) (some .double)] none

/-- The home directory is `/\*`, and the parameters are `\` and `[`. -/
def Session.mixedEscapes : Session Unit :=
  (Session.blank.onShell (Shell.define "HOME".toList ['/', '\\', '*'])).onShell
    ({ · with positional := [['\\'], ['[']] })

/-- The segments of the word. -/
def Segment.mixedEscapes : List Segment :=
  [.quoted ['/', '\\', '*'],
    .fixed ⟨['/', '*', '*', '\\', 'q', '\\'], ['/', '\\', '*', '*', '\\', '\\', 'q', '\\', '\\']⟩ false,
    .quoted ['\\'], .boundary, .quoted ['[']]

/-- The statement at this word, with the standard separators: two fields are in step, and one of them has an active
character. -/
theorem unescape_pattern_mixedEscapes :
    Word.mixedEscapes.hasUnquotedExpansion = false ∧
      (wordSegments Host.idle .mixedEscapes).exec .mixedEscapes = (.ok Segment.mixedEscapes, .mixedEscapes) ∧
      ((splitSegments (some .standard) Segment.mixedEscapes).map Literal.text =
        ["/\\*/**\\q\\\\".toList, ['[']]) ∧
      ∀ field ∈ splitSegments (some .standard) Segment.mixedEscapes, Pattern.unescape field.pattern = field.text := by
  have quoted : Word.mixedEscapes.hasUnquotedExpansion = false := rfl
  have ran : (wordSegments Host.idle .mixedEscapes).exec .mixedEscapes =
      (.ok Segment.mixedEscapes, .mixedEscapes) := rfl
  refine ⟨quoted, ran, by decide, ?_⟩
  exact (unescape_pattern_of_mem_splitSegments Host.idle).1 _ _ _ _ quoted ran (some .standard)

end ShellWord
