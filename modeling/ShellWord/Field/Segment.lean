import ShellWord.Field.Ifs
import ShellWord.Word.Basic
import ShellWord.Word.Escape

/-!
# Segments and fields

Expanding a word gives segments: fixed text, which joins the field under construction, unquoted
results, which are split, and the breaks between the parameters of `$@`.  Going over the segments
from left to right builds the fields.  A field exists once something anchored it: quoted text, even
when empty, and any non-empty text.  A separator does not end a field at once; it marks that the
next anchoring content begins a new one.

## Main definitions

* `Segment`: one piece of an expanded word
* `Field`: a field, before pathname expansion
* `Content`: what fields can be built from
* `Builder`: the fields so far and the one under construction
* `splitSegments`: from segments to fields
-/

namespace ShellWord

/-- A piece of an expanded word. -/
inductive Segment where
  /-- Text that is never split, with its pattern; quoted text anchors a field even when empty. -/
  | fixed (literal : Literal) (quoted : Bool)
  /-- An unquoted result, to be split. -/
  | splittable (text : Text)
  /-- The boundary between two parameters of `$@`. -/
  | boundary
  deriving DecidableEq, Repr

/-- Quoted text as a segment. -/
def Segment.quoted (text : Text) : Segment :=
  .fixed (Literal.quoted text) true

/-- A field of a word, before pathname expansion: its text and its pattern. -/
abbrev Field := Literal

/-- What fields can be built from: contents that can be joined, one for fixed text and one for a word of
a result. -/
class Content (α : Type) extends Append α where
  empty : α
  fixed (literal : Literal) : α
  word (text : Text) : α

/-- A field joins texts and patterns; the words of a result are active. -/
instance : Content Field where
  empty := .empty
  fixed literal := literal
  word := .active

@[simp] theorem Content.empty_field : (Content.empty : Field) = .empty := rfl

@[simp] theorem Content.fixed_field (literal : Literal) : (Content.fixed literal : Field) = literal := rfl

@[simp] theorem Content.word_field (text : Text) : (Content.word text : Field) = .active text := rfl

/-- The state of going over the segments of a word. -/
structure Builder (α : Type) where
  /-- the finished fields, the latest first -/
  done : List α
  /-- the field under construction -/
  current : α
  /-- the field under construction exists even if it is empty -/
  anchored : Bool
  /-- the next anchoring content begins a new field -/
  pending : Bool
  deriving DecidableEq, Repr

namespace Builder

variable {α : Type} [Content α]

/-- Nothing seen yet. -/
def start : Builder α := ⟨[], Content.empty, false, false⟩

/-- End the field under construction; it counts only if it was anchored. -/
def flush (b : Builder α) : Builder α :=
  { done := if b.anchored then b.current :: b.done else b.done
    current := Content.empty, anchored := false, pending := false }

/-- Add content to the field under construction, or to a new one if a separator is pending and the
content anchors a field. -/
def append (b : Builder α) (content : α) (anchors : Bool) : Builder α :=
  let b := if b.pending && anchors then b.flush else b
  { b with current := b.current ++ content, anchored := b.anchored || anchors }

/-- A separator was seen. -/
def separate (b : Builder α) : Builder α :=
  { b with pending := true }

/-- Add the later words of a split text; a separator stands before each of them. -/
def appendWords (b : Builder α) (words : List Text) : Builder α :=
  words.foldl (fun b word => b.separate.append (Content.word word) true) b

/-- Add a split text. -/
def appendSplit (b : Builder α) (split : Ifs.Split) : Builder α :=
  let b := if split.leading then b.separate else b
  let b :=
    match split.words with
    | [] => b
    | word :: words => (b.append (Content.word word) true).appendWords words
  if split.trailing then b.separate else b

/-- Add a segment.  Without separators unquoted results are joined as they are. -/
def add (ifs : Option Ifs) (b : Builder α) : Segment → Builder α
  | .fixed literal quoted => b.append (Content.fixed literal) (quoted || !literal.text.isEmpty)
  | .splittable text =>
    match ifs with
    | none => b.append (Content.word text) (!text.isEmpty)
    | some ifs => b.appendSplit (ifs.split text)
  | .boundary => b.flush

/-- The fields, in order. -/
def fields (b : Builder α) : List α :=
  b.flush.done.reverse

/-- The fields that segments make, of any kind of content. -/
def build (ifs : Option Ifs) (segments : List Segment) : List α :=
  (segments.foldl (Builder.add ifs) .start).fields

end Builder

/-- The fields of a word, from its segments.  With `none` for the separators nothing is split. -/
def splitSegments (ifs : Option Ifs) (segments : List Segment) : List Field :=
  Builder.build ifs segments

/-- The segments that a positional list contributes.  `"$*"` is one text joined by the separator;
otherwise every parameter is a segment of its own, with a boundary between two of them, so that an
empty list contributes nothing at all. -/
def positionalSegments (list : PositionalList) (quoted : Bool) (separator : Text)
    (params : List Text) : List Segment :=
  if quoted && list == .star then
    [.quoted (List.intercalate separator params)]
  else
    (params.map fun param => if quoted then Segment.quoted param else .splittable param).intersperse
      .boundary

end ShellWord
