import Mathlib.Data.List.Induction
import ShellWord.Field.Segment

/-!
# What fields are made of

`splitSegments` joins the contents of a field to one text and one pattern, and forgets where each
character came from.  Whether a character of the pattern is active can depend on that.  So this module
builds the fields a second time and keeps the contents apart: lists of pieces are contents too, and
`fieldPieces` gives, for every field, the list of its pieces.  By `from_of_mem_fieldPieces` every piece comes
from one of the segments.

The decisions of a builder depend on whether a segment is empty and on separators, and never on what was
joined before.  So a map that respects how contents are joined commutes with building
(`Content.Respected.map_build`), and joining the pieces gives the fields (`map_joinPieces_fieldPieces`).
-/

namespace ShellWord

/-- A piece of a field: a fixed content, or a word of a result that was split. -/
inductive FieldPiece where
  | fixed (literal : Literal)
  | word (text : Text)
  deriving DecidableEq, Repr

/-- What a piece contributes to its field. -/
def FieldPiece.literal : FieldPiece → Literal
  | .fixed literal => literal
  | .word text => .active text

/-- The field that is made of pieces. -/
def joinPieces (pieces : List FieldPiece) : Field :=
  pieces.foldl (fun field piece => field ++ piece.literal) .empty

@[simp] theorem joinPieces_nil : joinPieces [] = .empty := rfl

theorem joinPieces_concat (pieces : List FieldPiece) (piece : FieldPiece) :
    joinPieces (pieces ++ [piece]) = joinPieces pieces ++ piece.literal := by
  simp [joinPieces]

theorem joinPieces_append (pieces pieces' : List FieldPiece) :
    joinPieces (pieces ++ pieces') = joinPieces pieces ++ joinPieces pieces' := by
  induction pieces' using List.reverseRecOn with
  | nil => rw [List.append_nil, joinPieces_nil, Literal.append_empty]
  | append_singleton pieces' piece ih =>
      rw [← List.append_assoc, joinPieces_concat, ih, joinPieces_concat, Literal.append_assoc]

/-- The pattern of a field is that of its pieces, one after the other. -/
theorem pattern_joinPieces (pieces : List FieldPiece) :
    (joinPieces pieces).pattern = pieces.flatMap fun piece => piece.literal.pattern := by
  induction pieces using List.reverseRecOn with
  | nil => rfl
  | append_singleton pieces piece ih =>
      rw [joinPieces_concat, Literal.pattern_append, ih]
      simp

/-- Pieces that are kept apart. -/
instance : Content (List FieldPiece) where
  empty := []
  fixed literal := [.fixed literal]
  word text := [.word text]

/-! ### Maps of contents -/

/-- A map of contents respects how fields are built from them. -/
structure Content.Respected {α β : Type} [Content α] [Content β] (f : α → β) : Prop where
  empty : f Content.empty = Content.empty
  append : ∀ a b, f (a ++ b) = f a ++ f b
  fixed : ∀ literal, f (Content.fixed literal) = Content.fixed literal
  word : ∀ text, f (Content.word text) = Content.word text

/-- The builder with other contents. -/
def Builder.map {α β : Type} (f : α → β) (b : Builder α) : Builder β :=
  ⟨b.done.map f, f b.current, b.anchored, b.pending⟩

namespace Content.Respected

variable {α β : Type} [Content α] [Content β] {f : α → β} (h : Respected f)

include h

theorem map_flush (b : Builder α) : b.flush.map f = (b.map f).flush := by
  cases anchored : b.anchored <;> simp [Builder.map, Builder.flush, anchored, h.empty]

theorem map_append (b : Builder α) (content : α) (anchors : Bool) :
    (b.append content anchors).map f = (b.map f).append (f content) anchors := by
  unfold Builder.append
  rw [show (b.map f).pending = b.pending from rfl]
  split
  · rw [← h.map_flush]
    simp [Builder.map, h.append]
  · simp [Builder.map, h.append]

omit h [Content α] [Content β] in
theorem map_separate (b : Builder α) : b.separate.map f = (b.map f).separate := rfl

theorem map_appendWords (b : Builder α) (words : List Text) :
    (b.appendWords words).map f = (b.map f).appendWords words := by
  unfold Builder.appendWords
  induction words generalizing b with
  | nil => rfl
  | cons word words ih =>
      rw [List.foldl_cons, List.foldl_cons, ih, h.map_append, map_separate, h.word]

theorem map_appendSplit (b : Builder α) (split : Ifs.Split) :
    (b.appendSplit split).map f = (b.map f).appendSplit split := by
  obtain ⟨words, leading, trailing⟩ := split
  cases words with
  | nil =>
      cases leading <;> cases trailing <;> rfl
  | cons word words =>
      have joined (b : Builder α) :
          ((b.append (Content.word word) true).appendWords words).map f =
            ((b.map f).append (Content.word word) true).appendWords words := by
        rw [h.map_appendWords, h.map_append, h.word]
      cases leading <;> cases trailing <;> simp [Builder.appendSplit, joined, map_separate]

theorem map_add (ifs : Option Ifs) (b : Builder α) (segment : Segment) :
    (b.add ifs segment).map f = (b.map f).add ifs segment := by
  cases segment with
  | fixed literal quoted =>
      rw [Builder.add, h.map_append, h.fixed, Builder.add]
  | splittable text =>
      cases ifs with
      | none => rw [Builder.add, h.map_append, h.word, Builder.add]
      | some ifs => exact h.map_appendSplit b _
  | boundary => exact h.map_flush b

theorem map_foldl_add (ifs : Option Ifs) (b : Builder α) (segments : List Segment) :
    (segments.foldl (Builder.add ifs) b).map f = segments.foldl (Builder.add ifs) (b.map f) := by
  induction segments generalizing b with
  | nil => rfl
  | cons segment segments ih => rw [List.foldl_cons, List.foldl_cons, ih, h.map_add]

/-- **Building commutes with maps of contents.** -/
theorem map_build (ifs : Option Ifs) (segments : List Segment) :
    (Builder.build ifs segments).map f = Builder.build ifs segments := by
  have start : (Builder.start : Builder α).map f = .start := by
    rw [Builder.map, Builder.start, h.empty]
    rfl
  unfold Builder.build Builder.fields
  rw [← start, ← h.map_foldl_add, ← h.map_flush, List.map_reverse]
  rfl

end Content.Respected

/-- The pieces of the fields of a word, from its segments. -/
def fieldPieces (ifs : Option Ifs) (segments : List Segment) : List (List FieldPiece) :=
  Builder.build ifs segments

theorem Content.respected_joinPieces : Content.Respected joinPieces where
  empty := rfl
  append := joinPieces_append
  fixed literal := Literal.empty_append literal
  word text := Literal.empty_append (.active text)

/-- **Joined, the pieces are the fields.** -/
theorem map_joinPieces_fieldPieces (ifs : Option Ifs) (segments : List Segment) :
    (fieldPieces ifs segments).map joinPieces = splitSegments ifs segments :=
  Content.respected_joinPieces.map_build ifs segments

/-! ### Where pieces come from -/

/-- Every piece of the field under construction, and of the finished ones, has the property. -/
def Builder.All (P : FieldPiece → Prop) (b : Builder (List FieldPiece)) : Prop :=
  (∀ pieces ∈ b.done, ∀ piece ∈ pieces, P piece) ∧ ∀ piece ∈ b.current, P piece

namespace Builder.All

variable {P : FieldPiece → Prop} {b : Builder (List FieldPiece)}

theorem start : Builder.start.All P := by
  constructor
  · intro pieces mem
    cases mem
  · intro piece mem
    cases mem

theorem flush (h : b.All P) : b.flush.All P := by
  refine ⟨fun pieces mem => ?_, fun piece mem => nomatch mem⟩
  unfold Builder.flush at mem
  split at mem
  · rcases List.mem_cons.1 mem with rfl | mem
    · exact h.2
    · exact h.1 pieces mem
  · exact h.1 pieces mem

theorem append (h : b.All P) {piece : FieldPiece} (hp : P piece) (anchors : Bool) :
    (b.append [piece] anchors).All P := by
  have joins {b : Builder (List FieldPiece)} (h : b.All P) :
      Builder.All P { b with current := b.current ++ [piece], anchored := b.anchored || anchors } := by
    refine ⟨h.1, fun other mem => ?_⟩
    rcases List.mem_append.1 mem with mem | mem
    · exact h.2 other mem
    · rw [List.mem_singleton.1 mem]
      exact hp
  unfold Builder.append
  split
  · exact joins h.flush
  · exact joins h

theorem separate (h : b.All P) : b.separate.All P := h

theorem appendWords (h : b.All P) {words : List Text} (hw : ∀ word ∈ words, P (.word word)) :
    (b.appendWords words).All P := by
  unfold Builder.appendWords
  induction words generalizing b with
  | nil => exact h
  | cons word words ih =>
      exact ih (h.separate.append (hw word List.mem_cons_self) true)
        fun other mem => hw other (List.mem_cons_of_mem _ mem)

theorem appendSplit (h : b.All P) {split : Ifs.Split} (hw : ∀ word ∈ split.words, P (.word word)) :
    (b.appendSplit split).All P := by
  obtain ⟨words, leading, trailing⟩ := split
  cases words with
  | nil => cases leading <;> cases trailing <;> exact h
  | cons word words =>
      have added {b : Builder (List FieldPiece)} (h : b.All P) :
          ((b.append [.word word] true).appendWords words).All P :=
        (h.append (hw word List.mem_cons_self) true).appendWords
          fun other mem => hw other (List.mem_cons_of_mem _ mem)
      cases leading <;> cases trailing <;> exact added h

end Builder.All

/-- The piece was contributed by one of the segments: a fixed one as a whole, or a word out of the
characters of a result. -/
def FieldPiece.From (segments : List Segment) : FieldPiece → Prop
  | .fixed literal => ∃ quoted, .fixed literal quoted ∈ segments
  | .word part => ∃ text, .splittable text ∈ segments ∧ part ⊆ text

/-- What follows a delimiter is part of the text. -/
theorem Ifs.dropDelimiter_subset (ifs : Ifs) (t : Text) : ifs.dropDelimiter t ⊆ t := by
  have soft := (List.dropWhile_sublist ifs.isSoft (l := t)).subset
  unfold Ifs.dropDelimiter
  split
  · exact List.nil_subset t
  · next c rest h =>
    rw [h] at soft
    split
    · intro d mem
      exact soft (List.mem_cons_of_mem _ ((List.dropWhile_sublist _).subset mem))
    · exact soft

/-- The first field ends at a separator, and the others follow its delimiter. -/
theorem Ifs.fields_eq (ifs : Ifs) (t : Text) :
    ifs.fields t =
      match t.dropWhile fun c => !ifs.isSeparator c with
      | [] => ([t.takeWhile fun c => !ifs.isSeparator c], false)
      | c :: rest =>
        match ifs.dropDelimiter (c :: rest) with
        | [] => ([t.takeWhile fun c => !ifs.isSeparator c], true)
        | d :: next =>
          ((t.takeWhile fun c => !ifs.isSeparator c) :: (ifs.fields (d :: next)).1,
            (ifs.fields (d :: next)).2) := by
  rw [Ifs.fields]
  split
  · next h => simp only [h]
  · next c rest h =>
    simp only [h]
    split
    · next following _ => simp only [following]
    · next following _ => simp only [following]

/-- Fields have no characters but those of the text. -/
theorem Ifs.subset_of_mem_fields (ifs : Ifs) (t : Text) :
    ∀ word ∈ (ifs.fields t).1, word ⊆ t := by
  -- the fields behind a delimiter are those of a shorter text, so the induction is on the length
  induction h : t.length using Nat.strongRecOn generalizing t with
  | ind n ih =>
      subst h
      have first : t.takeWhile (fun c => !ifs.isSeparator c) ⊆ t := (List.takeWhile_sublist _).subset
      have dropped := (List.dropWhile_sublist (fun c => !ifs.isSeparator c) (l := t)).subset
      rw [Ifs.fields_eq]
      split
      · simpa using first
      · next c rest h =>
        rw [h] at dropped
        have behind := List.Subset.trans (ifs.dropDelimiter_subset (c :: rest)) dropped
        have shorter := ifs.length_dropDelimiter_dropWhile_lt h
        split
        · simpa using first
        · next d next following =>
          rw [following] at behind shorter
          intro word mem
          rcases List.mem_cons.1 mem with rfl | mem
          · exact first
          · exact List.Subset.trans (ih _ shorter (d :: next) rfl word mem) behind

theorem Ifs.subset_of_mem_split (ifs : Ifs) (t : Text) :
    ∀ word ∈ (ifs.split t).words, word ⊆ t := by
  intro word mem
  unfold Ifs.split at mem
  split at mem
  · split at mem
    · cases mem
    · rw [List.mem_singleton.1 mem]
      exact List.Subset.refl t
  · dsimp only at mem
    split at mem
    · cases mem
    · next c rest h =>
      have inner := ifs.subset_of_mem_fields (c :: rest) word mem
      rw [← h] at inner
      exact List.Subset.trans inner (List.dropWhile_sublist _).subset

/-- Adding a segment adds its pieces. -/
theorem Builder.All.add {P : FieldPiece → Prop} {b : Builder (List FieldPiece)} (h : b.All P) (ifs : Option Ifs)
    {segment : Segment} (hp : ∀ piece : FieldPiece, piece.From [segment] → P piece) :
    (b.add ifs segment).All P := by
  cases segment with
  | fixed literal quoted => exact h.append (hp (.fixed literal) ⟨quoted, List.mem_singleton_self _⟩) _
  | splittable text =>
      cases ifs with
      | none =>
          exact h.append (hp (.word text) ⟨text, List.mem_singleton_self _, List.Subset.refl _⟩) _
      | some ifs =>
          refine h.appendSplit fun word mem => hp (.word word) ?_
          exact ⟨text, List.mem_singleton_self _, ifs.subset_of_mem_split text word mem⟩
  | boundary => exact h.flush

/-- With more segments a piece still comes from one of them. -/
theorem FieldPiece.From.mono {segments segments' : List Segment} {piece : FieldPiece}
    (h : piece.From segments) (sub : segments ⊆ segments') : piece.From segments' := by
  cases piece with
  | fixed literal =>
      obtain ⟨quoted, mem⟩ := h
      exact ⟨quoted, sub mem⟩
  | word part =>
      obtain ⟨text, mem, inside⟩ := h
      exact ⟨text, sub mem, inside⟩

theorem Builder.All.foldl_add {P : FieldPiece → Prop} (ifs : Option Ifs) {segments : List Segment}
    (hp : ∀ piece : FieldPiece, piece.From segments → P piece) {b : Builder (List FieldPiece)} (h : b.All P) :
    (segments.foldl (Builder.add ifs) b).All P := by
  induction segments generalizing b with
  | nil => exact h
  | cons segment segments ih =>
      have head := h.add ifs fun piece source =>
        hp piece (source.mono fun _ mem => List.mem_cons.2 (.inl (List.mem_singleton.1 mem)))
      exact ih (fun piece source => hp piece (source.mono (List.subset_cons_self _ _))) head

/-- **Every piece of a field comes from a segment.** -/
theorem from_of_mem_fieldPieces {ifs : Option Ifs} {segments : List Segment}
    {pieces : List FieldPiece} (mem : pieces ∈ fieldPieces ifs segments) {piece : FieldPiece}
    (inside : piece ∈ pieces) : piece.From segments := by
  have all := (Builder.All.foldl_add ifs (fun _ source => source) .start :
    (segments.foldl (Builder.add ifs) .start).All (FieldPiece.From segments)).flush
  exact all.1 pieces (List.mem_reverse.1 mem) piece inside

end ShellWord
