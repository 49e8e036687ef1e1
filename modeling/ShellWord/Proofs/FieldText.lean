import ShellWord.Proofs.FieldDecomposition

/-!
# The text of the fields

Whatever the segments of a word are, their texts are found in the fields: put together, the fields are the fixed texts
and the results without their separators, in order.  `Builder.written` is the text that a builder holds so far, and
`Builder.written_add` says what a segment adds to it.

A fixed text is never divided.  It joins one field, and from there on that field can only get longer at its end, or
others can follow it.  `Builder.fields_append` says once what content can do to the fields, and the rest is
an invariant of going over segments (`Builder.foldl_add_invariant`).

There is one exception, since a field has to be anchored by something: an empty text without quotes is in no field if
there is none.
-/

namespace ShellWord

/-- What is kept of a segment: fixed text as it is, and a result without its separators. -/
def Segment.kept (ifs : Option Ifs) : Segment → Text
  | .fixed literal _ => literal.text
  | .splittable text =>
    match ifs with
    | none => text
    | some ifs => text.filter fun c => !ifs.isSeparator c
  | .boundary => []

theorem Ifs.Reading.flatten_fields (r : Ifs.Reading) :
    r.fields.flatten = r.done.reverse.flatten ++ r.place.text := by
  obtain ⟨done, place⟩ := r
  cases place <;> simp [fields, Place.text]

namespace Builder

/-! ### Nothing is lost -/

/-- The text of the fields so far. -/
def written (b : Builder Field) : Text :=
  (b.fields.map Literal.text).flatten

theorem written_eq (b : Builder Field) : b.written = b.view.done.reverse.flatten ++ b.view.place.text := by
  rw [written, map_text_fields, Ifs.Reading.flatten_fields]

theorem tidy_flush (b : Builder Field) : b.flush.Tidy := fun _ => rfl

/-- Content is written behind what is there. -/
theorem written_append {b : Builder Field} (tidy : b.Tidy) (content : Literal) :
    (b.append content true).written = b.written ++ content.text := by
  rw [written_eq, written_eq, view_append tidy, List.append_assoc]
  rfl

theorem written_appendWords {b : Builder Field} (tidy : b.Tidy) (words : List Text) :
    (b.appendWords words).written = b.written ++ words.flatten := by
  unfold appendWords
  induction words generalizing b with
  | nil => simp
  | cons word words ih =>
      rw [List.foldl_cons, ih (tidy_append _ _), written_append tidy.separate, List.flatten_cons,
        ← List.append_assoc]
      rfl

/-- The words of a split text are written one after the other. -/
theorem written_appendSplit {b : Builder Field} (tidy : b.Tidy) (split : Ifs.Split) :
    (b.appendSplit split).written = b.written ++ split.words.flatten ∧ (b.appendSplit split).Tidy := by
  obtain ⟨words, leading, trailing⟩ := split
  have added {b : Builder Field} (tidy : b.Tidy) (word : Text) (words : List Text) :
      ((b.append (.active word) true).appendWords words).written = b.written ++ (word :: words).flatten := by
    rw [written_appendWords (tidy_append _ _), written_append tidy, List.flatten_cons, List.append_assoc]
    rfl
  cases words with
  | nil => cases leading <;> cases trailing <;> exact ⟨(List.append_nil _).symm, tidy⟩
  | cons word words =>
      have tidied (b : Builder Field) := tidy_appendWords (tidy_append b (.active word)) words
      cases leading with
      | false => cases trailing <;> exact ⟨added tidy word words, tidied _⟩
      | true => cases trailing <;> exact ⟨added tidy.separate word words, tidied _⟩

/-- **What a segment adds.** -/
theorem written_add (ifs : Option Ifs) {b : Builder Field} (tidy : b.Tidy) (segment : Segment) :
    (b.add ifs segment).written = b.written ++ segment.kept ifs ∧ (b.add ifs segment).Tidy := by
  -- content that does not anchor a field has no text
  have appended (content : Literal) (anchors : Bool) (h : anchors = false → content.text = []) :
      (b.append content anchors).written = b.written ++ content.text ∧ (b.append content anchors).Tidy := by
    cases anchors with
    | true => exact ⟨written_append tidy content, tidy_append b content⟩
    | false =>
        obtain ⟨same, tidy'⟩ := view_append_of_text_nil tidy (h rfl)
        refine ⟨?_, tidy'⟩
        rw [written_eq, same, ← written_eq, h rfl, List.append_nil]
  cases segment with
  | fixed literal quoted =>
      refine appended literal _ fun unanchored => ?_
      simpa using (Bool.or_eq_false_iff.1 unanchored).2
  | splittable text =>
      cases ifs with
      | none =>
          refine appended (.active text) _ fun unanchored => ?_
          show text = []
          simpa using unanchored
      | some ifs =>
          have split := written_appendSplit tidy (ifs.split text)
          rw [ifs.flatten_words_split] at split
          exact split
  | boundary => exact ⟨(List.append_nil _).symm, tidy_flush b⟩

theorem written_foldl_add (ifs : Option Ifs) (segments : List Segment) {b : Builder Field} (tidy : b.Tidy) :
    (segments.foldl (add ifs) b).written = b.written ++ segments.flatMap (Segment.kept ifs) ∧
      (segments.foldl (add ifs) b).Tidy := by
  induction segments generalizing b with
  | nil => exact ⟨(List.append_nil _).symm, tidy⟩
  | cons segment segments ih =>
      obtain ⟨written, tidy'⟩ := written_add ifs tidy segment
      obtain ⟨rest, tidy''⟩ := ih tidy'
      refine ⟨?_, tidy''⟩
      rw [List.foldl_cons, rest, written, List.flatMap_cons, List.append_assoc]

/-! ### Nothing is divided -/

/-- **What content does to the fields.**  Nothing, or it is a new field, or it makes the last one longer. -/
theorem fields_append (b : Builder Field) (content : Literal) (anchors : Bool) :
    (b.append content anchors).fields = b.fields ∨
      (∃ field, (b.append content anchors).fields = b.fields ++ [field]) ∨
      ∃ front field, b.fields = front ++ [field] ∧
        (b.append content anchors).fields = front ++ [field ++ content] := by
  obtain ⟨done, current, anchored, pending⟩ := b
  cases anchored with
  | true =>
      cases pending <;> cases anchors
      case true.true => exact .inr (.inl ⟨Literal.empty ++ content, by simp [append, fields, flush]⟩)
      all_goals exact .inr (.inr ⟨done.reverse, current, by simp [append, fields, flush]⟩)
  | false =>
      cases anchors with
      | false => exact .inl (by cases pending <;> rfl)
      | true =>
          cases pending
          · exact .inr (.inl ⟨current ++ content, by simp [append, fields, flush]⟩)
          · exact .inr (.inl ⟨Literal.empty ++ content, by simp [append, fields, flush]⟩)

section

variable {P : Builder Field → Prop} (separate : ∀ b, P b → P b.separate)
  (append : ∀ b content anchors, P b → P (b.append content anchors))

include separate append

theorem appendWords_invariant (words : List Text) {b : Builder Field} (h : P b) : P (b.appendWords words) := by
  unfold appendWords
  induction words generalizing b with
  | nil => exact h
  | cons word words ih => exact ih (append _ _ _ (separate b h))

theorem appendSplit_invariant (split : Ifs.Split) {b : Builder Field} (h : P b) : P (b.appendSplit split) := by
  obtain ⟨words, leading, trailing⟩ := split
  have separated (flag : Bool) {b : Builder Field} (h : P b) : P (if flag then b.separate else b) := by
    cases flag
    · exact h
    · exact separate b h
  cases words with
  | nil => exact separated trailing (separated leading h)
  | cons word words =>
      have first := append _ (.active word) true (separated leading h)
      exact separated trailing (appendWords_invariant separate append words first)

/-- What separators, new content and the end of a field keep, is kept by going over segments. -/
theorem foldl_add_invariant (flush : ∀ b, P b → P b.flush) (ifs : Option Ifs) (segments : List Segment)
    {b : Builder Field} (h : P b) : P (segments.foldl (add ifs) b) := by
  induction segments generalizing b with
  | nil => exact h
  | cons segment segments ih =>
      apply ih
      cases segment with
      | fixed literal quoted => exact append b literal _ h
      | splittable text =>
          cases ifs with
          | none => exact append b _ _ h
          | some ifs => exact appendSplit_invariant separate append _ h
      | boundary => exact flush b h

end

end Builder

/-- One of the texts has `text` in it, and `before` stands in front of that. -/
def LiesBehind (before text : Text) (texts : List Text) : Prop :=
  ∃ front u v back, texts = front ++ (u ++ text ++ v) :: back ∧ front.flatten ++ u = before

theorem LiesBehind.append {before text : Text} {texts : List Text} (h : LiesBehind before text texts)
    (more : List Text) : LiesBehind before text (texts ++ more) := by
  obtain ⟨front, u, v, back, rfl, same⟩ := h
  exact ⟨front, u, v, back ++ more, by simp, same⟩

/-- A text that gets longer at its end still has in it what it had. -/
theorem LiesBehind.lengthen {before text last : Text} {texts : List Text}
    (h : LiesBehind before text (texts ++ [last])) (more : Text) :
    LiesBehind before text (texts ++ [last ++ more]) := by
  obtain ⟨front, u, v, back, split, same⟩ := h
  rcases back.eq_nil_or_concat with rfl | ⟨back, other, rfl⟩
  · obtain ⟨rfl, equal⟩ := List.append_inj' split rfl
    obtain rfl : last = u ++ text ++ v := by simpa using equal
    exact ⟨texts, u, v ++ more, [], by simp, same⟩
  · have shifted : texts ++ [last] = (front ++ (u ++ text ++ v) :: back) ++ [other] := by simpa using split
    obtain ⟨rfl, equal⟩ := List.append_inj' shifted rfl
    obtain rfl : last = other := by simpa using equal
    exact ⟨front, u, v, back ++ [last ++ more], by simp, same⟩

/-- Every place in texts lies in one of them, unless there are none. -/
theorem liesBehind_nil {texts : List Text} (ne : texts ≠ []) {before after : Text}
    (h : texts.flatten = before ++ after) : LiesBehind before [] texts := by
  induction texts generalizing before with
  | nil => exact absurd rfl ne
  | cons first texts ih =>
      rw [List.flatten_cons] at h
      rcases List.append_eq_append_iff.1 h with ⟨rest, rfl, inner⟩ | ⟨v, rfl, -⟩
      · by_cases none : texts = []
        · subst none
          obtain ⟨rfl, -⟩ := List.append_eq_nil_iff.1 inner.symm
          exact ⟨[], first, [], [], by simp, by simp⟩
        · obtain ⟨front, u, v, back, rfl, same⟩ := ih none inner
          exact ⟨first :: front, u, v, back, rfl, by rw [List.flatten_cons, List.append_assoc, same]⟩
      · exact ⟨[], before, v, texts, by simp, rfl⟩

namespace Builder

/-- A text that lies in a field stays there. -/
theorem liesBehind_foldl_add {before text : Text} (ifs : Option Ifs) (segments : List Segment) {b : Builder Field}
    (h : LiesBehind before text (b.fields.map Literal.text)) :
    LiesBehind before text ((segments.foldl (add ifs) b).fields.map Literal.text) := by
  refine foldl_add_invariant (P := fun b => LiesBehind before text (b.fields.map Literal.text))
    (fun _ h => h) (fun b content anchors h => ?_) (fun _ h => h) ifs segments h
  rcases b.fields_append content anchors with same | ⟨field, same⟩ | ⟨front, field, old, same⟩
  · rwa [same]
  · rw [same, List.map_append]
    exact h.append _
  · rw [old, List.map_append] at h
    rw [same, List.map_append]
    exact h.lengthen content.text

/-- Content that anchors a field lies behind what was written. -/
theorem liesBehind_append {b : Builder Field} (tidy : b.Tidy) (content : Literal) :
    LiesBehind b.written content.text ((b.append content true).fields.map Literal.text) := by
  refine ⟨b.view.done.reverse, b.view.place.text, [], [], ?_, b.written_eq.symm⟩
  rw [map_text_fields, view_append tidy]
  simp [Ifs.Reading.fields]

end Builder

/-! ### Fields of a word -/

theorem flatten_map_text_splitSegments (ifs : Option Ifs) (segments : List Segment) :
    ((splitSegments ifs segments).map Literal.text).flatten = segments.flatMap (Segment.kept ifs) := by
  obtain ⟨written, -⟩ := Builder.written_foldl_add ifs segments (b := .start) fun _ => rfl
  exact written

/-- A fixed text lies in one field, behind what is kept of the segments in front. -/
theorem liesBehind_fixed (ifs : Option Ifs) (front back : List Segment) {literal : Literal} {quoted : Bool}
    (anchors : (quoted || !literal.text.isEmpty) = true) :
    LiesBehind (front.flatMap (Segment.kept ifs)) literal.text
      ((splitSegments ifs (front ++ .fixed literal quoted :: back)).map Literal.text) := by
  obtain ⟨written, tidy⟩ := Builder.written_foldl_add ifs front (b := .start) fun _ => rfl
  have placed := Builder.liesBehind_append tidy literal
  rw [written] at placed
  unfold splitSegments Builder.build
  rw [List.foldl_append, List.foldl_cons]
  apply Builder.liesBehind_foldl_add
  rw [Builder.add, anchors]
  exact placed

/-- Without any separators, results are joined as they are. -/
theorem Builder.add_of_no_separators :
    (add (some ⟨[]⟩) : Builder Field → Segment → Builder Field) = add none := by
  funext b segment
  cases segment with
  | fixed literal quoted => rfl
  | boundary => rfl
  | splittable text =>
      cases text with
      | nil =>
          show b = b.append .empty false
          simp [append]
      | cons c rest => rfl

/-- **Splitting keeps the texts.**  Put together, the fields are the fixed texts and the results without their
separators, in order.  Every fixed text lies in one field, behind what is kept of the segments in front of it;
the only exception is an empty text without quotes in a word that has no fields.  An empty list of separators
splits nothing, like none at all. -/
theorem splitSegments_keeps_texts (ifs : Option Ifs) :
    (∀ segments, ((splitSegments ifs segments).map Literal.text).flatten =
      segments.flatMap (Segment.kept ifs)) ∧
    (∀ front literal quoted back,
      LiesBehind (front.flatMap (Segment.kept ifs)) literal.text
          ((splitSegments ifs (front ++ .fixed literal quoted :: back)).map Literal.text) ∨
        splitSegments ifs (front ++ .fixed literal quoted :: back) = [] ∧ literal.text = [] ∧
          quoted = false) ∧
    (∀ segments, splitSegments (some ⟨[]⟩) segments = splitSegments none segments) := by
  refine ⟨flatten_map_text_splitSegments ifs, fun front literal quoted back => ?_, fun segments => ?_⟩
  · cases anchors : quoted || !literal.text.isEmpty with
    | true => exact .inl (liesBehind_fixed ifs front back anchors)
    | false =>
        obtain ⟨unquoted, isEmpty⟩ := Bool.or_eq_false_iff.1 anchors
        have empty : literal.text = [] := by simpa using isEmpty
        by_cases none : splitSegments ifs (front ++ .fixed literal quoted :: back) = []
        · exact .inr ⟨none, empty, unquoted⟩
        · have whole := flatten_map_text_splitSegments ifs (front ++ .fixed literal quoted :: back)
          rw [List.flatMap_append] at whole
          rw [empty]
          exact .inl (liesBehind_nil (fun absent => none (List.map_eq_nil_iff.1 absent)) whole)
  · rw [splitSegments, Builder.build, Builder.add_of_no_separators]
    rfl

/-- An empty literal without quotes. -/
def Segment.vanishing : Segment := .fixed .empty false

/-- The text of a fixed segment need not lie in a field: there may be none. -/
theorem splitSegments_vanishing :
    ¬ ∀ (ifs : Option Ifs) (segments : List Segment) (literal : Literal) (quoted : Bool),
      .fixed literal quoted ∈ segments →
        ∃ field ∈ splitSegments ifs segments, literal.text <:+: field.text := by
  intro all
  have none : splitSegments (some .standard) [.vanishing] = [] := by decide
  obtain ⟨field, mem, -⟩ := all (some .standard) [.vanishing] .empty false List.mem_cons_self
  rw [none] at mem
  cases mem

end ShellWord
