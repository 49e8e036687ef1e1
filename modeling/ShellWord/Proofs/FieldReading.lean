import Mathlib.Data.List.TakeWhile
import ShellWord.Proofs.FieldPiece

/-!
# Reading fields character by character

A text is split by taking runs of characters off its front, and the pieces of a word are split one by one and
glued by a builder.  This module gives both a common form.  A text is read one character at a time
(`Reading.read`), and what has been read matters to what comes next in three ways (`Place`): a field is open; a
field was ended by soft separators only, so that a hard one still belongs to the same delimiter; or neither, so
that a hard one makes an empty field.

`Ifs.cut_foldl_read` says that splitting one text is this reading.  `Builder.view_add` says what going over
pieces does to it: behind every piece, and behind the soft separators that a piece begins with, it is forgotten that
only soft separators have been read.  `map_text_splitSegments` puts the two together: the fields of unquoted
text are read piece by piece.
-/

namespace ShellWord

namespace Ifs

/-- Where reading is between two characters. -/
inductive Place where
  /-- No field is open, and a hard separator makes an empty one. -/
  | gap
  /-- A field is open. -/
  | field (text : Text)
  /-- Soft separators have ended a field, and a hard one belongs to the same delimiter. -/
  | pause
  deriving DecidableEq, Repr

/-- Read one character: the fields that it finishes, and where reading is behind it. -/
def Place.read (ifs : Ifs) : Place → Char → List Text × Place
  | .gap, c =>
    if ifs.isSoft c then ([], .gap) else if ifs.isHard c then ([[]], .gap) else ([], .field [c])
  | .field text, c =>
    if ifs.isSoft c then ([text], .pause)
    else if ifs.isHard c then ([text], .gap)
    else ([], .field (text ++ [c]))
  | .pause, c =>
    if ifs.isSoft c then ([], .pause) else if ifs.isHard c then ([], .gap) else ([], .field [c])

/-- How far a text has been read: the finished fields, the latest first, and the place. -/
structure Reading where
  done : List Text
  place : Place
  deriving DecidableEq, Repr

namespace Reading

/-- Nothing has been read. -/
def start : Reading := ⟨[], .gap⟩

/-- Read one character. -/
def read (ifs : Ifs) (r : Reading) (c : Char) : Reading :=
  ⟨(r.place.read ifs c).1 ++ r.done, (r.place.read ifs c).2⟩

/-- The fields, in order, if the text ends here. -/
def fields (r : Reading) : List Text :=
  match r.place with
  | .field text => (text :: r.done).reverse
  | _ => r.done.reverse

end Reading

/-- At the end of a piece it is forgotten that only soft separators have been read. -/
def Place.cut : Place → Place
  | .gap => .gap
  | .field text => .field text
  | .pause => .gap

/-- The reading at the end of a piece. -/
def Reading.cut (r : Reading) : Reading := ⟨r.done, r.place.cut⟩

theorem Reading.fields_cut (r : Reading) : r.cut.fields = r.fields := by
  obtain ⟨done, place⟩ := r
  cases place <;> rfl

theorem isSoft_of_isHard {ifs : Ifs} {c : Char} (h : ifs.isHard c = true) : ifs.isSoft c = false := by
  obtain ⟨-, notBlank⟩ := Bool.and_eq_true_iff.1 h
  simp only [Bool.not_eq_true'] at notBlank
  simp [isSoft, notBlank]

theorem isSoft_of_not_isSeparator {ifs : Ifs} {c : Char} (h : ifs.isSeparator c = false) :
    ifs.isSoft c = false := by
  simp [isSoft, h]

theorem isHard_of_not_isSeparator {ifs : Ifs} {c : Char} (h : ifs.isSeparator c = false) :
    ifs.isHard c = false := by
  simp [isHard, h]

/-- A separator is soft or hard. -/
theorem isHard_of_not_isSoft {ifs : Ifs} {c : Char} (h : ifs.isSeparator c = true)
    (soft : ifs.isSoft c = false) : ifs.isHard c = true := by
  simp only [isSoft, h, Bool.true_and] at soft
  simp [isHard, h, soft]

/-! ### Reading runs of characters -/

section

variable {ifs : Ifs} {done : List Text}

theorem read_field_of_not_isSeparator {c : Char} (h : ifs.isSeparator c = false) (text : Text) :
    Reading.read ifs ⟨done, .field text⟩ c = ⟨done, .field (text ++ [c])⟩ := by
  simp [Reading.read, Place.read, isSoft_of_not_isSeparator h, isHard_of_not_isSeparator h]

/-- Characters that are no separators go to the open field. -/
theorem foldl_read_field {w : Text} (h : ∀ c ∈ w, ifs.isSeparator c = false) (text : Text) :
    w.foldl (Reading.read ifs) ⟨done, .field text⟩ = ⟨done, .field (text ++ w)⟩ := by
  induction w generalizing text with
  | nil => simp
  | cons c w ih =>
      rw [List.foldl_cons, read_field_of_not_isSeparator (h c List.mem_cons_self),
        ih fun d mem => h d (List.mem_cons_of_mem _ mem)]
      simp

/-- Soft separators are ignored outside of fields. -/
theorem foldl_read_of_not_field {place : Place} (outside : ∀ text, place ≠ .field text) {w : Text}
    (h : ∀ c ∈ w, ifs.isSoft c = true) :
    w.foldl (Reading.read ifs) ⟨done, place⟩ = ⟨done, place⟩ := by
  induction w with
  | nil => rfl
  | cons c w ih =>
      have soft := h c List.mem_cons_self
      have same : Reading.read ifs ⟨done, place⟩ c = ⟨done, place⟩ := by
        cases place with
        | field text => exact absurd rfl (outside text)
        | _ => simp [Reading.read, Place.read, soft]
      rw [List.foldl_cons, same, ih fun d mem => h d (List.mem_cons_of_mem _ mem)]

/-- Soft separators end an open field. -/
theorem foldl_read_field_soft {w : Text} (ne : w ≠ []) (h : ∀ c ∈ w, ifs.isSoft c = true) (text : Text) :
    w.foldl (Reading.read ifs) ⟨done, .field text⟩ = ⟨text :: done, .pause⟩ := by
  cases w with
  | nil => exact absurd rfl ne
  | cons c w =>
      have first : Reading.read ifs ⟨done, .field text⟩ c = ⟨text :: done, .pause⟩ := by
        simp [Reading.read, Place.read, h c List.mem_cons_self]
      rw [List.foldl_cons, first]
      exact foldl_read_of_not_field (fun _ => Place.noConfusion) fun d mem => h d (List.mem_cons_of_mem _ mem)

/-- Before anything but a soft separator, no open field is as good as an empty one. -/
theorem read_gap_eq_field {c : Char} (h : ifs.isSoft c = false) :
    Reading.read ifs ⟨done, .gap⟩ c = Reading.read ifs ⟨done, .field []⟩ c := by
  simp [Reading.read, Place.read, h]

theorem read_pause_eq_field {c : Char} (h : ifs.isSeparator c = false) :
    Reading.read ifs ⟨done, .pause⟩ c = Reading.read ifs ⟨done, .field []⟩ c := by
  simp [Reading.read, Place.read, isSoft_of_not_isSeparator h, isHard_of_not_isSeparator h]

/-- What is read depends on the place, and goes on top of what is done. -/
theorem exists_foldl_read (ifs : Ifs) (place : Place) (t : Text) :
    ∃ new place', ∀ done,
      t.foldl (Reading.read ifs) ⟨done, place⟩ = ⟨new ++ done, place'⟩ := by
  induction t generalizing place with
  | nil => exact ⟨[], place, fun done => rfl⟩
  | cons c t ih =>
      obtain ⟨new, place', run⟩ := ih (place.read ifs c).2
      refine ⟨new ++ (place.read ifs c).1, place', fun done => ?_⟩
      rw [List.foldl_cons, Reading.read, run, List.append_assoc]

end

/-! ### Splitting is reading -/

/-- Where reading is when a field is open and words follow it, with a separator before each of them, and
possibly one at the end. -/
def Reading.resume (done : List Text) (text : Text) : List Text → Bool → Reading
  | [], false => ⟨done, .field text⟩
  | [], true => ⟨text :: done, .gap⟩
  | word :: words, trailing => resume (text :: done) word words trailing

/-- The first field has no separators. -/
theorem isSeparator_of_mem_takeWhile {ifs : Ifs} {t : Text} {c : Char}
    (mem : c ∈ t.takeWhile fun d => !ifs.isSeparator d) : ifs.isSeparator c = false := by
  have all := List.all_eq_true.1 (List.all_takeWhile (l := t) (p := fun d => !ifs.isSeparator d)) c mem
  simpa using all

theorem isSoft_of_mem_takeWhile {ifs : Ifs} {t : Text} {c : Char} (mem : c ∈ t.takeWhile ifs.isSoft) :
    ifs.isSoft c = true :=
  List.all_eq_true.1 List.all_takeWhile c mem

theorem isSoft_of_dropWhile {ifs : Ifs} {t rest : Text} {c : Char}
    (h : t.dropWhile ifs.isSoft = c :: rest) : ifs.isSoft c = false := by
  have first := List.head?_dropWhile_not ifs.isSoft t
  rw [h] at first
  simpa using first

theorem isSeparator_of_dropWhile {ifs : Ifs} {t rest : Text} {c : Char}
    (h : t.dropWhile (fun d => !ifs.isSeparator d) = c :: rest) : ifs.isSeparator c = true := by
  have first := List.head?_dropWhile_not (fun d => !ifs.isSeparator d) t
  rw [h] at first
  simpa using first

/-- Reading goes on behind soft separators as it does behind none, once no field is open. -/
theorem foldl_read_gap (ifs : Ifs) (done : List Text) (t : Text) :
    (t.foldl (Reading.read ifs) ⟨done, .gap⟩).cut =
      if t.dropWhile ifs.isSoft = [] then ⟨done, .gap⟩
      else ((t.dropWhile ifs.isSoft).foldl (Reading.read ifs) ⟨done, .field []⟩).cut := by
  conv_lhs => rw [← List.takeWhile_append_dropWhile (p := ifs.isSoft) (l := t), List.foldl_append,
    foldl_read_of_not_field (fun _ => Place.noConfusion) fun c mem => isSoft_of_mem_takeWhile mem]
  cases h : t.dropWhile ifs.isSoft with
  | nil => rfl
  | cons c rest =>
      rw [List.foldl_cons, read_gap_eq_field (isSoft_of_dropWhile h), ← List.foldl_cons,
        if_neg (List.cons_ne_nil _ _)]

/-- A delimiter ends the open field, and reading goes on behind it. -/
theorem foldl_read_delimiter (ifs : Ifs) {c : Char} (rest : Text) (separator : ifs.isSeparator c = true)
    (done : List Text) (text : Text) :
    ((c :: rest).foldl (Reading.read ifs) ⟨done, .field text⟩).cut =
      if ifs.dropDelimiter (c :: rest) = [] then ⟨text :: done, .gap⟩
      else ((ifs.dropDelimiter (c :: rest)).foldl (Reading.read ifs) ⟨text :: done, .field []⟩).cut := by
  -- a hard separator is found at once or behind soft ones; without it the soft ones are the delimiter
  have soft (d : Char) (mem : d ∈ (c :: rest).takeWhile ifs.isSoft) : ifs.isSoft d = true :=
    isSoft_of_mem_takeWhile mem
  conv_lhs => rw [← List.takeWhile_append_dropWhile (p := ifs.isSoft) (l := c :: rest),
    List.foldl_append]
  unfold dropDelimiter
  generalize before : (c :: rest).takeWhile ifs.isSoft = s at soft
  cases h : (c :: rest).dropWhile ifs.isSoft with
  | nil =>
      have ne : s ≠ [] := by
        rintro rfl
        have whole := List.takeWhile_append_dropWhile (p := ifs.isSoft) (l := c :: rest)
        rw [before, h] at whole
        cases whole
      rw [foldl_read_field_soft ne soft]
      rfl
  | cons d after =>
      by_cases hard : ifs.isHard d = true
      · have ended : Reading.read ifs (s.foldl (Reading.read ifs) ⟨done, .field text⟩) d =
            ⟨text :: done, .gap⟩ := by
          by_cases ne : s = []
          · subst ne
            simp [Reading.read, Place.read, isSoft_of_isHard hard, hard]
          · rw [foldl_read_field_soft ne soft]
            simp [Reading.read, Place.read, isSoft_of_isHard hard, hard]
        rw [List.foldl_cons, ended, foldl_read_gap]
        simp only [hard, if_true]
      · have plain : ifs.isSeparator d = false := by
          by_contra found
          exact hard (isHard_of_not_isSoft (by simpa using found) (isSoft_of_dropWhile h))
        have ne : s ≠ [] := by
          rintro rfl
          have whole := List.takeWhile_append_dropWhile (p := ifs.isSoft) (l := c :: rest)
          rw [before, h] at whole
          obtain ⟨rfl, -⟩ := List.cons.inj whole
          rw [separator] at plain
          cases plain
        rw [foldl_read_field_soft ne soft, List.foldl_cons, read_pause_eq_field plain, ← List.foldl_cons]
        simp only [hard, if_false, Bool.false_eq_true, List.cons_ne_nil]

/-- **Splitting is reading.**  Read behind an open field, the first field of a text goes to the open one. -/
theorem cut_foldl_read (ifs : Ifs) (t : Text) (done : List Text) (text : Text) :
    ∃ word words trailing, ifs.fields t = (word :: words, trailing) ∧
      (t.foldl (Reading.read ifs) ⟨done, .field text⟩).cut =
        Reading.resume done (text ++ word) words trailing := by
  -- the fields behind a delimiter are those of a shorter text, so the induction is on the length
  induction len : t.length using Nat.strongRecOn generalizing t done text with
  | ind n ih =>
      subst len
      have first (rest : Text) (h : t.dropWhile (fun c => !ifs.isSeparator c) = rest) :
          t.foldl (Reading.read ifs) ⟨done, .field text⟩ =
            rest.foldl (Reading.read ifs)
              ⟨done, .field (text ++ t.takeWhile fun c => !ifs.isSeparator c)⟩ := by
        conv_lhs => rw [← List.takeWhile_append_dropWhile (p := fun c => !ifs.isSeparator c) (l := t)]
        rw [List.foldl_append, h, foldl_read_field fun c mem => isSeparator_of_mem_takeWhile mem]
      rw [fields_eq]
      cases h : t.dropWhile fun c => !ifs.isSeparator c with
      | nil => exact ⟨_, [], false, rfl, by rw [first [] h]; rfl⟩
      | cons c rest =>
          have separator := isSeparator_of_dropWhile h
          have shorter := ifs.length_dropDelimiter_dropWhile_lt h
          rw [first _ h, foldl_read_delimiter ifs rest separator]
          cases following : ifs.dropDelimiter (c :: rest) with
          | nil =>
              refine ⟨t.takeWhile fun c => !ifs.isSeparator c, [], true, by simp only [following], ?_⟩
              rw [if_pos rfl]
              rfl
          | cons d next =>
              rw [following] at shorter
              obtain ⟨word, words, trailing, split, run⟩ := ih _ shorter (d :: next)
                ((text ++ t.takeWhile fun c => !ifs.isSeparator c) :: done) [] rfl
              refine ⟨t.takeWhile fun c => !ifs.isSeparator c, word :: words, trailing,
                by simp only [following, split], ?_⟩
              rw [if_neg (List.cons_ne_nil _ _), run]
              rfl

/-! ### Pieces

A builder stands for a reading that was cut: it knows whether a field is open, and not what ended the last one. -/

/-- The text of the open field, if there is one. -/
def Place.text : Place → Text
  | .field text => text
  | _ => []

/-- A separator was read, of whatever kind. -/
def Reading.separate (r : Reading) : Reading :=
  match r.place with
  | .field text => ⟨text :: r.done, .gap⟩
  | _ => ⟨r.done, .gap⟩

/-- Read a piece: a soft separator in front ends the open field like a hard one, and behind the piece it is
forgotten what ended the last field. -/
def Reading.readPiece (ifs : Ifs) (r : Reading) (t : Text) : Reading :=
  ((t.dropWhile ifs.isSoft).foldl (read ifs)
    (if t.takeWhile ifs.isSoft = [] then r else r.separate)).cut

end Ifs

namespace Builder

open Ifs (Reading Place)

/-- The reading that a builder stands for. -/
def view (b : Builder Field) : Reading :=
  if b.anchored then
    if b.pending then ⟨(b.current :: b.done).map Literal.text, .gap⟩
    else ⟨b.done.map Literal.text, .field b.current.text⟩
  else ⟨b.done.map Literal.text, .gap⟩

/-- A field that does not exist yet has no text. -/
def Tidy (b : Builder Field) : Prop :=
  b.anchored = false → b.current.text = []

theorem cut_view (b : Builder Field) : b.view.cut = b.view := by
  unfold view
  split
  · split <;> rfl
  · rfl

theorem map_text_fields (b : Builder Field) : b.fields.map Literal.text = b.view.fields := by
  unfold fields flush view
  cases b.anchored <;> cases b.pending <;> simp [Reading.fields]

theorem view_separate (b : Builder Field) : b.separate.view = b.view.separate := by
  unfold view separate
  cases b.anchored <;> cases b.pending <;> rfl

theorem view_append {b : Builder Field} (tidy : b.Tidy) (literal : Literal) :
    (b.append literal true).view = ⟨b.view.done, .field (b.view.place.text ++ literal.text)⟩ := by
  obtain ⟨done, current, anchored, pending⟩ := b
  cases anchored with
  | true => cases pending <;> simp [append, flush, view, Place.text, Literal.empty]
  | false =>
      have untouched : current.text = [] := tidy rfl
      cases pending <;> simp [append, flush, view, Place.text, Literal.empty, untouched]

theorem tidy_append (b : Builder Field) (literal : Literal) : (b.append literal true).Tidy := by
  intro unanchored
  simp [append] at unanchored

theorem view_append_of_text_nil {b : Builder Field} (tidy : b.Tidy) {literal : Literal}
    (h : literal.text = []) :
    (b.append literal false).view = b.view ∧ (b.append literal false).Tidy := by
  refine ⟨by simp [append, view, h], fun unanchored => ?_⟩
  simpa [append, h] using tidy (by simpa [append] using unanchored)

theorem Tidy.separate {b : Builder Field} (tidy : b.Tidy) : b.separate.Tidy := tidy

theorem tidy_appendWords {b : Builder Field} (tidy : b.Tidy) (words : List Text) : (b.appendWords words).Tidy := by
  unfold appendWords
  induction words generalizing b with
  | nil => exact tidy
  | cons word words ih => exact ih (tidy_append b.separate (.active word))

/-- Behind an open field the words of a split text are read one by one. -/
theorem view_appendWords {b : Builder Field} (tidy : b.Tidy) {done : List Text} {text : Text}
    (h : b.view = ⟨done, .field text⟩) (words : List Text) :
    (b.appendWords words).view = Reading.resume done text words false := by
  induction words generalizing b done text with
  | nil => exact h
  | cons word words ih =>
      have next : (b.separate.append (.active word) true).view = ⟨text :: done, .field word⟩ := by
        rw [view_append tidy.separate, view_separate, h]
        rfl
      exact ih (tidy_append _ _) next

theorem separate_resume (done : List Text) (text : Text) (words : List Text) :
    (Reading.resume done text words false).separate = Reading.resume done text words true := by
  induction words generalizing done text with
  | nil => rfl
  | cons word words ih => exact ih (text :: done) word

/-- Before anything but a soft separator, what is done and the open field tell all. -/
theorem foldl_read_view (ifs : Ifs) (b : Builder Field) {c : Char} (h : ifs.isSoft c = false) (rest : Text) :
    (c :: rest).foldl (Reading.read ifs) b.view =
      (c :: rest).foldl (Reading.read ifs) ⟨b.view.done, .field b.view.place.text⟩ := by
  have gap (done : List Text) : (c :: rest).foldl (Reading.read ifs) ⟨done, .gap⟩ =
      (c :: rest).foldl (Reading.read ifs) ⟨done, .field []⟩ := by
    rw [List.foldl_cons, List.foldl_cons, Ifs.read_gap_eq_field h]
  unfold view
  split
  · split
    · exact gap _
    · rfl
  · exact gap _

end Builder

/-- The words of a split text are the fields behind its soft separators; without separators that is all there
is. -/
theorem Ifs.split_eq (ifs : Ifs) (t : Text) :
    ifs.split t =
      match t.dropWhile ifs.isSoft with
      | [] => ⟨[], (t.takeWhile ifs.isSoft).length > 0, (t.takeWhile ifs.isSoft).length > 0⟩
      | c :: rest =>
        ⟨(ifs.fields (c :: rest)).1, (t.takeWhile ifs.isSoft).length > 0, (ifs.fields (c :: rest)).2⟩ := by
  unfold split
  split
  · next none =>
    have plain (c : Char) : ifs.isSeparator c = false := by
      rw [isSeparator, List.isEmpty_iff.1 none]
      rfl
    have soft : ifs.isSoft = fun _ => false := funext fun c => isSoft_of_not_isSeparator (plain c)
    cases t with
    | nil => simp
    | cons c rest =>
        have all : (c :: rest).takeWhile (fun c => !ifs.isSeparator c) = c :: rest :=
          List.takeWhile_eq_self_iff.2 fun d _ => by simp [plain d]
        have nothing : (c :: rest).dropWhile (fun c => !ifs.isSeparator c) = [] :=
          List.dropWhile_eq_nil_iff.2 fun d _ => by simp [plain d]
        have one : ifs.fields (c :: rest) = ([c :: rest], false) := by
          rw [fields_eq, nothing, all]
        simp [soft, one]
  · rfl

namespace Builder

open Ifs (Reading Place)

/-- A split text is read as a piece. -/
theorem view_appendSplit (ifs : Ifs) {b : Builder Field} (tidy : b.Tidy) (t : Text) :
    (b.appendSplit (ifs.split t)).view = b.view.readPiece ifs t ∧ (b.appendSplit (ifs.split t)).Tidy := by
  -- `b'` has seen the soft separators in front of the text
  obtain ⟨b', leading, again, tidy', front⟩ : ∃ b' : Builder Field,
      (if decide ((t.takeWhile ifs.isSoft).length > 0) = true then b.separate else b) = b' ∧
      (if decide ((t.takeWhile ifs.isSoft).length > 0) = true then b'.separate else b') = b' ∧ b'.Tidy ∧
      (if t.takeWhile ifs.isSoft = [] then b.view else b.view.separate) = b'.view := by
    cases h : t.takeWhile ifs.isSoft with
    | nil => exact ⟨b, by simp, by simp, tidy, by simp⟩
    | cons => exact ⟨b.separate, by simp, by simp [separate], tidy.separate, by simp [view_separate]⟩
  rw [Reading.readPiece, front, Ifs.split_eq]
  unfold appendSplit
  cases h : t.dropWhile ifs.isSoft with
  | nil =>
      simp only [leading, again]
      exact ⟨b'.cut_view.symm, tidy'⟩
  | cons c rest =>
      obtain ⟨word, words, trailing, split, run⟩ :=
        Ifs.cut_foldl_read ifs (c :: rest) b'.view.done b'.view.place.text
      simp only [leading, split, Content.word_field]
      rw [foldl_read_view ifs b' (Ifs.isSoft_of_dropWhile h), run]
      have opened := view_append tidy' (.active word)
      have read := view_appendWords (tidy_append b' (.active word)) opened words
      have tidy'' := tidy_appendWords (tidy_append b' (.active word)) words
      cases trailing with
      | false => exact ⟨read, tidy''⟩
      | true => exact ⟨by rw [if_pos rfl, view_separate, read, separate_resume]; rfl, tidy''⟩

end Builder

/-- The text of a segment. -/
def Segment.text : Segment → Text
  | .fixed literal _ => literal.text
  | .splittable text => text
  | .boundary => []

/-- A piece of unquoted text: a result, or a literal without separators. -/
def Segment.Unquoted (ifs : Ifs) : Segment → Prop
  | .fixed literal quoted => quoted = false ∧ ∀ c ∈ literal.text, ifs.isSeparator c = false
  | .splittable _ => True
  | .boundary => False

namespace Builder

open Ifs (Reading Place)

/-- Text without separators, read as a piece, goes to the open field. -/
theorem readPiece_of_not_isSeparator (ifs : Ifs) (b : Builder Field) {t : Text} (ne : t ≠ [])
    (h : ∀ c ∈ t, ifs.isSeparator c = false) :
    b.view.readPiece ifs t = ⟨b.view.done, .field (b.view.place.text ++ t)⟩ := by
  cases t with
  | nil => exact absurd rfl ne
  | cons c rest =>
      have first : ifs.isSoft c = false := Ifs.isSoft_of_not_isSeparator (h c List.mem_cons_self)
      rw [Reading.readPiece, List.takeWhile_cons_of_neg (by simp [first]), if_pos rfl,
        List.dropWhile_cons_of_neg (by simp [first]), foldl_read_view ifs b first, Ifs.foldl_read_field h]
      rfl

/-- **A segment of unquoted text is read as a piece.** -/
theorem view_add (ifs : Ifs) {b : Builder Field} (tidy : b.Tidy) {segment : Segment}
    (h : segment.Unquoted ifs) :
    (b.add (some ifs) segment).view = b.view.readPiece ifs segment.text ∧
      (b.add (some ifs) segment).Tidy := by
  cases segment with
  | fixed literal quoted =>
      obtain ⟨rfl, plain⟩ := h
      change (b.append literal (!literal.text.isEmpty)).view = b.view.readPiece ifs literal.text ∧
        (b.append literal (!literal.text.isEmpty)).Tidy
      by_cases empty : literal.text = []
      · have same := view_append_of_text_nil tidy empty
        rw [empty]
        exact ⟨same.1.trans b.cut_view.symm, same.2⟩
      · rw [readPiece_of_not_isSeparator ifs b empty plain, List.isEmpty_eq_false_iff.2 empty]
        exact ⟨view_append tidy literal, tidy_append b literal⟩
  | splittable text => exact view_appendSplit ifs tidy text
  | boundary => exact absurd h id

theorem view_foldl_add (ifs : Ifs) {segments : List Segment} (h : ∀ segment ∈ segments, segment.Unquoted ifs)
    {b : Builder Field} (tidy : b.Tidy) :
    (segments.foldl (add (some ifs)) b).view =
      (segments.map Segment.text).foldl (Reading.readPiece ifs) b.view := by
  induction segments generalizing b with
  | nil => rfl
  | cons segment segments ih =>
      obtain ⟨view, tidy'⟩ := view_add ifs tidy (h segment List.mem_cons_self)
      rw [List.foldl_cons, ih (fun other mem => h other (List.mem_cons_of_mem _ mem)) tidy', view]
      rfl

end Builder

/-- The fields of unquoted text are read piece by piece. -/
theorem map_text_splitSegments (ifs : Ifs) {segments : List Segment}
    (h : ∀ segment ∈ segments, segment.Unquoted ifs) :
    (splitSegments (some ifs) segments).map Literal.text =
      ((segments.map Segment.text).foldl (Ifs.Reading.readPiece ifs) .start).fields := by
  rw [splitSegments, Builder.build, Builder.map_text_fields, Builder.view_foldl_add ifs h fun _ => rfl]
  rfl

end ShellWord
