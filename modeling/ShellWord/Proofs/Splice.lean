import ShellWord.Proofs.Simulation

/-!
# Words in double quotes

Between double quotes a word is one argument, except that the parameters of `$@` stay apart: the first
of them joins the text before it, the last one the text after it.  `splice` says this for two lists of
texts, and `expandWord_doubleQuoted` says it for words: the arguments are the lists of the parts
(`quotedTexts`), spliced from left to right.

The fields of such a word come about in another way, by a builder that goes over segments.  The bridge
is what the builder looks like between two parts (`Builder.Settled`): either nothing was seen yet, or the
field under construction exists and the next quoted text joins it.  In the middle of a list `$@` that is
not so, right after a boundary; so the induction treats a boundary and the parameter after it as one
step (`Builder.foldl_boundary`).
-/

namespace ShellWord

/-! ### Splicing -/

/-- One list after the other, with the last text of the first and the first text of the second
joined. -/
def splice (a b : List Text) : List Text :=
  match a.getLast?, b with
  | none, b => b
  | some _, [] => a
  | some last, head :: tail => a.dropLast ++ (last ++ head) :: tail

@[simp] theorem splice_nil_left (b : List Text) : splice [] b = b := rfl

@[simp] theorem splice_nil_right (a : List Text) : splice a [] = a := by
  rcases List.eq_nil_or_concat a with rfl | ⟨front, last, rfl⟩
  · rfl
  · simp [splice]

/-- The texts before the last one of the first list stay as they are. -/
theorem splice_concat_cons (a : List Text) (last head : Text) (tail : List Text) :
    splice (a ++ [last]) (head :: tail) = a ++ (last ++ head) :: tail := by
  simp [splice]

/-- Splicing gives nothing only where there is nothing on either side. -/
theorem splice_eq_nil_iff {a b : List Text} : splice a b = [] ↔ a = [] ∧ b = [] := by
  rcases List.eq_nil_or_concat a with rfl | ⟨front, last, rfl⟩
  · simp
  · cases b with
    | nil => simp
    | cons head tail =>
        rw [List.concat_eq_append, splice_concat_cons]
        simp

theorem foldl_splice_eq_nil_iff {a : List Text} {lists : List (List Text)} :
    lists.foldl splice a = [] ↔ a = [] ∧ ∀ list ∈ lists, list = [] := by
  induction lists generalizing a with
  | nil => simp
  | cons list lists ih =>
      rw [List.foldl_cons, ih, splice_eq_nil_iff]
      simp [and_assoc]

/-! ### Quoted segments -/

/-- The segments of a list of quoted texts: a boundary stands between two of them. -/
def quotedSegments (texts : List Text) : List Segment :=
  (texts.map Segment.quoted).intersperse .boundary

/-- The second and later segments: each text has a boundary in front. -/
theorem quotedSegments_cons (head : Text) (tail : List Text) :
    quotedSegments (head :: tail) =
      .quoted head :: tail.flatMap fun text => [.boundary, .quoted text] := by
  unfold quotedSegments
  induction tail generalizing head with
  | nil => rfl
  | cons next tail ih =>
      rw [List.map_cons, List.map_cons, List.intersperse_cons_cons, ← List.map_cons, ih next]
      rfl

namespace Builder

/-- The texts of the fields so far, with the one under construction. -/
def texts (b : Builder Field) : List Text :=
  b.fields.map Literal.text

/-- Between two parts of a quoted word: nothing was seen yet, or the field under construction exists
and no separator is pending. -/
def Settled (b : Builder Field) : Prop :=
  b = .start ∨ (b.anchored = true ∧ b.pending = false)

/-- The texts of a builder whose field under construction exists. -/
theorem texts_of_anchored {b : Builder Field} (h : b.anchored = true) :
    b.texts = (b.done.reverse.map Literal.text) ++ [b.current.text] := by
  simp [texts, fields, flush, h]

/-- A quoted text joins the field under construction. -/
theorem Settled.add_quoted {b : Builder Field} (settled : b.Settled) (ifs : Option Ifs) (text : Text) :
    (b.add ifs (.quoted text)).Settled ∧ (b.add ifs (.quoted text)).anchored = true ∧
      (b.add ifs (.quoted text)).texts = splice b.texts [text] := by
  rcases settled with rfl | ⟨anchored, pending⟩
  · exact ⟨.inr ⟨rfl, rfl⟩, rfl, rfl⟩
  · have added : b.add ifs (.quoted text) =
        { b with current := b.current ++ Literal.quoted text, anchored := true } := by
      simp [add, Segment.quoted, append, pending]
    rw [added]
    refine ⟨.inr ⟨rfl, pending⟩, rfl, ?_⟩
    rw [texts_of_anchored rfl, texts_of_anchored anchored, splice_concat_cons]
    rfl

/-- After a boundary a quoted text is a field of its own. -/
theorem Settled.add_boundary_quoted {b : Builder Field} (anchored : b.anchored = true)
    (ifs : Option Ifs) (text : Text) :
    ((b.add ifs .boundary).add ifs (.quoted text)).Settled ∧
      ((b.add ifs .boundary).add ifs (.quoted text)).anchored = true ∧
      ((b.add ifs .boundary).add ifs (.quoted text)).texts = b.texts ++ [text] := by
  have added : (b.add ifs .boundary).add ifs (.quoted text) =
      { done := b.current :: b.done, current := Literal.empty ++ Literal.quoted text,
        anchored := true, pending := false } := by
    simp [add, Segment.quoted, append, flush, anchored]
  rw [added]
  refine ⟨.inr ⟨rfl, rfl⟩, rfl, ?_⟩
  rw [texts_of_anchored rfl, texts_of_anchored anchored]
  simp [Literal.empty, Literal.quoted]

/-- The later texts of a list are fields of their own. -/
theorem foldl_boundary {b : Builder Field} (settled : b.Settled) (anchored : b.anchored = true)
    (ifs : Option Ifs) (tail : List Text) :
    ((tail.flatMap fun text => [Segment.boundary, .quoted text]).foldl (add ifs) b).Settled ∧
      ((tail.flatMap fun text => [Segment.boundary, .quoted text]).foldl (add ifs) b).texts =
        b.texts ++ tail := by
  induction tail generalizing b with
  | nil => exact ⟨settled, by simp⟩
  | cons text tail ih =>
      obtain ⟨settled, isAnchored, texts⟩ := Settled.add_boundary_quoted anchored ifs text
      obtain ⟨settled, more⟩ := ih settled isAnchored
      refine ⟨settled, more.trans ?_⟩
      rw [texts, List.append_assoc]
      rfl

/-- **A part of a quoted word is spliced to the fields before it.** -/
theorem Settled.foldl_quotedSegments {b : Builder Field} (settled : b.Settled) (ifs : Option Ifs)
    (list : List Text) :
    ((quotedSegments list).foldl (add ifs) b).Settled ∧
      ((quotedSegments list).foldl (add ifs) b).texts = splice b.texts list := by
  cases list with
  | nil => exact ⟨settled, (splice_nil_right _).symm⟩
  | cons head tail =>
      obtain ⟨headSettled, anchored, headTexts⟩ := settled.add_quoted ifs head
      obtain ⟨tailSettled, tailTexts⟩ := foldl_boundary headSettled anchored ifs tail
      rw [quotedSegments_cons, List.foldl_cons]
      refine ⟨tailSettled, ?_⟩
      rw [tailTexts, headTexts]
      rcases List.eq_nil_or_concat b.texts with isEmpty | ⟨front, last, same⟩
      · rw [isEmpty]
        rfl
      · rw [same, List.concat_eq_append, splice_concat_cons, splice_concat_cons]
        simp

/-- So are all parts, one after the other. -/
theorem Settled.texts_foldl_flatMap {b : Builder Field} (settled : b.Settled) (ifs : Option Ifs)
    (lists : List (List Text)) :
    ((lists.flatMap quotedSegments).foldl (add ifs) b).texts = lists.foldl splice b.texts := by
  induction lists generalizing b with
  | nil => rfl
  | cons list lists ih =>
      obtain ⟨nextSettled, nextTexts⟩ := settled.foldl_quotedSegments ifs list
      rw [List.flatMap_cons, List.foldl_append, ih nextSettled, nextTexts, List.foldl_cons]

end Builder

/-- The fields of quoted segments are the spliced lists. -/
theorem text_splitSegments_quotedSegments (ifs : Option Ifs) (lists : List (List Text)) :
    (splitSegments ifs (lists.flatMap quotedSegments)).map Literal.text =
      lists.foldl splice [] :=
  Builder.Settled.texts_foldl_flatMap (.inl rfl) ifs lists

/-! ### What the parts contribute -/

section

variable {World : Type} (host : Host World)

/-- The text of a part between double quotes that is one text.  `$*` and its slices are joined by the
first separator. -/
def quotedText : Part → Expand World Text
  | .literal text _ => return unescapeDoubleQuoted text
  | .expansion (.variable ['*']) _ => do
    let s ← get
    return List.intercalate s.shell.separator s.shell.positional
  | .expansion (.parameter ['*'] none _) _ => do
    let s ← get
    return List.intercalate s.shell.separator s.shell.positional
  | .expansion (.parameter ['*'] (some (.substring offset length)) _) _ => do
    let params ← slicePositional host offset length
    let s ← get
    return List.intercalate s.shell.separator params
  | .expansion expansion _ => evaluate host expansion

/-- The texts that a part contributes between double quotes: the parameters of `$@`, or those that a
slice of it selects, and one text for any other part. -/
def quotedTexts : Part → Expand World (List Text)
  | .expansion (.variable ['@']) _ => do
    let s ← get
    return s.shell.positional
  | .expansion (.parameter ['@'] none _) _ => do
    let s ← get
    return s.shell.positional
  | .expansion (.parameter ['@'] (some (.substring offset length)) _) _ =>
    slicePositional host offset length
  | part => do
    let text ← quotedText host part
    return [text]

/-- The part is the list `$@` or a slice of it. -/
def Part.isPositionalAt : Part → Bool
  | .expansion inner _ => inner.isPositionalAt
  | .literal _ _ => false

/-- A part that is not `$@` contributes exactly one text. -/
theorem quotedTexts_of_not_positionalAt {part : Part} (h : part.isPositionalAt = false) :
    quotedTexts host part = quotedText host part >>= fun text => pure [text] := by
  unfold quotedTexts
  split
  · simp [Part.isPositionalAt, Expansion.isPositionalAt] at h
  · simp [Part.isPositionalAt, Expansion.isPositionalAt] at h
  · simp [Part.isPositionalAt, Expansion.isPositionalAt] at h
  · rfl

/-- An expansion that is no positional list is one quoted segment. -/
theorem partSegments_of_not_list {expansion : Expansion} {own : Option Quote}
    (notList : expansion.positionalList? = none)
    (notSlice : positionalSlice? host expansion = pure none) (continues leading : Bool) :
    partSegments host (some .double) continues leading (.expansion expansion own) =
      evaluate host expansion >>= fun value => pure [.quoted value] := by
  simp only [partSegments, positionalValues?, notList, notSlice, pure_bind]
  rfl

/-- The segment of a part between double quotes that is not `$@` is its text, quoted. -/
theorem partSegments_of_not_positionalAt {part : Part} (h : part.isPositionalAt = false)
    (continues leading : Bool) :
    partSegments host (some .double) continues leading part =
      quotedText host part >>= fun text => pure [.quoted text] := by
  unfold quotedText
  split
  · rfl
  · rfl
  · rfl
  · simp only [partSegments, positionalValues?, Expansion.positionalList?, positionalSlice?,
      PositionalList.ofName?, bind_assoc, pure_bind]
    rfl
  · next expansion own notStar notStarParameter notStarSlice =>
    have notList (name : Text) (notAt : name ≠ ['@']) (notStar : name ≠ ['*']) :
        PositionalList.ofName? name = none := PositionalList.ofName?.eq_3 name notAt notStar
    refine partSegments_of_not_list host ?_ ?_ continues leading
    · unfold Expansion.positionalList?
      split
      · next name =>
        refine notList name ?_ ?_
        · rintro rfl
          simp [Part.isPositionalAt, Expansion.isPositionalAt] at h
        · rintro rfl
          exact notStar rfl
      · next name word =>
        refine notList name ?_ ?_
        · rintro rfl
          simp [Part.isPositionalAt, Expansion.isPositionalAt] at h
        · rintro rfl
          exact notStarParameter word rfl
      · rfl
    · unfold positionalSlice?
      split
      · next name offset length word =>
        rw [notList name]
        · rintro rfl
          simp [Part.isPositionalAt, Expansion.isPositionalAt] at h
        · rintro rfl
          exact notStarSlice offset length word rfl
      · rfl

/-- The segments of a part between double quotes are its texts, quoted. -/
theorem partSegments_doubleQuoted (continues leading : Bool) (part : Part) :
    partSegments host (some .double) continues leading part =
      quotedTexts host part >>= fun texts => pure (quotedSegments texts) := by
  unfold quotedTexts
  split
  · rfl
  · rfl
  · simp only [partSegments, positionalValues?, Expansion.positionalList?, positionalSlice?,
      PositionalList.ofName?, bind_assoc, pure_bind]
    rfl
  · next notAt notAtParameter notAtSlice =>
    have h : part.isPositionalAt = false := by
      unfold Part.isPositionalAt Expansion.isPositionalAt
      split
      · split
        · exact (notAt _ rfl).elim
        · exact (notAtParameter _ _ rfl).elim
        · exact (notAtSlice _ _ _ _ rfl).elim
        · rfl
      · rfl
    rw [partSegments_of_not_positionalAt host h]
    simp only [bind_assoc, pure_bind]
    rfl

/-- The segments of a word between double quotes are the texts of its parts, quoted. -/
theorem partsSegments_doubleQuoted (continues leading : Bool) (parts : List Part) :
    partsSegments host (some .double) continues leading parts =
      parts.mapM (quotedTexts host) >>= fun lists => pure (lists.flatMap quotedSegments) := by
  induction parts generalizing leading with
  | nil => rfl
  | cons part parts ih =>
      rw [partsSegments, partSegments_doubleQuoted, ih, List.mapM_cons]
      simp only [bind_assoc, pure_bind, List.flatMap_cons]

/-- Lists that are all empty come from `$@` alone. -/
theorem isPositionalAt_of_exec_mapM {parts : List Part} {lists : List (List Text)}
    {s s' : Session World} (ran : (parts.mapM (quotedTexts host)).exec s = (.ok lists, s'))
    (empty : ∀ list ∈ lists, list = []) : ∀ part ∈ parts, part.isPositionalAt = true := by
  induction parts generalizing lists s with
  | nil => simp
  | cons part parts ih =>
      rw [List.mapM_cons] at ran
      obtain ⟨texts, t, first, ran⟩ := Run.exec_bind_eq_ok_iff.1 ran
      obtain ⟨rest, t', later, ran⟩ := Run.exec_bind_eq_ok_iff.1 ran
      rw [Run.exec_pure] at ran
      obtain ⟨same, rfl⟩ := Prod.mk.inj ran
      obtain rfl := Except.ok.inj same
      intro other mem
      rcases List.mem_cons.1 mem with rfl | mem
      · cases isAt : other.isPositionalAt with
        | true => rfl
        | false =>
            -- any other part would have contributed one text
            rw [quotedTexts_of_not_positionalAt host isAt] at first
            obtain ⟨text, _, -, one⟩ := Run.exec_bind_eq_ok_iff.1 first
            rw [Run.exec_pure] at one
            cases (Except.ok.inj (Prod.mk.inj one).1).trans (empty texts List.mem_cons_self)
      · exact ih later (fun list mem => empty list (List.mem_cons_of_mem _ mem)) other mem

/-- A word has `$@` in it if one of its parts is `$@`. -/
theorem hasPositionalAt_eq_any (parts : List Part) (quote : Option Quote) :
    (Word.mk parts quote).hasPositionalAt = parts.any Part.isPositionalAt := by
  unfold Word.hasPositionalAt Word.parts
  rfl

/-- There is an argument, unless all parts are `$@` and contribute nothing. -/
theorem foldl_splice_ne_nil {part : Part} {parts : List Part} {lists : List (List Text)}
    {s s' : Session World}
    (ran : ((part :: parts).mapM (quotedTexts host)).exec s = (.ok lists, s'))
    (notAt : (part :: parts).any Part.isPositionalAt = false) : lists.foldl splice [] ≠ [] := by
  intro empty
  have isAt := isPositionalAt_of_exec_mapM host ran (foldl_splice_eq_nil_iff.1 empty).2
  rw [List.any_cons, isAt part List.mem_cons_self] at notAt
  cases notAt

/-- The arguments of a word in double quotes are the texts of its parts, spliced from left to right; a
word without parts is one empty argument. -/
theorem expandWord_eq_splice (parts : List Part) :
    expandWord host (.mk parts (some .double)) =
      parts.mapM (quotedTexts host) >>= fun lists =>
        pure (if parts.isEmpty then [[]] else lists.foldl splice []) := by
  apply Run.ext
  intro s
  change (expandDoubleQuoted host (.mk parts (some .double))).exec s = _
  unfold expandDoubleQuoted wordSegments
  rw [Word.quote_mk, Word.parts_mk, partsSegments_doubleQuoted, bind_assoc, Run.exec_bind,
    Run.exec_bind]
  rcases ran : (parts.mapM (quotedTexts host)).exec s with ⟨error | lists, s'⟩
  · rfl
  · simp only [pure_bind, Run.exec_pure, text_splitSegments_quotedSegments, hasPositionalAt_eq_any]
    -- an empty list of arguments is replaced by one empty argument unless `$@` is there, and without `$@`
    -- only a word without parts has that list
    cases parts with
    | nil =>
        obtain rfl : lists = [] := by
          rw [List.mapM_nil, Run.exec_pure] at ran
          exact (Except.ok.inj (Prod.mk.inj ran).1).symm
        rfl
    | cons part parts =>
        cases isAt : (part :: parts).any Part.isPositionalAt with
        | true => simp
        | false => simp [foldl_splice_ne_nil host ran isAt]

/-- Which files there are makes no difference between double quotes. -/
theorem expandWord_doubleQuoted_files (files : World → FileSystem) (parts : List Part) :
    expandWord { host with files := files } (.mk parts (some .double)) =
      expandWord host (.mk parts (some .double)) := by
  have segments := wordSegments_related (host.simulates_files files)
    (.mk parts (some .double)) fun _ _ _ _ => trivial
  have words : Run.Related Eq (expandWord host (.mk parts (some .double)))
      (expandWord { host with files := files } (.mk parts (some .double))) :=
    .bind segments fun _ => .pure _
  exact words.eq.symm

/-- **A word in double quotes is the splice of its parts.**  Literals and expansions contribute one text
each, `$@` and its slices contribute their parameters; nothing is split, and no file is looked at.  The
word is no argument at all exactly when it has parts, and all of them are `$@` without parameters. -/
theorem expandWord_doubleQuoted (parts : List Part) :
    expandWord host (.mk parts (some .double)) =
        (parts.mapM (quotedTexts host) >>= fun lists =>
          pure (if parts.isEmpty then [[]] else lists.foldl splice [])) ∧
      (∀ s s' : Session World,
        (expandWord host (.mk parts (some .double))).exec s = (.ok [], s') ↔
          parts ≠ [] ∧ (∀ part ∈ parts, part.isPositionalAt = true) ∧
            ∃ lists, (parts.mapM (quotedTexts host)).exec s = (.ok lists, s') ∧
              ∀ list ∈ lists, list = []) ∧
      (∀ files : World → FileSystem,
        expandWord { host with files := files } (.mk parts (some .double)) =
          expandWord host (.mk parts (some .double))) := by
  refine ⟨expandWord_eq_splice host parts, fun s s' => ?_,
    fun files => expandWord_doubleQuoted_files host files parts⟩
  rw [expandWord_eq_splice, Run.exec_bind_eq_ok_iff]
  constructor
  · rintro ⟨lists, t, ran, result⟩
    rw [Run.exec_pure] at result
    obtain ⟨same, rfl⟩ := Prod.mk.inj result
    have none := Except.ok.inj same
    cases parts with
    | nil => simp at none
    | cons part parts =>
        have empty := (foldl_splice_eq_nil_iff.1 (by simpa using none)).2
        exact ⟨by simp, isPositionalAt_of_exec_mapM host ran empty, lists, ran, empty⟩
  · rintro ⟨nonempty, -, lists, ran, empty⟩
    refine ⟨lists, s', ran, ?_⟩
    have none : lists.foldl splice [] = [] := foldl_splice_eq_nil_iff.2 ⟨rfl, empty⟩
    simp [nonempty, none]

end

end ShellWord
