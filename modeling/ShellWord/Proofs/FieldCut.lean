import ShellWord.Proofs.FieldReading

/-!
# Cutting unquoted text into pieces

Unquoted text reaches the fields in pieces: the results of expansions, and literals between them that have no
separators.  Should it matter where one piece ends and the next begins?  This module compares the fields of a
list of pieces with those of their texts put together, as one result.

It does matter.  A piece is read as its characters are, except that a pause, a field ended by soft separators only,
is taken for a gap at every cut.  So the cut shows exactly if it falls into a delimiter between the last
character of a field and a hard separator behind soft ones (`CutsDelimiter`).  There the pieces give an empty field
that the whole text does not have, and a list that is longer by one for every such cut never gets back into step
(`exists_foldl_readPiece`).
-/

namespace ShellWord

namespace Ifs

/-! ### Where pieces and whole texts part -/

/-- At this place the piece is read differently than the text would be: a hard separator, behind the soft
ones of the piece if it begins with any, ends a field that was already ended by soft ones. -/
def Place.Parts (ifs : Ifs) (place : Place) (t : Text) : Prop :=
  ((t.dropWhile ifs.isSoft).head?.any ifs.isHard = true) ∧
    (place = .pause ∨ place ≠ .gap ∧ t.takeWhile ifs.isSoft ≠ [])

instance (ifs : Ifs) (place : Place) (t : Text) : Decidable (place.Parts ifs t) :=
  inferInstanceAs (Decidable (_ ∧ _))

/-- Behind a pause, what is no soft separator is read as it is in a gap, except for a hard separator. -/
theorem exists_foldl_read_pause (ifs : Ifs) {t : Text} (h : ∀ c ∈ t.head?, ifs.isSoft c = false) :
    ∃ new new' place,
      (∀ done, t.foldl (Reading.read ifs) ⟨done, .pause⟩ = ⟨new ++ done, place⟩) ∧
      (∀ done, (t.foldl (Reading.read ifs) ⟨done, .gap⟩).cut = ⟨new' ++ done, place.cut⟩) ∧
      if t.head?.any ifs.isHard then new'.length = new.length + 1 else new' = new := by
  cases t with
  | nil => exact ⟨[], [], .pause, fun _ => rfl, fun _ => rfl, rfl⟩
  | cons c rest =>
      have soft : ifs.isSoft c = false := h c rfl
      by_cases hard : ifs.isHard c = true
      · obtain ⟨new, place, run⟩ := exists_foldl_read ifs .gap rest
        refine ⟨new, new ++ [[]], place, fun done => ?_, fun done => ?_, by simp [hard]⟩
        · have first : Reading.read ifs ⟨done, .pause⟩ c = ⟨done, .gap⟩ := by
            simp [Reading.read, Place.read, soft, hard]
          rw [List.foldl_cons, first, run]
        · have first : Reading.read ifs ⟨done, .gap⟩ c = ⟨[] :: done, .gap⟩ := by
            simp [Reading.read, Place.read, soft, hard]
          rw [List.foldl_cons, first, run, List.append_assoc]
          rfl
      · obtain ⟨new, place, run⟩ := exists_foldl_read ifs .pause (c :: rest)
        refine ⟨new, new, place, run, fun done => ?_, by simp [hard]⟩
        have same : Reading.read ifs ⟨done, .gap⟩ c = Reading.read ifs ⟨done, .pause⟩ c := by
          simp [Reading.read, Place.read, soft, hard]
        rw [List.foldl_cons, same, ← List.foldl_cons, run]
        rfl

/-- A piece and its characters: the places stay the same but for the cut, and the fields but for an empty one
where they part. -/
theorem exists_readPiece (ifs : Ifs) (place : Place) (t : Text) :
    ∃ new new' place',
      (∀ done, t.foldl (Reading.read ifs) ⟨done, place⟩ = ⟨new ++ done, place'⟩) ∧
      (∀ done, Reading.readPiece ifs ⟨done, place.cut⟩ t = ⟨new' ++ done, place'.cut⟩) ∧
      if place.Parts ifs t then new'.length = new.length + 1 else new' = new := by
  have soft : ∀ c ∈ t.takeWhile ifs.isSoft, ifs.isSoft c = true := fun c mem => isSoft_of_mem_takeWhile mem
  have head : ∀ c ∈ (t.dropWhile ifs.isSoft).head?, ifs.isSoft c = false := by
    intro c first
    obtain ⟨rest, h⟩ := List.head?_eq_some_iff.1 first
    exact isSoft_of_dropWhile h
  have whole (r : Reading) : t.foldl (Reading.read ifs) r =
      (t.dropWhile ifs.isSoft).foldl (Reading.read ifs)
        ((t.takeWhile ifs.isSoft).foldl (Reading.read ifs) r) := by
    rw [← List.foldl_append, List.takeWhile_append_dropWhile]
  have front (done : List Text) : (if t.takeWhile ifs.isSoft = [] then (⟨done, .gap⟩ : Reading)
      else Reading.separate ⟨done, .gap⟩) = ⟨done, .gap⟩ := ite_self _
  cases place with
  | gap =>
      obtain ⟨new, place', run⟩ := exists_foldl_read ifs .gap (t.dropWhile ifs.isSoft)
      refine ⟨new, new, place', fun done => ?_, fun done => ?_, by simp [Place.Parts]⟩
      · rw [whole, foldl_read_of_not_field (fun _ => Place.noConfusion) soft, run]
      · rw [Reading.readPiece, Place.cut, front, run]
        rfl
  | pause =>
      obtain ⟨new, new', place', run, cut, parts⟩ := exists_foldl_read_pause ifs head
      refine ⟨new, new', place', fun done => ?_, fun done => ?_, by simpa [Place.Parts] using parts⟩
      · rw [whole, foldl_read_of_not_field (fun _ => Place.noConfusion) soft, run]
      · rw [Reading.readPiece, Place.cut, front, cut]
  | field text =>
      by_cases none : t.takeWhile ifs.isSoft = []
      · obtain ⟨new, place', run⟩ := exists_foldl_read ifs (.field text) (t.dropWhile ifs.isSoft)
        refine ⟨new, new, place', fun done => ?_, fun done => ?_, by simp [Place.Parts, none]⟩
        · rw [whole, none, List.foldl_nil, run]
        · rw [Reading.readPiece, if_pos none, Place.cut, run]
          rfl
      · obtain ⟨new, new', place', run, cut, parts⟩ := exists_foldl_read_pause ifs head
        refine ⟨new ++ [text], new' ++ [text], place', fun done => ?_, fun done => ?_, ?_⟩
        · rw [whole, foldl_read_field_soft none soft, run, List.append_assoc]
          rfl
        · rw [Reading.readPiece, if_neg none, Place.cut]
          exact (cut (text :: done)).trans (by simp)
        · simpa [Place.Parts, none] using parts

/-- Where reading is behind a text, from a place on. -/
def Place.after (ifs : Ifs) (place : Place) (t : Text) : Place :=
  (t.foldl (Reading.read ifs) ⟨[], place⟩).place

theorem Place.after_append (ifs : Ifs) (place : Place) (s t : Text) :
    place.after ifs (s ++ t) = (place.after ifs s).after ifs t := by
  obtain ⟨new, place', run⟩ := exists_foldl_read ifs place s
  obtain ⟨new', place'', run'⟩ := exists_foldl_read ifs place' t
  simp only [Place.after, List.foldl_append, run, run']

/-- How many of the pieces are read differently than the text they make up. -/
def partings (ifs : Ifs) : Place → List Text → Nat
  | _, [] => 0
  | place, t :: pieces =>
    (if place.Parts ifs t then 1 else 0) + partings ifs (place.after ifs t) pieces

/-- **Pieces and whole text.**  The pieces give as many fields more as they are read differently, and the
same fields if they never are. -/
theorem exists_foldl_readPiece (ifs : Ifs) (place : Place) (pieces : List Text) :
    ∃ new new' place',
      (∀ done, pieces.flatten.foldl (Reading.read ifs) ⟨done, place⟩ = ⟨new ++ done, place'⟩) ∧
      (∀ done, pieces.foldl (Reading.readPiece ifs) ⟨done, place.cut⟩ = ⟨new' ++ done, place'.cut⟩) ∧
      new'.length = new.length + partings ifs place pieces ∧
      (partings ifs place pieces = 0 → new' = new) := by
  induction pieces generalizing place with
  | nil => exact ⟨[], [], place, fun _ => rfl, fun _ => rfl, rfl, fun _ => rfl⟩
  | cons t pieces ih =>
      obtain ⟨new, new', place', run, cut, parts⟩ := exists_readPiece ifs place t
      have after : place.after ifs t = place' := by rw [Place.after, run]
      obtain ⟨more, more', place'', runs, cuts, count, same⟩ := ih place'
      refine ⟨more ++ new, more' ++ new', place'', fun done => ?_, fun done => ?_, ?_, ?_⟩
      · rw [List.flatten_cons, List.foldl_append, run, runs, List.append_assoc]
      · rw [List.foldl_cons, cut, cuts, List.append_assoc]
      · rw [List.length_append, List.length_append, count, partings, after]
        split at parts
        · rw [if_pos ‹_›, parts]
          omega
        · rw [if_neg ‹_›, parts]
          omega
      · intro none
        rw [partings, after] at none
        split at parts
        · rw [if_pos ‹_›] at none
          omega
        · rw [if_neg ‹_›] at none
          rw [parts, same (by omega)]

/-! ### Cutting a delimiter -/

/-- Some cut between the pieces falls into a delimiter: behind the last character `x` of a field and before a
hard separator `h`, with soft separators between the two. -/
def CutsDelimiter (ifs : Ifs) (pieces : List Text) : Prop :=
  ∃ before after, pieces = before ++ after ∧
    ∃ u x s s' h v, before.flatten = u ++ x :: s ∧ after.flatten = s' ++ h :: v ∧
      ifs.isSeparator x = false ∧ (∀ c ∈ s ++ s', ifs.isSoft c = true) ∧ s ++ s' ≠ [] ∧
      ifs.isHard h = true

/-- Behind the last character of a field and soft separators. -/
theorem Place.after_of_soft (ifs : Ifs) (place : Place) (u : Text) {x : Char} {s : Text}
    (hx : ifs.isSeparator x = false) (soft : ∀ c ∈ s, ifs.isSoft c = true) :
    place.after ifs (u ++ x :: s) ≠ .gap ∧ (s ≠ [] → place.after ifs (u ++ x :: s) = .pause) := by
  rw [Place.after_append]
  obtain ⟨done, text, first⟩ : ∃ done text,
      Reading.read ifs ⟨[], place.after ifs u⟩ x = ⟨done, .field text⟩ := by
    cases place.after ifs u <;>
      simp [Reading.read, Place.read, isSoft_of_not_isSeparator hx, isHard_of_not_isSeparator hx]
  rw [Place.after, List.foldl_cons, first]
  by_cases ne : s = []
  · subst ne
    exact ⟨Place.noConfusion, fun absent => absurd rfl absent⟩
  · rw [foldl_read_field_soft ne soft]
    exact ⟨Place.noConfusion, fun _ => rfl⟩

/-- Reading is elsewhere than in a gap only behind a character of a field and soft separators. -/
theorem Place.exists_of_after_ne_gap (ifs : Ifs) {t : Text} (h : Place.gap.after ifs t ≠ .gap) :
    ∃ u x s, t = u ++ x :: s ∧ ifs.isSeparator x = false ∧ (∀ c ∈ s, ifs.isSoft c = true) ∧
      (Place.gap.after ifs t = .pause → s ≠ []) := by
  induction t using List.reverseRecOn with
  | nil => exact absurd rfl h
  | append_singleton t c ih =>
      have last : Place.gap.after ifs (t ++ [c]) = ((Place.gap.after ifs t).read ifs c).2 :=
        Place.after_append ifs .gap t [c]
      rw [last] at h ⊢
      cases soft : ifs.isSoft c with
      | true =>
          have before : Place.gap.after ifs t ≠ .gap := by
            intro gap
            rw [gap] at h
            simp [Place.read, soft] at h
          obtain ⟨u, x, s, rfl, hx, hs, -⟩ := ih before
          refine ⟨u, x, s ++ [c], by simp, hx, ?_, fun _ => by simp⟩
          intro d mem
          rcases List.mem_append.1 mem with mem | mem
          · exact hs d mem
          · rw [List.mem_singleton.1 mem]
            exact soft
      | false =>
          have notHard : ifs.isHard c = false := by
            by_contra hard
            simp only [Bool.not_eq_false] at hard
            cases place : Place.gap.after ifs t <;> simp [place, Place.read, soft, hard] at h
          have plain : ifs.isSeparator c = false := by
            by_contra separator
            simp [isHard_of_not_isSoft (by simpa using separator) soft] at notHard
          refine ⟨t, c, [], rfl, plain, by simp, ?_⟩
          cases Place.gap.after ifs t <;> simp [Place.read, soft, notHard]

/-- Some piece is read differently exactly if one of them is, behind those before it. -/
theorem partings_ne_zero_iff (ifs : Ifs) (place : Place) (pieces : List Text) :
    partings ifs place pieces ≠ 0 ↔
      ∃ before t after, pieces = before ++ t :: after ∧
        (place.after ifs before.flatten).Parts ifs t := by
  induction pieces generalizing place with
  | nil => simp [partings]
  | cons t pieces ih =>
      have split : partings ifs place (t :: pieces) ≠ 0 ↔
          place.Parts ifs t ∨ partings ifs (place.after ifs t) pieces ≠ 0 := by
        rw [partings]
        split <;> simp [*]
      rw [split, ih]
      constructor
      · rintro (parts | ⟨before, t', after, rfl, parts⟩)
        · exact ⟨[], t, pieces, rfl, parts⟩
        · refine ⟨t :: before, t', after, rfl, ?_⟩
          rwa [List.flatten_cons, Place.after_append]
      · rintro ⟨before, t', after, same, parts⟩
        cases before with
        | nil =>
            obtain ⟨rfl, rfl⟩ := List.cons.inj same
            exact .inl parts
        | cons first before =>
            obtain ⟨rfl, rfl⟩ := List.cons.inj same
            rw [List.flatten_cons, Place.after_append] at parts
            exact .inr ⟨before, t', after, rfl, parts⟩

/-- The piece in which a character of a text lies. -/
theorem exists_piece_of_flatten {pieces : List Text} {s v : Text} {h : Char}
    (joined : pieces.flatten = s ++ h :: v) :
    ∃ before s₁ s₂ v' after, pieces = before ++ (s₂ ++ h :: v') :: after ∧
      before.flatten = s₁ ∧ s = s₁ ++ s₂ := by
  rcases List.flatten_eq_append_iff.1 joined with ⟨before, rest, rfl, rfl, inner⟩ |
    ⟨before, s₂, c, cs, after, rfl, rfl, inner⟩
  · obtain ⟨empties, v', after, rfl, empty, -⟩ := List.flatten_eq_cons_iff.1 inner.symm
    refine ⟨before ++ empties, before.flatten, [], v', after, by simp, ?_, by simp⟩
    rw [List.flatten_append, List.flatten_eq_nil_iff.2 empty, List.append_nil]
  · obtain ⟨rfl, -⟩ := List.cons.inj inner
    exact ⟨before, before.flatten, s₂, cs, after, rfl, rfl, rfl⟩

/-- Pieces are read differently than the text they make up exactly if a delimiter is cut. -/
theorem partings_ne_zero_iff_cutsDelimiter (ifs : Ifs) (pieces : List Text) :
    partings ifs .gap pieces ≠ 0 ↔ CutsDelimiter ifs pieces := by
  rw [partings_ne_zero_iff]
  constructor
  · rintro ⟨before, t, after, rfl, front, behind⟩
    obtain ⟨h, first, hard⟩ := (Option.any_eq_true _ _).1 front
    obtain ⟨rest, dropped⟩ := List.head?_eq_some_iff.1 first
    have notGap : Place.gap.after ifs before.flatten ≠ .gap := by
      rcases behind with pause | ⟨notGap, -⟩
      · rw [pause]
        exact Place.noConfusion
      · exact notGap
    obtain ⟨u, x, s, ends, hx, soft, paused⟩ := Place.exists_of_after_ne_gap ifs notGap
    refine ⟨before, t :: after, rfl, u, x, s, t.takeWhile ifs.isSoft, h, rest ++ after.flatten, ends, ?_, hx,
      ?_, ?_, hard⟩
    · conv_lhs => rw [List.flatten_cons, ← List.takeWhile_append_dropWhile (p := ifs.isSoft) (l := t), dropped]
      simp
    · intro c mem
      rcases List.mem_append.1 mem with mem | mem
      · exact soft c mem
      · exact isSoft_of_mem_takeWhile mem
    · intro none
      obtain ⟨noSoft, noFront⟩ := List.append_eq_nil_iff.1 none
      rcases behind with pause | ⟨-, found⟩
      · exact paused pause noSoft
      · exact found noFront
  · rintro ⟨before, after, rfl, u, x, s, s', h, v, ends, begins, hx, soft, ne, hard⟩
    -- the last cut before the hard separator shows, wherever the delimiter is cut first
    obtain ⟨between, s₁, s₂, v', rest, rfl, passed, rfl⟩ := exists_piece_of_flatten begins
    have softFront : ∀ c ∈ s ++ s₁, ifs.isSoft c = true := fun c mem => soft c (by
      rw [← List.append_assoc]
      exact List.mem_append_left _ mem)
    have softPiece : ∀ c ∈ s₂, ifs.isSoft c = true := fun c mem =>
      soft c (List.mem_append_right _ (List.mem_append_right _ mem))
    have flat : (before ++ between).flatten = u ++ x :: (s ++ s₁) := by
      rw [List.flatten_append, ends, passed]
      simp
    obtain ⟨notGap, pause⟩ := Place.after_of_soft ifs .gap u hx softFront
    rw [← flat] at notGap pause
    refine ⟨before ++ between, s₂ ++ h :: v', rest, by simp, ?_, ?_⟩
    · rw [List.dropWhile_append_of_pos softPiece, List.dropWhile_cons_of_neg (by simp [isSoft_of_isHard hard])]
      exact hard
    · by_cases none : s ++ s₁ = []
      · refine .inr ⟨notGap, ?_⟩
        rw [List.takeWhile_append_of_pos softPiece, List.takeWhile_cons_of_neg (by simp [isSoft_of_isHard hard]),
          List.append_nil]
        rintro rfl
        rw [List.append_nil] at ne
        exact ne none
      · exact .inl (pause none)

theorem Reading.fields_mk_eq_iff {done done' : List Text} {place : Place} :
    Reading.fields ⟨done, place⟩ = Reading.fields ⟨done', place⟩ ↔ done = done' := by
  cases place <;> simp [Reading.fields]

/-- The fields of pieces are those of the text they make up exactly if no delimiter is cut. -/
theorem fields_foldl_readPiece_eq_iff (ifs : Ifs) (pieces : List Text) :
    (pieces.foldl (Reading.readPiece ifs) .start).fields =
        (pieces.flatten.foldl (Reading.read ifs) .start).fields ↔
      ¬ CutsDelimiter ifs pieces := by
  obtain ⟨new, new', place, run, cut, count, same⟩ := exists_foldl_readPiece ifs .gap pieces
  have pieced : (pieces.foldl (Reading.readPiece ifs) .start).fields = Reading.fields ⟨new' ++ [], place⟩ := by
    rw [← Reading.fields_cut ⟨new' ++ [], place⟩]
    exact congrArg Reading.fields (cut [])
  have whole : (pieces.flatten.foldl (Reading.read ifs) .start).fields = Reading.fields ⟨new ++ [], place⟩ :=
    congrArg Reading.fields (run [])
  rw [pieced, whole, Reading.fields_mk_eq_iff, ← partings_ne_zero_iff_cutsDelimiter, not_not,
    List.append_nil, List.append_nil]
  refine ⟨fun equal => ?_, same⟩
  rw [equal] at count
  omega

end Ifs

/-- **Cuts show only inside of delimiters.**  Take segments of unquoted text: results, and literals without
separators.  Their fields are those of their texts put together exactly if no cut falls between a field and a
hard separator that soft ones part from it.  In particular they are the same if all separators are soft, or
all are hard. -/
theorem splitSegments_eq_joined_iff (ifs : Ifs) (segments : List Segment)
    (unquoted : ∀ segment ∈ segments, segment.Unquoted ifs) :
    ((splitSegments (some ifs) segments).map Literal.text =
        (splitSegments (some ifs) [.splittable (segments.flatMap Segment.text)]).map Literal.text ↔
      ¬ ifs.CutsDelimiter (segments.map Segment.text)) ∧
    ((∀ c, ifs.isHard c = false) ∨ (∀ c, ifs.isSoft c = false) →
      (splitSegments (some ifs) segments).map Literal.text =
        (splitSegments (some ifs) [.splittable (segments.flatMap Segment.text)]).map Literal.text) := by
  have joined : (splitSegments (some ifs) [.splittable (segments.flatMap Segment.text)]).map Literal.text =
      ((segments.map Segment.text).flatten.foldl (Ifs.Reading.read ifs) .start).fields := by
    have one := (Ifs.fields_foldl_readPiece_eq_iff ifs [segments.flatMap Segment.text]).2 (by
      rw [← Ifs.partings_ne_zero_iff_cutsDelimiter]
      simp [Ifs.partings, Ifs.Place.Parts])
    rw [map_text_splitSegments ifs (by simp [Segment.Unquoted])]
    simpa [Segment.text, List.flatMap] using one
  have whole := Ifs.fields_foldl_readPiece_eq_iff ifs (segments.map Segment.text)
  rw [map_text_splitSegments ifs unquoted, joined]
  refine ⟨whole, fun kinds => whole.2 ?_⟩
  rintro ⟨before, after, -, u, x, s, s', h, v, -, -, -, soft, ne, hard⟩
  rcases kinds with noHard | noSoft
  · rw [noHard] at hard
    cases hard
  · obtain ⟨c, mem⟩ := List.exists_mem_of_ne_nil _ ne
    have := soft c mem
    rw [noSoft] at this
    cases this

/-- The separators are a blank, which is soft, and a colon, which is hard. -/
def Ifs.blankColon : Ifs := ⟨[' ', ':']⟩

/-- The literal `a`, and behind it a result that begins with both separators. -/
def Segment.cutBeforeBlank : List Segment :=
  [.fixed (.active ['a']) false, .splittable [' ', ':', 'b']]

theorem unquoted_cutBeforeBlank :
    ∀ segment ∈ Segment.cutBeforeBlank, segment.Unquoted .blankColon := by
  intro segment mem
  rcases List.mem_cons.1 mem with rfl | mem
  · refine ⟨rfl, fun c inside => ?_⟩
    rw [List.mem_singleton.1 inside]
    rfl
  · rw [List.mem_singleton.1 mem]
    trivial

/-- The theorem applies here, and the cut shows. -/
theorem splitSegments_cutBeforeBlank_ne_joined :
    (∀ segment ∈ Segment.cutBeforeBlank, segment.Unquoted .blankColon) ∧
    (splitSegments (some .blankColon) Segment.cutBeforeBlank).map Literal.text ≠
      (splitSegments (some .blankColon)
        [.splittable (Segment.cutBeforeBlank.flatMap Segment.text)]).map Literal.text := by
  refine ⟨unquoted_cutBeforeBlank, fun same => ?_⟩
  refine (splitSegments_eq_joined_iff .blankColon _ unquoted_cutBeforeBlank).1.1 same ?_
  refine ⟨[['a']], [[' ', ':', 'b']], rfl, [], 'a', [], [' '], ':', ['b'], rfl, rfl, rfl, fun c soft => ?_,
    List.cons_ne_nil _ _, rfl⟩
  rw [List.mem_singleton.1 soft]
  rfl

/-- Between `a` and `b` stand a blank and a colon, which are one delimiter: the text has two fields.  Cut before
the blank, it has three. -/
theorem cut_adds_empty_field :
    (∀ segment ∈ Segment.cutBeforeBlank, segment.Unquoted .blankColon) ∧
    (splitSegments (some .blankColon) Segment.cutBeforeBlank).map Literal.text = [['a'], [], ['b']] ∧
    (splitSegments (some .blankColon)
      [.splittable (Segment.cutBeforeBlank.flatMap Segment.text)]).map Literal.text = [['a'], ['b']] := by
  refine ⟨unquoted_cutBeforeBlank, ?_, ?_⟩
  · rw [map_text_splitSegments _ unquoted_cutBeforeBlank]
    decide
  · rw [map_text_splitSegments _ (by simp [Segment.Unquoted])]
    decide

end ShellWord
