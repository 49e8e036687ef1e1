import ShellWord.Proofs.FieldReading

/-!
# Fields and the delimiters between them

Splitting a text at separators can be said without saying how it is done.  The text is cut into the soft separators
in front of it, and into fields with a delimiter behind each of them; only the last field may have none.  A field is
a run of characters that are no separators, and may be empty.  A delimiter is a hard separator together with the
soft ones around it, or a run of soft separators with nothing hard next to it.  Every run is as long as it can be.

`Ifs.Decomposition` is such a cut, with the proof that it is one.  There is exactly one for every text and every
`IFS`, and `Ifs.split` finds it (`Ifs.split_eq_decomposition`).

### What is load-bearing

A hard delimiter takes all soft separators behind it, so that the next delimiter never begins with one of them unless a
field stands in between.  This is the only reason why two hard separators with soft ones between them cannot be cut
in two ways.
-/

namespace ShellWord

/-- A run of characters with a property, and what stands behind it. -/
theorem Text.span_append {p : Char → Bool} {run rest : Text} (inside : ∀ c ∈ run, p c = true)
    (outside : ∀ c ∈ rest.head?, p c = false) :
    (run ++ rest).takeWhile p = run ∧ (run ++ rest).dropWhile p = rest := by
  rw [List.takeWhile_append_of_pos inside, List.dropWhile_append_of_pos inside]
  cases rest with
  | nil => simp
  | cons c rest => simp [outside c rfl]

/-- The last character of two texts is one of the second text, unless that is empty. -/
theorem Text.mem_of_getLast?_append {s t : Text} (ne : t ≠ []) {c : Char} (h : c ∈ (s ++ t).getLast?) :
    c ∈ t := by
  obtain ⟨front, last, rfl⟩ := t.eq_nil_or_concat.resolve_left ne
  obtain rfl : last = c := by simpa [← List.append_assoc] using h
  simp

namespace Ifs

/-! ### Cuts -/

/-- A field, and the delimiter behind it. -/
structure Delimited where
  field : Text
  delimiter : Text
  deriving DecidableEq, Repr

/-- The text that fields and delimiters make up. -/
def source (items : List Delimited) : Text :=
  items.flatMap fun item => item.field ++ item.delimiter

@[simp] theorem source_nil : source [] = [] := rfl

@[simp] theorem source_cons (item : Delimited) (items : List Delimited) :
    source (item :: items) = item.field ++ (item.delimiter ++ source items) := by
  simp [source]

/-- The delimiter at the end, if there is one. -/
def ending (items : List Delimited) : Text :=
  (items.getLast?.map Delimited.delimiter).getD []

theorem ending_singleton (item : Delimited) : ending [item] = item.delimiter := rfl

theorem ending_cons_cons (item next : Delimited) (items : List Delimited) :
    ending (item :: next :: items) = ending (next :: items) := by
  simp [ending]

variable (ifs : Ifs)

/-- Between what stands before and behind it, the text is a longest run of characters that are no separators. -/
structure IsField (before text after : Text) : Prop where
  inside : ∀ c ∈ text, ifs.isSeparator c = false
  front : ∀ c ∈ before.getLast?, ifs.isSeparator c = true
  behind : ∀ c ∈ after.head?, ifs.isSeparator c = true

/-- Between a field and what stands behind it, the text is a delimiter. -/
inductive IsDelimiter (before : Text) : (text after : Text) → Prop where
  /-- A hard separator, the soft ones between it and the field, and all soft ones behind it. -/
  | hard {s s' after : Text} {h : Char} (soft : ∀ c ∈ s, ifs.isSoft c = true) (isHard : ifs.isHard h = true)
      (soft' : ∀ c ∈ s', ifs.isSoft c = true) (behind : ∀ c ∈ after.head?, ifs.isSoft c = false) :
      IsDelimiter before (s ++ h :: s') after
  /-- A longest run of soft separators without a hard one next to it. -/
  | soft {s after : Text} (ne : s ≠ []) (soft : ∀ c ∈ s, ifs.isSoft c = true)
      (front : ∀ c ∈ before.getLast?, ifs.isSeparator c = false)
      (behind : ∀ c ∈ after.head?, ifs.isSeparator c = false) :
      IsDelimiter before s after

/-- Behind the text `before`, the items are fields with their delimiters. -/
inductive Cut : (before : Text) → List Delimited → Prop where
  | nil {before : Text} : Cut before []
  /-- The last field has no delimiter; then it is not empty. -/
  | last {before text : Text} (ne : text ≠ []) (isField : ifs.IsField before text []) :
      Cut before [⟨text, []⟩]
  | cons {before : Text} {item : Delimited} {items : List Delimited}
      (isField : ifs.IsField before item.field (item.delimiter ++ source items))
      (isDelimiter : ifs.IsDelimiter (before ++ item.field) item.delimiter (source items))
      (rest : Cut (before ++ item.field ++ item.delimiter) items) :
      Cut before (item :: items)

/-- A text cut into the soft separators in front, and fields with their delimiters. -/
@[ext] structure Decomposition (text : Text) where
  lead : Text
  items : List Delimited
  append_source : lead ++ source items = text
  lead_soft : ∀ c ∈ lead, ifs.isSoft c = true
  /-- The soft separators in front are all there are. -/
  lead_longest : ∀ c ∈ (source items).head?, ifs.isSoft c = false
  cut : ifs.Cut lead items

variable {ifs}

/-- The fields of a text. -/
def Decomposition.fields {text : Text} (d : ifs.Decomposition text) : List Text :=
  d.items.map Delimited.field

/-- The delimiter at the end of a text, or nothing if it ends with a field. -/
def Decomposition.ending {text : Text} (d : ifs.Decomposition text) : Text :=
  Ifs.ending d.items

/-! ### Delimiters -/

theorem isSeparator_of_isSoft {c : Char} (h : ifs.isSoft c = true) : ifs.isSeparator c = true :=
  (Bool.and_eq_true_iff.1 h).1

theorem isSeparator_of_isHard {c : Char} (h : ifs.isHard c = true) : ifs.isSeparator c = true :=
  (Bool.and_eq_true_iff.1 h).1

namespace IsDelimiter

variable {before text after : Text}

theorem ne_nil (h : ifs.IsDelimiter before text after) : text ≠ [] := by
  cases h with
  | hard => simp
  | soft ne => exact ne

theorem isSeparator (h : ifs.IsDelimiter before text after) : ∀ c ∈ text, ifs.isSeparator c = true := by
  cases h with
  | hard soft isHard soft' behind =>
      intro c mem
      rcases List.mem_append.1 mem with mem | mem
      · exact isSeparator_of_isSoft (soft c mem)
      · rcases List.mem_cons.1 mem with rfl | mem
        · exact isSeparator_of_isHard isHard
        · exact isSeparator_of_isSoft (soft' c mem)
  | soft ne soft front behind => exact fun c mem => isSeparator_of_isSoft (soft c mem)

/-- Nothing of a delimiter is kept. -/
theorem filter (h : ifs.IsDelimiter before text after) : text.filter (fun c => !ifs.isSeparator c) = [] :=
  List.filter_eq_nil_iff.2 fun c mem => by simp [h.isSeparator c mem]

/-- No soft separator follows a delimiter. -/
theorem isSoft_head? (h : ifs.IsDelimiter before text after) : ∀ c ∈ after.head?, ifs.isSoft c = false := by
  cases h with
  | hard soft isHard soft' behind => exact behind
  | soft ne soft front behind => exact fun c mem => isSoft_of_not_isSeparator (behind c mem)

/-- A delimiter is what is dropped as one. -/
theorem dropDelimiter (h : ifs.IsDelimiter before text after) :
    ifs.dropDelimiter (text ++ after) = after := by
  unfold Ifs.dropDelimiter
  cases h with
  | @hard s s' after h soft isHard soft' behind =>
      have stops : ∀ c ∈ (h :: (s' ++ after)).head?, ifs.isSoft c = false := by
        intro c mem
        obtain rfl : h = c := by simpa using mem
        exact isSoft_of_isHard isHard
      have split : s ++ h :: s' ++ after = s ++ h :: (s' ++ after) := by simp
      rw [split, (Text.span_append soft stops).2]
      simp only [isHard, if_true]
      exact (Text.span_append soft' behind).2
  | soft ne soft front behind =>
      rw [(Text.span_append soft fun c mem => isSoft_of_not_isSeparator (behind c mem)).2]
      cases after with
      | nil => rfl
      | cons c after =>
          have notHard : ifs.isHard c = false := isHard_of_not_isSeparator (behind c rfl)
          simp [notHard]

end IsDelimiter

/-- What is dropped as a delimiter is one, unless it is soft and follows a separator. -/
theorem exists_isDelimiter {before : Text} (rest : Text) {c : Char} (separator : ifs.isSeparator c = true)
    (front : ifs.isSoft c = true → ∀ d ∈ before.getLast?, ifs.isSeparator d = false) :
    ∃ text, text ++ ifs.dropDelimiter (c :: rest) = c :: rest ∧
      ifs.IsDelimiter before text (ifs.dropDelimiter (c :: rest)) := by
  have whole := List.takeWhile_append_dropWhile (p := ifs.isSoft) (l := c :: rest)
  have soft : ∀ d ∈ (c :: rest).takeWhile ifs.isSoft, ifs.isSoft d = true :=
    fun d mem => isSoft_of_mem_takeWhile mem
  have begins (found : (c :: rest).takeWhile ifs.isSoft ≠ []) : ifs.isSoft c = true := by
    by_contra notSoft
    exact found (List.takeWhile_cons_of_neg notSoft)
  unfold Ifs.dropDelimiter
  cases behind : (c :: rest).dropWhile ifs.isSoft with
  | nil =>
      rw [behind, List.append_nil] at whole
      rw [whole] at soft
      refine ⟨c :: rest, by simp, .soft (List.cons_ne_nil _ _) soft (front (soft c List.mem_cons_self)) ?_⟩
      simp
  | cons d after =>
      rw [behind] at whole
      by_cases hard : ifs.isHard d = true
      · refine ⟨(c :: rest).takeWhile ifs.isSoft ++ d :: after.takeWhile ifs.isSoft, ?_, ?_⟩
        · simp only [hard, if_true]
          rw [List.append_assoc, List.cons_append, List.takeWhile_append_dropWhile, whole]
        · simp only [hard, if_true]
          refine .hard soft hard (fun e mem => isSoft_of_mem_takeWhile mem) fun e mem => ?_
          obtain ⟨tail, dropped⟩ := List.head?_eq_some_iff.1 mem
          exact isSoft_of_dropWhile dropped
      · have plain : ifs.isSeparator d = false := by
          by_contra found
          exact hard (isHard_of_not_isSoft (by simpa using found) (isSoft_of_dropWhile behind))
        have ne : (c :: rest).takeWhile ifs.isSoft ≠ [] := by
          intro none
          rw [none] at whole
          obtain ⟨rfl, -⟩ := List.cons.inj whole
          rw [separator] at plain
          cases plain
        simp only [hard, if_false, Bool.false_eq_true]
        refine ⟨(c :: rest).takeWhile ifs.isSoft, whole, .soft ne soft (front (begins ne)) ?_⟩
        intro e mem
        obtain rfl : d = e := by simpa using mem
        exact plain

/-! ### Exactly one cut -/

/-- A field ends at the first separator. -/
theorem IsField.span {before text after : Text} (h : ifs.IsField before text after) :
    (text ++ after).takeWhile (fun c => !ifs.isSeparator c) = text ∧
      (text ++ after).dropWhile (fun c => !ifs.isSeparator c) = after :=
  Text.span_append (fun c mem => by simp [h.inside c mem]) fun c mem => by simp [h.behind c mem]

/-- A field is kept as it is. -/
theorem IsField.filter {before text after : Text} (h : ifs.IsField before text after) :
    text.filter (fun c => !ifs.isSeparator c) = text :=
  List.filter_eq_self.2 fun c mem => by simp [h.inside c mem]

namespace Cut

variable {before before' : Text} {item : Delimited} {items items' : List Delimited}

theorem source_ne_nil (cut : ifs.Cut before items) (ne : items ≠ []) : source items ≠ [] := by
  cases cut with
  | nil => exact absurd rfl ne
  | last ne' => simpa using ne'
  | cons isField isDelimiter rest => simp [isDelimiter.ne_nil]

/-- Behind its first field, a cut text has what is dropped as a delimiter, and then the other items. -/
theorem cons_inv (cut : ifs.Cut before (item :: items)) :
    ifs.IsField before item.field (item.delimiter ++ source items) ∧
      ifs.dropDelimiter (item.delimiter ++ source items) = source items ∧
      ifs.Cut (before ++ item.field ++ item.delimiter) items := by
  cases cut with
  | last ne isField => exact ⟨isField, rfl, .nil⟩
  | cons isField isDelimiter rest => exact ⟨isField, isDelimiter.dropDelimiter, rest⟩

/-- Cuts of one text are the same. -/
theorem unique (cut : ifs.Cut before items) (cut' : ifs.Cut before' items')
    (same : source items = source items') : items = items' := by
  induction items generalizing before before' items' with
  | nil =>
      by_contra ne
      exact cut'.source_ne_nil (Ne.symm ne) same.symm
  | cons item items ih =>
      cases items' with
      | nil => exact absurd same (cut.source_ne_nil (List.cons_ne_nil _ _))
      | cons item' items' =>
          obtain ⟨isField, dropped, rest⟩ := cut.cons_inv
          obtain ⟨isField', dropped', rest'⟩ := cut'.cons_inv
          rw [source_cons, source_cons] at same
          have fields : item.field = item'.field := by
            rw [← isField.span.1, same, isField'.span.1]
          have behind : item.delimiter ++ source items = item'.delimiter ++ source items' := by
            rw [← isField.span.2, same, isField'.span.2]
          have sources : source items = source items' := by rw [← dropped, behind, dropped']
          have delimiters : item.delimiter = item'.delimiter := by
            rw [sources] at behind
            exact List.append_cancel_right behind
          obtain ⟨field, delimiter⟩ := item
          obtain rfl : field = item'.field := fields
          obtain rfl : delimiter = item'.delimiter := delimiters
          rw [ih rest rest' sources]

/-- The fields of a cut text are those that splitting finds, and a delimiter at its end is noticed. -/
theorem fields_source (cut : ifs.Cut before (item :: items)) :
    ifs.fields (source (item :: items)) =
      ((item :: items).map Delimited.field, !(ending (item :: items)).isEmpty) := by
  induction items generalizing before item with
  | nil =>
      obtain ⟨isField, dropped, -⟩ := cut.cons_inv
      rw [source_cons, fields_eq, isField.span.1, isField.span.2]
      rw [source_nil, List.append_nil] at dropped ⊢
      cases delimiter : item.delimiter with
      | nil => simp [ending_singleton, delimiter]
      | cons c rest =>
          rw [delimiter] at dropped
          simp [ending_singleton, delimiter, dropped]
  | cons next items ih =>
      obtain ⟨isField, dropped, rest⟩ := cut.cons_inv
      have nonempty := rest.source_ne_nil (List.cons_ne_nil _ _)
      rw [source_cons, fields_eq, isField.span.1, isField.span.2, ending_cons_cons]
      cases behind : item.delimiter ++ source (next :: items) with
      | nil => exact absurd (List.append_eq_nil_iff.1 behind).2 nonempty
      | cons c rest' =>
          rw [behind] at dropped
          dsimp only
          rw [dropped]
          cases following : source (next :: items) with
          | nil => exact absurd following nonempty
          | cons d text =>
              dsimp only
              rw [← following, ih rest]
              rfl

/-- The fields of a cut text are its characters without the separators. -/
theorem flatten_fields (cut : ifs.Cut before items) :
    (items.map Delimited.field).flatten = (source items).filter fun c => !ifs.isSeparator c := by
  induction cut with
  | nil => rfl
  | last ne isField => simp [isField.filter]
  | cons isField isDelimiter rest ih =>
      rw [source_cons, List.filter_append, List.filter_append, isField.filter, isDelimiter.filter,
        List.map_cons, List.flatten_cons, ih]
      rfl

/-- No field has a separator in it. -/
theorem isSeparator_of_mem_field (cut : ifs.Cut before items) :
    ∀ item ∈ items, ∀ c ∈ item.field, ifs.isSeparator c = false := by
  induction cut with
  | nil => simp
  | last ne isField => simpa using isField.inside
  | cons isField isDelimiter rest ih =>
      intro other mem
      rcases List.mem_cons.1 mem with rfl | mem
      · exact isField.inside
      · exact ih other mem

end Cut

/-- Behind a separator a text can be cut, if it does not begin with a soft one. -/
theorem exists_cut (t before : Text) (front : ∀ c ∈ before.getLast?, ifs.isSeparator c = true)
    (head : ∀ c ∈ t.head?, ifs.isSoft c = false) :
    ∃ items, source items = t ∧ ifs.Cut before items := by
  -- what follows a delimiter is shorter, so the induction is on the length
  induction len : t.length using Nat.strongRecOn generalizing t before with
  | ind n ih =>
      subst len
      have whole := List.takeWhile_append_dropWhile (p := fun c => !ifs.isSeparator c) (l := t)
      have inside : ∀ c ∈ t.takeWhile (fun c => !ifs.isSeparator c), ifs.isSeparator c = false :=
        fun c mem => isSeparator_of_mem_takeWhile mem
      generalize t.takeWhile (fun c => !ifs.isSeparator c) = field at whole inside
      cases behind : t.dropWhile fun c => !ifs.isSeparator c with
      | nil =>
          rw [behind, List.append_nil] at whole
          subst whole
          by_cases none : field = []
          · exact ⟨[], none.symm, .nil⟩
          · exact ⟨[⟨field, []⟩], by simp, .last none ⟨inside, front, by simp⟩⟩
      | cons c rest =>
          have separator := isSeparator_of_dropWhile behind
          have shorter := ifs.length_dropDelimiter_dropWhile_lt behind
          rw [behind] at whole
          subst whole
          -- a soft separator is not the first character, so it stands behind a character of the field
          have between : ifs.isSoft c = true →
              ∀ d ∈ (before ++ field).getLast?, ifs.isSeparator d = false := by
            intro soft d mem
            have ne : field ≠ [] := by
              rintro rfl
              simp [head c rfl] at soft
            exact inside d (Text.mem_of_getLast?_append ne mem)
          obtain ⟨delimiter, split, isDelimiter⟩ := exists_isDelimiter rest separator between
          have ends : ∀ d ∈ (before ++ field ++ delimiter).getLast?, ifs.isSeparator d = true := by
            intro d mem
            exact isDelimiter.isSeparator d (Text.mem_of_getLast?_append isDelimiter.ne_nil mem)
          obtain ⟨items, same, cut⟩ := ih _ shorter _ _ ends isDelimiter.isSoft_head? rfl
          refine ⟨⟨field, delimiter⟩ :: items, by rw [source_cons, same, split], .cons ?_ ?_ cut⟩
          · rw [same, split]
            refine ⟨inside, front, fun d mem => ?_⟩
            obtain rfl : c = d := by simpa using mem
            exact separator
          · rwa [same]

/-- Every text can be cut. -/
theorem nonempty_decomposition (ifs : Ifs) (t : Text) : Nonempty (ifs.Decomposition t) := by
  have soft : ∀ c ∈ t.takeWhile ifs.isSoft, ifs.isSoft c = true := fun c mem => isSoft_of_mem_takeWhile mem
  have head : ∀ c ∈ (t.dropWhile ifs.isSoft).head?, ifs.isSoft c = false := by
    intro c mem
    obtain ⟨rest, dropped⟩ := List.head?_eq_some_iff.1 mem
    exact isSoft_of_dropWhile dropped
  have front : ∀ c ∈ (t.takeWhile ifs.isSoft).getLast?, ifs.isSeparator c = true :=
    fun c mem => isSeparator_of_isSoft (soft c (List.mem_of_getLast? mem))
  obtain ⟨items, same, cut⟩ := exists_cut (t.dropWhile ifs.isSoft) (t.takeWhile ifs.isSoft) front head
  have whole : t.takeWhile ifs.isSoft ++ source items = t := by rw [same, List.takeWhile_append_dropWhile]
  exact ⟨⟨t.takeWhile ifs.isSoft, items, whole, soft, same ▸ head, cut⟩⟩

namespace Decomposition

variable {t : Text}

/-- The soft separators in front, and what stands behind them. -/
theorem span (d : ifs.Decomposition t) :
    t.takeWhile ifs.isSoft = d.lead ∧ t.dropWhile ifs.isSoft = source d.items := by
  have cut := Text.span_append d.lead_soft d.lead_longest
  rwa [d.append_source] at cut

/-- A text can be cut in one way only. -/
theorem unique (d d' : ifs.Decomposition t) : d = d' := by
  have leads : d.lead = d'.lead := by rw [← d.span.1, d'.span.1]
  have sources : source d.items = source d'.items := by rw [← d.span.2, d'.span.2]
  exact Decomposition.ext leads (d.cut.unique d'.cut sources)

theorem split_eq (d : ifs.Decomposition t) :
    ifs.split t = ⟨d.fields, !d.lead.isEmpty, if d.items = [] then !d.lead.isEmpty else !d.ending.isEmpty⟩ := by
  have leading : decide (d.lead.length > 0) = !d.lead.isEmpty := by cases d.lead <;> rfl
  rw [Ifs.split_eq, d.span.1, d.span.2, leading]
  cases items : d.items with
  | nil => simp [fields, items]
  | cons item rest =>
      have cut := d.cut
      rw [items] at cut
      have nonempty := cut.source_ne_nil (List.cons_ne_nil _ _)
      cases source_eq : source (item :: rest) with
      | nil => exact absurd source_eq nonempty
      | cons c text =>
          dsimp only
          rw [← source_eq, cut.fields_source]
          simp [fields, ending, items]

/-- There is no field exactly if there are soft separators only. -/
theorem items_eq_nil_iff (d : ifs.Decomposition t) : d.items = [] ↔ ∀ c ∈ t, ifs.isSoft c = true := by
  constructor
  · intro none
    rw [← d.append_source, none, source_nil, List.append_nil]
    exact d.lead_soft
  · intro soft
    by_contra ne
    apply d.cut.source_ne_nil ne
    rw [← d.span.2]
    exact List.dropWhile_eq_nil_iff.2 soft

/-- The fields make up the text without its separators. -/
theorem flatten_fields (d : ifs.Decomposition t) : d.fields.flatten = t.filter fun c => !ifs.isSeparator c := by
  have removed : d.lead.filter (fun c => !ifs.isSeparator c) = [] :=
    List.filter_eq_nil_iff.2 fun c mem => by simp [isSeparator_of_isSoft (d.lead_soft c mem)]
  conv_rhs => rw [← d.append_source, List.filter_append, removed, List.nil_append, ← d.cut.flatten_fields]
  rfl

end Decomposition

/-- The words of a split text make up the text without its separators. -/
theorem flatten_words_split (ifs : Ifs) (t : Text) :
    (ifs.split t).words.flatten = t.filter fun c => !ifs.isSeparator c := by
  obtain ⟨d⟩ := ifs.nonempty_decomposition t
  rw [d.split_eq, d.flatten_fields]

/-- **Splitting finds the decomposition.**  A text can be cut in exactly one way, into nothing but soft separators, or
into soft separators in front and fields with their delimiters.  The words of the split text are the fields; it is
said to begin with a separator if there are soft ones in front, and to end with one if it ends with a delimiter or has
soft separators only.  So no word has a separator in it, and nothing but separators is left out. -/
theorem split_eq_decomposition (ifs : Ifs) (t : Text) :
    (∃ d : ifs.Decomposition t, ∀ d' : ifs.Decomposition t, d' = d) ∧
    (∀ d : ifs.Decomposition t,
      (d.items = [] ↔ ∀ c ∈ t, ifs.isSoft c = true) ∧
      (ifs.split t).words = d.fields ∧
      ((ifs.split t).leading = true ↔ d.lead ≠ []) ∧
      ((ifs.split t).trailing = true ↔ d.ending ≠ [] ∨ d.items = [] ∧ d.lead ≠ [])) ∧
    (∀ word ∈ (ifs.split t).words, ∀ c ∈ word, ifs.isSeparator c = false) ∧
    (ifs.split t).words.flatten = t.filter fun c => !ifs.isSeparator c := by
  obtain ⟨d⟩ := ifs.nonempty_decomposition t
  refine ⟨⟨d, fun d' => d'.unique d⟩, fun d => ?_, ?_, flatten_words_split ifs t⟩
  · rw [d.split_eq]
    refine ⟨d.items_eq_nil_iff, rfl, by simp, ?_⟩
    by_cases none : d.items = []
    · have noEnding : d.ending = [] := by rw [Decomposition.ending, none]; rfl
      simp [none, noEnding]
    · simp [none]
  · rw [d.split_eq]
    intro word mem
    obtain ⟨item, inside, rfl⟩ := List.mem_map.1 mem
    exact d.cut.isSeparator_of_mem_field item inside

end Ifs

end ShellWord
