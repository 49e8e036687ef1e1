import ShellWord.Proofs.Span
import ShellWord.Proofs.TextOrder

/-!
# Balanced parentheses

What stands between a parenthesis and the one that closes it is a text in which parentheses come in pairs, those
between quotes or behind a backslash apart.  `Paren.Balanced` says so by a grammar, which knows nothing of a scan, of a
depth or of quotes that are open.  `Paren.offset?` is asked for byte offsets, so what it finds is said in bytes:
`Paren.Closes` reads the two bytes at the offsets and the bytes between them.

`Paren.offset?_exact` is the result: the offset is found exactly if the parenthesis there is closed, it is the only
one, it never lies inside of a character, and nothing before the one or after the other parenthesis matters.

### What is load-bearing

The scan keeps one number for all parentheses that are open, and the grammar nests.  `Paren.Nest depth` is what both
have in common: balanced texts with `depth` closing parentheses between them.

No byte of a character of several bytes is below 128 (`Text.eq_of_getElem?_utf8EncodeChar`).  So a byte that looks like
a parenthesis is one, and the places between characters can be told from the bytes alone.
-/

namespace ShellWord.Text

/-! ### Bytes and characters -/

@[simp] theorem utf8_append (s t : Text) : utf8 (s ++ t) = utf8 s ++ utf8 t :=
  List.flatMap_append

@[simp] theorem utf8Size_append (s t : Text) : utf8Size (s ++ t) = utf8Size s + utf8Size t := by
  induction s with
  | nil => simp
  | cons c s ih => rw [List.cons_append, utf8Size_cons, ih, utf8Size_cons, Nat.add_assoc]

@[simp] theorem length_utf8 (t : Text) : (utf8 t).length = utf8Size t := by
  induction t with
  | nil => rfl
  | cons c t ih => rw [utf8_cons, List.length_append, ih, String.length_utf8EncodeChar, utf8Size_cons]

theorem utf8Size_eq_zero_iff {t : Text} : utf8Size t = 0 ↔ t = [] := by
  cases t with
  | nil => simp
  | cons c t =>
      have := c.utf8Size_pos
      simp only [utf8Size_cons, reduceCtorEq, iff_false]
      omega

/-- Of two beginnings of a text, the one with fewer bytes is a beginning of the other. -/
theorem exists_of_append_eq {a x b y : Text} (same : a ++ x = b ++ y) (le : utf8Size a ≤ utf8Size b) :
    ∃ c, b = a ++ c ∧ x = c ++ y := by
  rcases List.append_eq_append_iff.1 same with ⟨c, rfl, rfl⟩ | ⟨c, rfl, rfl⟩
  · exact ⟨c, rfl, rfl⟩
  · rw [utf8Size_append] at le
    obtain rfl : c = [] := utf8Size_eq_zero_iff.1 (by omega)
    exact ⟨[], by simp⟩

theorem splitAtByte?_append (a t : Text) : splitAtByte? (utf8Size a) (a ++ t) = some (a, t) := by
  induction a with
  | nil => cases t <;> rfl
  | cons c a ih =>
      obtain ⟨n, size⟩ : ∃ n, utf8Size (c :: a) = n + 1 :=
        Nat.exists_eq_succ_of_ne_zero (mt utf8Size_eq_zero_iff.1 (List.cons_ne_nil c a))
      have rest : n + 1 - c.utf8Size = utf8Size a := by
        rw [← size, utf8Size_cons]
        omega
      rw [size, List.cons_append, splitAtByte?, if_pos, rest, ih]
      · rfl
      · rw [← size, utf8Size_cons]
        omega

theorem splitAtByte?_eq_some {n : Nat} {t a b : Text} (h : splitAtByte? n t = some (a, b)) :
    t = a ++ b ∧ utf8Size a = n := by
  fun_induction splitAtByte? n t generalizing a with
  | case1 t =>
      obtain ⟨rfl, rfl⟩ := Prod.mk.inj (Option.some.inj h)
      exact ⟨rfl, rfl⟩
  | case2 => cases h
  | case3 n c t fits ih =>
      obtain ⟨⟨front, back⟩, found, same⟩ := Option.map_eq_some_iff.1 h
      obtain ⟨rfl, rfl⟩ := Prod.mk.inj same
      obtain ⟨rfl, size⟩ := ih found
      refine ⟨rfl, ?_⟩
      rw [utf8Size_cons]
      omega
  | case4 => cases h

theorem le_of_mem_continuation {k code : Nat} {byte : UInt8} (mem : byte ∈ continuation k code) :
    128 ≤ byte.toNat := by
  induction k with
  | zero => cases mem
  | succ k ih =>
      rcases List.mem_cons.1 mem with rfl | mem
      · rw [UInt8.toNat_ofNat_of_lt' (by omega : code / 64 ^ k % 64 + 128 < 256)]
        omega
      · exact ih mem

/-- A byte below 128 is a character of its own. -/
theorem eq_of_getElem?_utf8EncodeChar {c d : Char} (ascii : c.val.toNat < 128) {n : Nat}
    (h : (String.utf8EncodeChar d)[n]? = some c.toUInt8) : n = 0 ∧ d = c := by
  have byte : c.toUInt8.toNat = c.val.toNat := UInt8.toNat_ofNat_of_lt' (by omega : c.val.toNat < 256)
  obtain ⟨k, offset, encoded, size⟩ := utf8EncodeChar_eq d
  rw [encoded] at h
  cases n with
  | zero =>
      have first := congrArg UInt8.toNat (Option.some.inj h)
      rw [byte, UInt8.toNat_ofNat_of_lt'] at first
      · refine ⟨rfl, Char.ext (UInt32.toNat_inj.1 ?_)⟩
        rcases size with ⟨rfl, rfl, _⟩ | ⟨rfl, rfl, _⟩ | ⟨rfl, rfl, _⟩ | ⟨rfl, rfl, _⟩ <;> omega
      · change d.val.toNat / 64 ^ k + offset < 256
        rcases size with ⟨rfl, rfl, _⟩ | ⟨rfl, rfl, _⟩ | ⟨rfl, rfl, _⟩ | ⟨rfl, rfl, _⟩ <;> omega
  | succ n =>
      have := le_of_mem_continuation (List.mem_of_getElem? h)
      omega

theorem utf8_cons_of_ascii {c : Char} (ascii : c.val.toNat < 128) (t : Text) :
    utf8 (c :: t) = c.toUInt8 :: utf8 t := by
  obtain ⟨k, offset, encoded, size⟩ := utf8EncodeChar_eq c
  obtain ⟨rfl, rfl⟩ : k = 0 ∧ offset = 0 := by omega
  rw [utf8_cons, encoded, pow_zero, Nat.div_one]
  rfl

/-- Where a byte of a text is below 128, a character begins. -/
theorem getElem?_utf8_eq_some_iff {c : Char} (ascii : c.val.toNat < 128) {t : Text} {n : Nat} :
    (utf8 t)[n]? = some c.toUInt8 ↔ ∃ a b, t = a ++ c :: b ∧ utf8Size a = n := by
  constructor
  · intro h
    induction t generalizing n with
    | nil => simp at h
    | cons d t ih =>
        rw [utf8_cons, List.getElem?_append, String.length_utf8EncodeChar] at h
        split at h
        · obtain ⟨rfl, rfl⟩ := eq_of_getElem?_utf8EncodeChar ascii h
          exact ⟨[], t, rfl, rfl⟩
        · obtain ⟨a, b, rfl, size⟩ := ih h
          refine ⟨d :: a, b, rfl, ?_⟩
          rw [utf8Size_cons]
          omega
  · rintro ⟨a, b, rfl, rfl⟩
    rw [utf8_append, utf8_cons_of_ascii ascii, List.getElem?_append_right (by rw [length_utf8]), length_utf8,
      Nat.sub_self]
    rfl

/-- The bytes between two places of a text. -/
theorem drop_take_utf8 (before middle after : Text) :
    ((utf8 (before ++ middle ++ after)).take (utf8Size (before ++ middle))).drop (utf8Size before) = utf8 middle := by
  rw [utf8_append, List.take_left' (length_utf8 _), utf8_append, List.drop_left' (length_utf8 _)]

theorem bytesLt_irrefl (bytes : List UInt8) : ¬ BytesLt bytes bytes := by
  induction bytes with
  | nil => nofun
  | cons byte bytes ih =>
      intro less
      cases less with
      | rel less => exact Nat.lt_irrefl _ less
      | cons less => exact ih less

/-- The bytes of a text tell where another text is its beginning. -/
theorem exists_of_utf8_append_eq {s t : Text} {bytes : List UInt8} (same : utf8 s ++ bytes = utf8 t) :
    ∃ u, t = s ++ u := by
  induction s generalizing t with
  | nil => exact ⟨t, rfl⟩
  | cons c s ih =>
      cases t with
      | nil =>
          rw [utf8_nil, List.append_eq_nil_iff, utf8_cons, List.append_eq_nil_iff] at same
          exact absurd same.1.1 (utf8EncodeChar_ne_nil c)
      | cons d t =>
          rw [utf8_cons, utf8_cons, List.append_assoc] at same
          -- of two characters, the bytes of the smaller one come first, whatever follows
          obtain rfl : c = d := by
            rcases Nat.lt_trichotomy c.val.toNat d.val.toNat with less | equal | more
            · exact absurd (same ▸ utf8EncodeChar_append_bytesLt less _ _) (bytesLt_irrefl _)
            · exact Char.ext (UInt32.toNat_inj.1 equal)
            · exact absurd (same ▸ utf8EncodeChar_append_bytesLt more _ _) (bytesLt_irrefl _)
          obtain ⟨u, rfl⟩ := ih (List.append_cancel_left same)
          exact ⟨u, rfl⟩

theorem utf8_inj {s t : Text} (same : utf8 s = utf8 t) : s = t := by
  have whole : utf8 s ++ [] = utf8 t := (List.append_nil _).trans same
  obtain ⟨u, rfl⟩ := exists_of_utf8_append_eq whole
  have size := congrArg List.length same
  rw [length_utf8, length_utf8, utf8Size_append] at size
  obtain rfl : u = [] := utf8Size_eq_zero_iff.1 (by omega)
  exact (List.append_nil s).symm

end ShellWord.Text

namespace ShellWord.Paren

/-! ### The grammar -/

/-- The texts between double quotes: a backslash protects the character behind it. -/
inductive Quoted : Text → Prop
  | nil : Quoted []
  | char {t : Text} (c : Char) : c ≠ '\x22' → c ≠ '\\' → Quoted t → Quoted (c :: t)
  | escaped {t : Text} (c : Char) : Quoted t → Quoted ('\\' :: c :: t)

/-- The texts between a parenthesis and the one that closes it. -/
inductive Balanced : Text → Prop
  | nil : Balanced []
  | char {t : Text} (c : Char) : c ≠ '(' → c ≠ ')' → c ≠ '\\' → c ≠ '\x27' → c ≠ '\x22' → Balanced t →
      Balanced (c :: t)
  | escaped {t : Text} (c : Char) : Balanced t → Balanced ('\\' :: c :: t)
  | single {q t : Text} : '\x27' ∉ q → Balanced t → Balanced ('\x27' :: (q ++ '\x27' :: t))
  | double {q t : Text} : Quoted q → Balanced t → Balanced ('\x22' :: (q ++ '\x22' :: t))
  | parens {s t : Text} : Balanced s → Balanced t → Balanced ('(' :: (s ++ ')' :: t))

theorem Balanced.append {s t : Text} (hs : Balanced s) (ht : Balanced t) : Balanced (s ++ t) := by
  induction hs with
  | nil => exact ht
  | char c notOpening notClosing notEscape notSingle notDouble _ ih =>
      exact .char c notOpening notClosing notEscape notSingle notDouble ih
  | escaped c _ ih => exact .escaped c ih
  | single without _ ih =>
      rw [List.cons_append, List.append_assoc]
      exact .single without ih
  | double quoted _ ih =>
      rw [List.cons_append, List.append_assoc]
      exact .double quoted ih
  | parens inner _ _ ih =>
      rw [List.cons_append, List.append_assoc]
      exact .parens inner ih

/-! ### The scan finds the balanced texts -/

/-- Balanced texts, with `depth` closing parentheses between them. -/
inductive Nest : (depth : Nat) → Text → Prop
  | last {t : Text} : Balanced t → Nest 0 t
  | close {depth : Nat} {s t : Text} : Balanced s → Nest depth t → Nest (depth + 1) (s ++ ')' :: t)

theorem Nest.append {depth : Nat} {s t : Text} (hs : Balanced s) (ht : Nest depth t) : Nest depth (s ++ t) := by
  cases ht with
  | last ht => exact .last (hs.append ht)
  | close first rest =>
      rw [← List.append_assoc]
      exact .close (hs.append first) rest

/-- What is left in front of nested texts, in the quotes that are open: the rest of a quoted text, and the quote. -/
def Left : Mode → (depth : Nat) → Text → Prop
  | .plain, depth, t => Nest depth t
  | .single, depth, t => ∃ q rest, t = q ++ '\x27' :: rest ∧ '\x27' ∉ q ∧ Nest depth rest
  | .double, depth, t => ∃ q rest, t = q ++ '\x22' :: rest ∧ Quoted q ∧ Nest depth rest

/-- What the scan passes over is nested. -/
theorem Body.left {mode : Mode} {depth : Nat} {t : Text} (h : Body mode depth t) : Left mode depth t := by
  induction h with
  | done => exact .last .nil
  | @single depth t c _ ih =>
      by_cases quote : c = '\x27'
      · subst quote
        exact ⟨[], t, rfl, List.not_mem_nil, ih⟩
      · rw [if_neg (by simpa using quote)] at ih
        obtain ⟨q, rest, rfl, without, nested⟩ := ih
        exact ⟨c :: q, rest, rfl, by simp [without, Ne.symm quote], nested⟩
  | doubleEscape c _ ih =>
      obtain ⟨q, rest, rfl, quoted, nested⟩ := ih
      exact ⟨'\\' :: c :: q, rest, rfl, .escaped c quoted, nested⟩
  | @double depth t c notEscape _ ih =>
      by_cases quote : c = '\x22'
      · subst quote
        exact ⟨[], t, rfl, .nil, ih⟩
      · rw [if_neg (by simpa using quote)] at ih
        obtain ⟨q, rest, rfl, quoted, nested⟩ := ih
        exact ⟨c :: q, rest, rfl, .char c quote notEscape quoted, nested⟩
  | escape c _ ih => exact Nest.append (.escaped c .nil) ih
  | @opening depth t _ ih =>
      change Nest (depth + 1) t at ih
      cases ih with
      | close inner rest =>
          have nested := Nest.append (.parens inner .nil) rest
          rwa [List.cons_append, List.append_assoc] at nested
  | closing _ ih => exact .close .nil ih
  | @plain depth t c notEscape notOpening notClosing _ ih =>
      by_cases single : c = '\x27'
      · subst single
        obtain ⟨q, rest, rfl, without, nested⟩ : Left .single depth t := ih
        have front := Nest.append (.single without .nil) nested
        rwa [List.cons_append, List.append_assoc] at front
      · rw [if_neg (by simpa using single)] at ih
        by_cases double : c = '\x22'
        · subst double
          obtain ⟨q, rest, rfl, quoted, nested⟩ : Left .double depth t := ih
          have front := Nest.append (.double quoted .nil) nested
          rwa [List.cons_append, List.append_assoc] at front
        · rw [if_neg (by simpa using double)] at ih
          exact Nest.append (.char c notOpening notClosing notEscape single double .nil) ih

theorem body_single {depth : Nat} {q t : Text} (without : '\x27' ∉ q) (h : Body .plain depth t) :
    Body .single depth (q ++ '\x27' :: t) := by
  induction q with
  | nil => exact .single _ h
  | cons c q ih =>
      obtain ⟨notQuote, rest⟩ : '\x27' ≠ c ∧ '\x27' ∉ q := by simpa using without
      refine .single c ?_
      rw [if_neg (by simpa using notQuote.symm)]
      exact ih rest

theorem body_double {depth : Nat} {q t : Text} (quoted : Quoted q) (h : Body .plain depth t) :
    Body .double depth (q ++ '\x22' :: t) := by
  induction quoted with
  | nil => exact .double _ (by decide) h
  | char c notQuote notEscape _ ih =>
      refine .double c notEscape ?_
      rw [if_neg (by simpa using notQuote)]
      exact ih
  | escaped c _ ih => exact .doubleEscape c ih

/-- The scan passes over a balanced text, and is where it was. -/
theorem Balanced.body_append {s : Text} (hs : Balanced s) {depth : Nat} {t : Text} (ht : Body .plain depth t) :
    Body .plain depth (s ++ t) := by
  induction hs generalizing depth t with
  | nil => exact ht
  | char c notOpening notClosing notEscape notSingle notDouble _ ih =>
      refine .plain c notEscape notOpening notClosing ?_
      rw [if_neg (by simpa using notSingle), if_neg (by simpa using notDouble)]
      exact ih ht
  | escaped c _ ih => exact .escape c (ih ht)
  | single without _ ih =>
      rw [List.cons_append, List.append_assoc]
      exact .plain _ (by decide) (by decide) (by decide) (body_single without (ih ht))
  | double quoted _ ih =>
      rw [List.cons_append, List.append_assoc]
      exact .plain _ (by decide) (by decide) (by decide) (body_double quoted (ih ht))
  | parens _ _ inner rest =>
      rw [List.cons_append, List.append_assoc]
      exact .opening (inner (.closing (rest ht)))

/-- **What runs up to the closing parenthesis is balanced.** -/
theorem body_iff_balanced {t : Text} : Body .plain 0 t ↔ Balanced t := by
  constructor
  · intro body
    cases body.left with
    | last balanced => exact balanced
  · intro balanced
    have body := balanced.body_append .done
    rwa [List.append_nil] at body

theorem close?_eq_some_iff_balanced {t body rest : Text} :
    close? t = some (body, rest) ↔ Balanced body ∧ t = '(' :: (body ++ ')' :: rest) := by
  rw [close?_eq_some_iff, body_iff_balanced]

theorem closePair?_eq_some_iff_balanced {t body rest : Text} :
    closePair? t = some (body, rest) ↔ Balanced body ∧ t = '(' :: '(' :: (body ++ ')' :: ')' :: rest) := by
  rw [closePair?_eq_some_iff, body_iff_balanced]

/-! ### Offsets in bytes -/

/-- In the bytes of a text, the parenthesis at one offset is closed by the parenthesis at another: between them are the
bytes of a balanced text. -/
structure Closes (t : Text) (start stop : Nat) : Prop where
  opening : (Text.utf8 t)[start]? = some '('.toUInt8
  closing : (Text.utf8 t)[stop]? = some ')'.toUInt8
  ordered : start < stop
  between : ∃ body, Balanced body ∧ ((Text.utf8 t).take stop).drop (start + 1) = Text.utf8 body

/-- From an offset on, the bytes of a text begin with two parentheses, a balanced text and the two parentheses that
close them, the first of these at another offset. -/
def ClosesPair (t : Text) (start stop : Nat) : Prop :=
  ∃ body, Balanced body ∧ Text.utf8 ('(' :: '(' :: (body ++ [')', ')'])) <+: (Text.utf8 t).drop start ∧
    stop = start + 2 + Text.utf8Size body

/-- What a search finds behind the bytes before an offset, and the offset of the end of it. -/
theorem map_splitAtByte?_eq_some_iff (find : Text → Option (Text × Text)) (width : Nat) {t : Text} {start stop : Nat} :
    ((Text.splitAtByte? start t).bind fun cut =>
        (find cut.2).map fun found => start + width + Text.utf8Size found.1) = some stop ↔
      ∃ before rest body after, t = before ++ rest ∧ find rest = some (body, after) ∧
        Text.utf8Size before = start ∧ start + width + Text.utf8Size body = stop := by
  constructor
  · intro located
    obtain ⟨⟨before, rest⟩, cut, located⟩ := Option.bind_eq_some_iff.1 located
    obtain ⟨⟨body, after⟩, found, place⟩ := Option.map_eq_some_iff.1 located
    obtain ⟨parts, size⟩ := Text.splitAtByte?_eq_some cut
    exact ⟨before, rest, body, after, parts, found, size, place⟩
  · rintro ⟨before, rest, body, after, rfl, found, rfl, rfl⟩
    rw [Text.splitAtByte?_append, Option.bind_some, found, Option.map_some]

theorem offset?_eq_some_iff {t : Text} {start stop : Nat} :
    offset? t start = some stop ↔ ∃ before body after, t = before ++ '(' :: (body ++ ')' :: after) ∧
      Balanced body ∧ Text.utf8Size before = start ∧ start + 1 + Text.utf8Size body = stop := by
  have located : offset? t start = (Text.splitAtByte? start t).bind fun cut =>
      (close? cut.2).map fun found => start + 1 + Text.utf8Size found.1 := by
    unfold offset?
    cases Text.splitAtByte? start t <;> rfl
  rw [located, map_splitAtByte?_eq_some_iff close? 1]
  constructor
  · rintro ⟨before, rest, body, after, rfl, found, places⟩
    obtain ⟨balanced, rfl⟩ := close?_eq_some_iff_balanced.1 found
    exact ⟨before, body, after, rfl, balanced, places⟩
  · rintro ⟨before, body, after, rfl, balanced, places⟩
    exact ⟨before, _, body, after, rfl, close?_eq_some_iff_balanced.2 ⟨balanced, rfl⟩, places⟩

theorem pairOffset?_eq_some_iff {t : Text} {start stop : Nat} :
    pairOffset? t start = some stop ↔ ∃ before body after, t = before ++ '(' :: '(' :: (body ++ ')' :: ')' :: after) ∧
      Balanced body ∧ Text.utf8Size before = start ∧ start + 2 + Text.utf8Size body = stop := by
  have located : pairOffset? t start = (Text.splitAtByte? start t).bind fun cut =>
      (closePair? cut.2).map fun found => start + 2 + Text.utf8Size found.1 := by
    unfold pairOffset?
    cases Text.splitAtByte? start t <;> rfl
  rw [located, map_splitAtByte?_eq_some_iff closePair? 2]
  constructor
  · rintro ⟨before, rest, body, after, rfl, found, places⟩
    obtain ⟨balanced, rfl⟩ := closePair?_eq_some_iff_balanced.1 found
    exact ⟨before, body, after, rfl, balanced, places⟩
  · rintro ⟨before, body, after, rfl, balanced, places⟩
    exact ⟨before, _, body, after, rfl, closePair?_eq_some_iff_balanced.2 ⟨balanced, rfl⟩, places⟩

/-- What the bytes say of two offsets, said of the text. -/
theorem closes_iff {t : Text} {start stop : Nat} :
    Closes t start stop ↔ ∃ before body after, t = before ++ '(' :: (body ++ ')' :: after) ∧
      Balanced body ∧ Text.utf8Size before = start ∧ start + 1 + Text.utf8Size body = stop := by
  have opened (before : Text) : Text.utf8Size (before ++ ['(']) = Text.utf8Size before + 1 :=
    Text.utf8Size_append before ['(']
  have parts (before body after : Text) :
      before ++ '(' :: (body ++ ')' :: after) = before ++ ['('] ++ body ++ ')' :: after := by simp
  constructor
  · rintro ⟨opening, closing, ordered, body, balanced, between⟩
    obtain ⟨before, rest, rfl, rfl⟩ := (Text.getElem?_utf8_eq_some_iff (by decide)).1 opening
    obtain ⟨front, after, same, rfl⟩ := (Text.getElem?_utf8_eq_some_iff (by decide)).1 closing
    -- the closing parenthesis stands behind the opening one, with some text between them
    obtain ⟨middle, rfl, rfl⟩ : ∃ middle, front = before ++ ['('] ++ middle ∧ rest = middle ++ ')' :: after := by
      refine Text.exists_of_append_eq ?_ (by rw [opened]; omega)
      rw [List.append_assoc]
      exact same
    rw [same, ← opened, Text.drop_take_utf8] at between
    obtain rfl := Text.utf8_inj between
    exact ⟨before, middle, after, rfl, balanced, rfl, by rw [Text.utf8Size_append, opened]⟩
  · rintro ⟨before, body, after, rfl, balanced, rfl, rfl⟩
    rw [parts, ← opened, ← Text.utf8Size_append]
    refine ⟨(Text.getElem?_utf8_eq_some_iff (by decide)).2 ⟨before, _, (parts ..).symm, rfl⟩,
      (Text.getElem?_utf8_eq_some_iff (by decide)).2 ⟨_, after, rfl, rfl⟩, ?_, body, balanced, ?_⟩
    · rw [Text.utf8Size_append, opened]
      omega
    · rw [← opened, Text.drop_take_utf8]

theorem closesPair_iff {t : Text} {start stop : Nat} :
    ClosesPair t start stop ↔ ∃ before body after, t = before ++ '(' :: '(' :: (body ++ ')' :: ')' :: after) ∧
      Balanced body ∧ Text.utf8Size before = start ∧ start + 2 + Text.utf8Size body = stop := by
  constructor
  · rintro ⟨body, balanced, ⟨bytes, begins⟩, place⟩
    have opening : (Text.utf8 t)[start]? = some '('.toUInt8 := by
      rw [← List.head?_drop, ← begins, Text.utf8_cons_of_ascii (by decide)]
      rfl
    obtain ⟨before, rest, rfl, size⟩ := (Text.getElem?_utf8_eq_some_iff (by decide)).1 opening
    rw [Text.utf8_append, List.drop_left' (by rw [Text.length_utf8, size])] at begins
    obtain ⟨after, parts⟩ := Text.exists_of_utf8_append_eq begins
    refine ⟨before, body, after, ?_, balanced, size, place.symm⟩
    rw [parts]
    simp
  · rintro ⟨before, body, after, rfl, balanced, size, place⟩
    refine ⟨body, balanced, ⟨Text.utf8 after, ?_⟩, place.symm⟩
    rw [Text.utf8_append, List.drop_left' (by rw [Text.length_utf8, size]), ← Text.utf8_append]
    simp

/-- A parenthesis that is closed within a text is closed there whatever stands around the text. -/
theorem offset?_of_within {before middle after : Text} {n : Nat} (within : n < Text.utf8Size middle)
    (found : offset? (before ++ middle ++ after) (Text.utf8Size before) = some (Text.utf8Size before + n))
    (before' after' : Text) :
    offset? (before' ++ middle ++ after') (Text.utf8Size before') = some (Text.utf8Size before' + n) := by
  obtain ⟨front, body, rest, parts, balanced, size, place⟩ := offset?_eq_some_iff.1 found
  rw [List.append_assoc] at parts
  obtain ⟨gap, rfl, inside⟩ := Text.exists_of_append_eq parts (by omega)
  obtain rfl : gap = [] := Text.utf8Size_eq_zero_iff.1 (by rw [Text.utf8Size_append] at size; omega)
  -- the parentheses and their body have no more bytes than the text
  have span : Text.utf8Size ('(' :: (body ++ [')'])) = 1 + (Text.utf8Size body + 1) := by
    rw [Text.utf8Size_cons, Text.utf8Size_append]
    rfl
  obtain ⟨tail, rfl, -⟩ : ∃ tail, middle = ('(' :: (body ++ [')'])) ++ tail ∧ rest = tail ++ after := by
    refine Text.exists_of_append_eq ?_ (by omega)
    rw [inside]
    simp
  refine offset?_eq_some_iff.2 ⟨before', body, tail ++ after', ?_, balanced, rfl, by omega⟩
  simp

/-- **The scan accepts exactly the balanced texts.**  A parenthesis is found to be closed at an offset exactly if the
bytes there are parentheses and those between them are the bytes of a balanced text; there is only one such offset, a
character begins there, and it does not depend on what stands before the one and after the other parenthesis.  For
pairs of parentheses the first of the two that close them is found. -/
theorem offset?_exact :
    (∀ t start stop, offset? t start = some stop ↔ Closes t start stop) ∧
    (∀ t start stop stop', Closes t start stop → Closes t start stop' → stop = stop') ∧
    (∀ t start stop, Closes t start stop → ∃ front after, t = front ++ ')' :: after ∧ Text.utf8Size front = stop) ∧
    (∀ before middle after before' after' n, n < Text.utf8Size middle →
      (offset? (before ++ middle ++ after) (Text.utf8Size before) = some (Text.utf8Size before + n) ↔
        offset? (before' ++ middle ++ after') (Text.utf8Size before') = some (Text.utf8Size before' + n))) ∧
    ∀ t start stop, pairOffset? t start = some stop ↔ ClosesPair t start stop := by
  have exact (t : Text) (start stop : Nat) : offset? t start = some stop ↔ Closes t start stop :=
    offset?_eq_some_iff.trans closes_iff.symm
  refine ⟨exact, fun t start stop stop' closes closes' => ?_, fun t start stop closes => ?_,
    fun before middle after before' after' n within => ?_, fun t start stop => ?_⟩
  · have same := (exact t start stop).2 closes
    rw [(exact t start stop').2 closes'] at same
    exact (Option.some.inj same).symm
  · exact (Text.getElem?_utf8_eq_some_iff (by decide)).1 closes.closing
  · exact ⟨fun found => offset?_of_within within found before' after',
      fun found => offset?_of_within within found before after⟩
  · exact pairOffset?_eq_some_iff.trans closesPair_iff.symm

/-- The statement at a parenthesis behind a character of two bytes and before one between quotes. -/
theorem offset?_exact_quoted :
    Closes "x(é \")\")y".toList 1 8 ∧ (∀ stop, Closes "x(é \")\")y".toList 1 stop → stop = 8) ∧
    (∃ front after, "x(é \")\")y".toList = front ++ ')' :: after ∧ Text.utf8Size front = 8) ∧
    offset? "(é \")\")".toList 0 = some 7 := by
  obtain ⟨found_iff, unique, boundary, around, -⟩ := offset?_exact
  have closes : Closes "x(é \")\")y".toList 1 8 := (found_iff _ _ _).1 (by decide)
  refine ⟨closes, fun stop other => unique _ _ _ _ other closes, boundary _ _ _ closes, ?_⟩
  exact (around ['x'] "(é \")\")".toList ['y'] [] [] 7 (by decide)).1 (by decide)

end ShellWord.Paren
