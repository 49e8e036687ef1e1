import ShellWord.Proofs.Pattern.BracketItems
import ShellWord.Proofs.Pattern.BracketScan

/-!
# Entries of a bracket expression

An entry of a bracket expression is an item or a named class.  A bare hyphen is an item like the others, and stands for
itself in three places: in front, at the end, and behind a class (`hyphensPlaced`).  What becomes of entries is found
in two steps.  `spell` writes the classes out, and `draw` makes ranges of what has a hyphen in the middle then.
`spells_drawn` is the outcome: the class that the entries are rewritten into is one that is written for the items that
are drawn.

### What is load-bearing

In two of the three places a hyphen is recognised by where it stands, and it is escaped there.  Behind a class it is
not; there it depends on how the class is written out.  Most of them end with a range, and a hyphen behind a range is a
hyphen.  Four end with a single character (`CharClass.isLoose`), and it is from this character that a range is drawn,
to wherever the next entry begins.  Where no hyphen stands between one of these and another entry (`linksFrom`), nothing
is drawn, and the characters that are read are those that the entries stand for.
-/

namespace ShellWord.Bracket

open Regex (ClassChar)

/-! ### Classes -/

/-- The named classes of characters. -/
inductive CharClass where
  | alnum | alpha | ascii | blank | cntrl | digit | graph | lower | print | punct | space | upper | word | xdigit
  deriving DecidableEq, Repr

namespace CharClass

/-- The name of a class, as it is written. -/
def name : CharClass → Text
  | .alnum => ['a', 'l', 'n', 'u', 'm']
  | .alpha => ['a', 'l', 'p', 'h', 'a']
  | .ascii => ['a', 's', 'c', 'i', 'i']
  | .blank => ['b', 'l', 'a', 'n', 'k']
  | .cntrl => ['c', 'n', 't', 'r', 'l']
  | .digit => ['d', 'i', 'g', 'i', 't']
  | .graph => ['g', 'r', 'a', 'p', 'h']
  | .lower => ['l', 'o', 'w', 'e', 'r']
  | .print => ['p', 'r', 'i', 'n', 't']
  | .punct => ['p', 'u', 'n', 'c', 't']
  | .space => ['s', 'p', 'a', 'c', 'e']
  | .upper => ['u', 'p', 'p', 'e', 'r']
  | .word => ['w', 'o', 'r', 'd']
  | .xdigit => ['x', 'd', 'i', 'g', 'i', 't']

/-- The character belongs to the class. -/
def contains (c : Char) : CharClass → Bool
  | .alnum => c.isAlphanum
  | .alpha => c.isAlpha
  | .ascii => c.toNat < 128
  | .blank => c == ' ' || c == '\t'
  | .cntrl => c.toNat < 32 || c.toNat == 127
  | .digit => c.isDigit
  | .graph => 32 < c.toNat && c.toNat < 127
  | .lower => c.isLower
  | .print => 32 ≤ c.toNat && c.toNat < 127
  | .punct => 32 < c.toNat && c.toNat < 127 && !c.isAlphanum
  | .space => c == ' ' || (9 ≤ c.toNat && c.toNat ≤ 13)
  | .upper => c.isUpper
  | .word => c.isAlphanum || c == '_'
  | .xdigit => c.isDigit || ('a' ≤ c && c ≤ 'f') || ('A' ≤ c && c ≤ 'F')

/-- The class written out. -/
def items : CharClass → List Item
  | .alnum => [.range 'a' 'z', .range 'A' 'Z', .range '0' '9']
  | .alpha => [.range 'a' 'z', .range 'A' 'Z']
  | .ascii => [.range '\x00' '\x7f']
  | .blank => [.char ' ', .char '\t']
  | .cntrl => [.range '\x00' '\x1f', .char '\x7f']
  | .digit => [.range '0' '9']
  | .graph => [.range '!' '~']
  | .lower => [.range 'a' 'z']
  | .print => [.range ' ' '~']
  | .punct => [.range '!' '/', .range ':' '@', .range '[' '\x60', .range '\x7b' '~']
  | .space => [.char ' ', .char '\t', .char '\n', .char '\r', .char '\x0c', .char '\x0b']
  | .upper => [.range 'A' 'Z']
  | .word => [.range 'a' 'z', .range 'A' 'Z', .range '0' '9', .char '_']
  | .xdigit => [.range '0' '9', .range 'A' 'F', .range 'a' 'f']

/-- Written out, the class ends with a single character. -/
def isLoose : CharClass → Bool
  | .blank | .cntrl | .space | .word => true
  | _ => false

theorem val_between_iff (c : Char) (low high : UInt32) :
    low ≤ c.val ∧ c.val ≤ high ↔ low.toNat ≤ c.toNat ∧ c.toNat ≤ high.toNat := by
  rw [UInt32.le_iff_toNat_le, UInt32.le_iff_toNat_le]
  rfl

theorem isUpper_iff (c : Char) : c.isUpper = true ↔ 65 ≤ c.toNat ∧ c.toNat ≤ 90 :=
  decide_eq_true_iff.trans (val_between_iff c 65 90)

theorem isLower_iff (c : Char) : c.isLower = true ↔ 97 ≤ c.toNat ∧ c.toNat ≤ 122 :=
  (Bool.and_eq_true_iff.trans (and_congr decide_eq_true_iff decide_eq_true_iff)).trans (val_between_iff c 97 122)

theorem isDigit_iff (c : Char) : c.isDigit = true ↔ 48 ≤ c.toNat ∧ c.toNat ≤ 57 :=
  (Bool.and_eq_true_iff.trans (and_congr decide_eq_true_iff decide_eq_true_iff)).trans (val_between_iff c 48 57)

theorem isAlpha_iff (c : Char) : c.isAlpha = true ↔ c.isUpper = true ∨ c.isLower = true :=
  Bool.or_eq_true_iff

theorem isAlphanum_iff (c : Char) : c.isAlphanum = true ↔ c.isAlpha = true ∨ c.isDigit = true :=
  Bool.or_eq_true_iff

/-- Written out, a class lists the characters that belong to it. -/
theorem any_lists_items (cls : CharClass) (c : Char) : cls.items.any (Item.lists c) = cls.contains c := by
  rw [Bool.eq_iff_iff]
  cases cls <;>
    simp [items, contains, Item.lists, ← Bool.not_eq_true, isAlphanum_iff, isAlpha_iff, isUpper_iff, isLower_iff,
      isDigit_iff, Char.le_def, UInt32.le_iff_toNat_le, ← Char.toNat_inj] <;>
    omega

theorem hyphen_notMem_items (cls : CharClass) : .hyphen ∉ cls.items := by
  cases cls <;> decide

theorem items_ne_nil (cls : CharClass) : cls.items ≠ [] := by
  cases cls <;> decide

/-- A class that does not end with a single character ends with a range. -/
theorem exists_range_of_not_isLoose {cls : CharClass} (tight : cls.isLoose = false) {item : Item}
    (last : item ∈ cls.items.getLast?) : ∃ low high, item = .range low high := by
  cases cls <;> simp [items, isLoose] at tight last <;> exact ⟨_, _, last.symm⟩

theorem isOrdered_of_mem_items {cls : CharClass} {item : Item} (mem : item ∈ cls.items) : item.isOrdered = true := by
  have all : cls.items.all Item.isOrdered = true := by cases cls <;> decide
  exact List.all_eq_true.1 all item mem

theorem isFree_of_mem_items {cls : CharClass} {item : Item} (mem : item ∈ cls.items) : item.isFree = true := by
  have all : cls.items.all Item.isFree = true := by cases cls <;> decide
  exact List.all_eq_true.1 all item mem

end CharClass

/-! ### Classes written out -/

section

variable {v : Text} {w : List Item} {c low high : Char}

theorem Spells.plain (others : Spells v w) (h : Regex.isClassSpecial c = false) :
    Spells (c :: v) (.char c :: w) :=
  .char (.plain h) others

theorem Spells.plainRange (others : Spells v w) (h : Regex.isClassSpecial low = false)
    (h' : Regex.isClassSpecial high = false) : Spells (low :: '-' :: high :: v) (.range low high :: w) :=
  .range (.plain h) (.plain h') others

theorem Spells.control (others : Spells v w) {letter : Char} (h : (letter, c) ∈ Regex.controls) :
    Spells ('\\' :: letter :: v) (.char c :: w) :=
  .char (.control h) others

end

theorem classChar_null : ClassChar ['\\', 'x', '0', '0'] '\x00' := .hexadecimal rfl (.inl (by decide))

theorem classChar_unitSeparator : ClassChar ['\\', 'x', '1', 'F'] '\x1f' := .hexadecimal rfl (.inl (by decide))

theorem classChar_delete : ClassChar ['\\', 'x', '7', 'F'] '\x7f' := .hexadecimal rfl (.inr rfl)

/-- **The table writes every class out as its items.** -/
theorem CharClass.spells_items (cls : CharClass) : Spells (classMembers cls.name) cls.items := by
  cases cls with
  | alnum => exact .plainRange (.plainRange (.plainRange .nil rfl rfl) rfl rfl) rfl rfl
  | alpha => exact .plainRange (.plainRange .nil rfl rfl) rfl rfl
  | ascii => exact .range classChar_null classChar_delete .nil
  | blank => exact .plain (.control .nil (by decide)) rfl
  | cntrl => exact .range classChar_null classChar_unitSeparator (.char classChar_delete .nil)
  | digit => exact .plainRange .nil rfl rfl
  | graph => exact .plainRange .nil rfl rfl
  | lower => exact .plainRange .nil rfl rfl
  | print => exact .plainRange .nil rfl rfl
  | punct =>
    exact .plainRange (.plainRange (.range (.escaped rfl) (.plain rfl) (.plainRange .nil rfl rfl)) rfl rfl)
      rfl rfl
  | space =>
    exact .plain (.control (.control (.control (.control (.control .nil (by decide)) (by decide)) (by decide))
      (by decide)) (by decide)) rfl
  | upper => exact .plainRange .nil rfl rfl
  | word => exact .plainRange (.plainRange (.plainRange (.plain .nil rfl) rfl rfl) rfl rfl) rfl rfl
  | xdigit => exact .plainRange (.plainRange (.plainRange .nil rfl rfl) rfl rfl) rfl rfl

/-! ### Entries -/

/-- What is listed between brackets: an item or a named class. -/
inductive Entry where
  | plain (item : Item)
  | named (cls : CharClass)
  deriving DecidableEq, Repr

/-- The characters that are written with a backslash. -/
def isEscaped (c : Char) : Bool :=
  c == '[' || c == ']' || c == '\\' || c == '^' || c == '!' || c == '-'

/-- A single character, with a backslash where it needs one. -/
def writeChar (c : Char) : Text :=
  if isEscaped c then ['\\', c] else [c]

/-- What a single character is between brackets. -/
def writtenChar (c : Char) : Member :=
  if isEscaped c then .escaped c else .char c

/-- The text of an item. -/
def Item.write : Item → Text
  | .char c => writeChar c
  | .range low high => writeChar low ++ '-' :: writeChar high
  | .hyphen => ['-']

/-- What an item is between brackets. -/
def Item.members : Item → List Member
  | .char c => [writtenChar c]
  | .range low high => [writtenChar low, .char '-', writtenChar high]
  | .hyphen => [.char '-']

namespace Entry

/-- The character is one of those that the entry stands for. -/
def lists (c : Char) : Entry → Bool
  | .plain item => item.lists c
  | .named cls => cls.contains c

/-- The text of an entry. -/
def write : Entry → Text
  | .plain item => item.write
  | .named cls => '[' :: ':' :: cls.name ++ [':', ']']

/-- What an entry is between brackets. -/
def members : Entry → List Member
  | .plain item => item.members
  | .named cls => [.named cls.name]

/-- The ends of a range are in order. -/
def isOrdered : Entry → Bool
  | .plain item => item.isOrdered
  | .named _ => true

/-- The first entry is a character whose doubling is reserved, and the second one begins with it. -/
def doubles : Entry → Entry → Bool
  | .plain item, .plain next => item.doubles next
  | _, _ => false

end Entry

/-! ### Where hyphens may stand -/

/-- A bare hyphen stands where the position is `free`, behind a class or at the end. -/
def hyphensPlaced : (free : Bool) → List Entry → Bool
  | _, [] => true
  | _, [.plain .hyphen] => true
  | free, .plain .hyphen :: entries => free && hyphensPlaced false entries
  | _, .plain _ :: entries => hyphensPlaced false entries
  | _, .named _ :: entries => hyphensPlaced true entries

/-- A hyphen stands between a class of a certain kind and another entry. -/
def linksFrom (kind : CharClass → Bool) : List Entry → Bool
  | [] => false
  | .named cls :: .plain .hyphen :: entry :: entries => kind cls || linksFrom kind (entry :: entries)
  | _ :: entries => linksFrom kind entries

/-- A hyphen in front is a character. -/
def settle : List Entry → List Entry
  | .plain .hyphen :: entries => .plain (.char '-') :: entries
  | entries => entries

/-- The classes are written out, and a hyphen at the end is a character. -/
def spell : List Entry → List Item
  | [] => []
  | [.plain .hyphen] => [.char '-']
  | .plain item :: entries => item :: spell entries
  | .named cls :: entries => cls.items ++ spell entries

theorem hyphensPlaced_settle (entries : List Entry) :
    hyphensPlaced false (settle entries) = hyphensPlaced true entries := by
  rcases entries with _ | ⟨(_ | _ | _) | _, _ | _⟩ <;> rfl

theorem linksFrom_settle (kind : CharClass → Bool) (entries : List Entry) :
    linksFrom kind (settle entries) = linksFrom kind entries := by
  rcases entries with _ | ⟨(_ | _ | _) | _, _⟩ <;> rfl

theorem hyphensPlaced_of_plain_cons {free : Bool} {item : Item} {entries : List Entry}
    (placed : hyphensPlaced free (.plain item :: entries) = true) : hyphensPlaced false entries = true := by
  cases item with
  | hyphen =>
      rcases entries with - | ⟨next, entries⟩
      · rfl
      · exact (Bool.and_eq_true_iff.1 placed).2
  | _ => exact placed

theorem linksFrom_plain_cons (kind : CharClass → Bool) (item : Item) (entries : List Entry) :
    linksFrom kind (.plain item :: entries) = linksFrom kind entries := by
  rw [linksFrom]
  rintro _ _ _ ⟨⟩

theorem linksFrom_named_cons {kind : CharClass → Bool} {cls : CharClass} {entries : List Entry}
    (h : linksFrom kind (.named cls :: entries) = false) :
    linksFrom kind entries = false ∧
      ∀ next others, entries = .plain .hyphen :: next :: others → kind cls = false := by
  rw [linksFrom.eq_def] at h
  split at h
  · next heq => cases heq
  · next cls' next others heq =>
    obtain ⟨⟨⟩, rfl⟩ := List.cons.inj heq
    obtain ⟨own, rest⟩ := Bool.or_eq_false_iff.1 h
    exact ⟨(linksFrom_plain_cons kind _ _).trans rest, fun _ _ _ => own⟩
  · next different heq =>
    obtain ⟨rfl, rfl⟩ := List.cons.inj heq
    refine ⟨h, ?_⟩
    rintro next others rfl
    exact absurd rfl (different cls next others rfl)

theorem spell_ne_nil {entries : List Entry} (h : entries ≠ []) : spell entries ≠ [] := by
  fun_cases spell entries with
  | case1 => exact absurd rfl h
  | case2 => exact List.cons_ne_nil _ _
  | case3 => exact List.cons_ne_nil _ _
  | case4 cls entries => simp [cls.items_ne_nil]

/-! ### The members of what is written -/

theorem ne_of_not_isEscaped {c d : Char} (h : isEscaped c = false) (escaped : isEscaped d = true) : c ≠ d := by
  rintro rfl
  rw [h] at escaped
  cases escaped

/-- The member is written so that the first scan takes it for one. -/
def Member.IsWritten : Member → Prop
  | .char c => c ≠ '[' ∧ c ≠ ']' ∧ c ≠ '\\'
  | .escaped _ => True
  | .named name => ∃ cls : CharClass, cls.name = name

theorem CharClass.className?_name_append (cls : CharClass) (t : Text) :
    className? (cls.name ++ ':' :: ']' :: t) = some (cls.name, t) := by
  cases cls <;> rfl

theorem Member.IsWritten.membersTo_source_append {m : Member} (h : m.IsWritten) (t : Text) :
    membersTo (m.source ++ t) = Text.extend m (membersTo t) := by
  cases m with
  | char c =>
    obtain ⟨opening, closing, backslash⟩ := h
    show membersTo (c :: t) = _
    rw [membersTo, if_neg (by simpa using closing)]
    · exact fun _ _ same _ => backslash same
    · exact fun _ same _ => opening same
  | escaped c =>
    show membersTo ('\\' :: c :: t) = _
    rw [membersTo]
  | named name =>
    obtain ⟨cls, rfl⟩ := h
    have found := cls.className?_name_append t
    have text : (Member.named cls.name).source ++ t = '[' :: ':' :: (cls.name ++ ':' :: ']' :: t) := by
      simp [Member.source]
    rw [text, membersTo]
    split
    · next same =>
      obtain ⟨rfl, rfl⟩ := Prod.mk.inj (Option.some.inj (found.symm.trans same))
      rfl
    · next same => cases found.symm.trans same

theorem membersTo_written {ms : List Member} (h : ∀ m ∈ ms, m.IsWritten) (rest : Text) :
    membersTo (ms.flatMap Member.source ++ ']' :: rest) = some (ms, rest) := by
  induction ms with
  | nil =>
    show membersTo (']' :: rest) = _
    rw [membersTo]
    · rfl
    · rintro _ _ ⟨⟩
    · rintro _ ⟨⟩
  | cons m ms ih =>
    rw [List.forall_mem_cons] at h
    rw [List.flatMap_cons, List.append_assoc, h.1.membersTo_source_append, ih h.2]
    rfl

theorem isWritten_writtenChar (c : Char) : (writtenChar c).IsWritten := by
  unfold writtenChar
  split
  · trivial
  · next h =>
    have plain := Bool.eq_false_iff.2 h
    exact ⟨ne_of_not_isEscaped plain rfl, ne_of_not_isEscaped plain rfl, ne_of_not_isEscaped plain rfl⟩

theorem Entry.isWritten_of_mem_members {entry : Entry} {m : Member} (mem : m ∈ entry.members) : m.IsWritten := by
  have hyphen : (Member.char '-').IsWritten := ⟨by decide, by decide, by decide⟩
  rcases entry with (c | ⟨low, high⟩ | -) | cls
  · obtain rfl := List.mem_singleton.1 mem
    exact isWritten_writtenChar c
  · simp only [Entry.members, Item.members, List.mem_cons, List.not_mem_nil, or_false] at mem
    rcases mem with rfl | rfl | rfl
    · exact isWritten_writtenChar low
    · exact hyphen
    · exact isWritten_writtenChar high
  · obtain rfl := List.mem_singleton.1 mem
    exact hyphen
  · obtain rfl := List.mem_singleton.1 mem
    exact ⟨cls, rfl⟩

theorem source_writtenChar (c : Char) : (writtenChar c).source = writeChar c := by
  unfold writtenChar writeChar
  split <;> rfl

theorem Entry.flatMap_source_members (entry : Entry) : entry.members.flatMap Member.source = entry.write := by
  have hyphen : (Member.char '-').source = ['-'] := rfl
  have named (name : Text) : (Member.named name).source = '[' :: ':' :: (name ++ [':', ']']) := rfl
  rcases entry with (c | ⟨low, high⟩ | -) | cls <;>
    simp [Entry.members, Item.members, Entry.write, Item.write, source_writtenChar, hyphen, named]

/-- The text of entries is that of their members. -/
theorem flatMap_write (entries : List Entry) :
    entries.flatMap Entry.write = (entries.flatMap Entry.members).flatMap Member.source := by
  rw [List.flatMap_assoc]
  simp only [Entry.flatMap_source_members]

/-- The first scan ends behind the entries. -/
theorem contentTo_written (entries : List Entry) (rest : Text) :
    contentTo (entries.flatMap Entry.write ++ ']' :: rest) = some (entries.flatMap Entry.write, rest) := by
  have written : ∀ m ∈ entries.flatMap Entry.members, m.IsWritten := by
    intro m mem
    obtain ⟨entry, -, inside⟩ := List.mem_flatMap.1 mem
    exact Entry.isWritten_of_mem_members inside
  rw [contentTo_eq, flatMap_write, membersTo_written written]
  rfl

/-- The second scan finds the members that were written. -/
theorem members_written (entries : List Entry) :
    members (entries.flatMap Entry.write) = entries.flatMap Entry.members := by
  have written : ∀ m ∈ entries.flatMap Entry.members, m.IsWritten := by
    intro m mem
    obtain ⟨entry, -, inside⟩ := List.mem_flatMap.1 mem
    exact Entry.isWritten_of_mem_members inside
  have passed := membersTo_of_contentTo (contentTo_written entries [])
  rw [flatMap_write, membersTo_written written] at passed
  rw [flatMap_write]
  exact (Prod.mk.inj (Option.some.inj passed)).1.symm

/-! ### From members to the class -/

/-- A character that is a member is written so that it stands for itself. -/
theorem classChar_classLiteral (c : Char) : ClassChar (classLiteral c) c := by
  have same : (c == '[' || c == ']' || c == '\\' || c == '^' || c == '-') = Regex.isClassSpecial c := by
    rw [Bool.eq_iff_iff, Regex.isClassSpecial]
    simp [or_assoc]
  rw [classLiteral, same]
  split
  · next special => exact .escaped special
  · next plain => exact .plain (Bool.eq_false_iff.2 plain)

theorem classOf_writtenChar (first : Bool) (c : Char) (ms : List Member) :
    classOf first (writtenChar c :: ms) = classLiteral c ++ classOf false ms := by
  unfold writtenChar
  split
  · rfl
  · next h =>
    have hyphen : c ≠ '-' := ne_of_not_isEscaped (Bool.eq_false_iff.2 h) rfl
    simp [classOf, hyphen]

theorem Entry.members_ne_nil (entry : Entry) : entry.members ≠ [] := by
  rcases entry with (- | - | -) | - <;> exact List.cons_ne_nil _ _

/-- Behind the front, entries are rewritten into a class for the items that they are spelled with. -/
theorem spells_classOf (entries : List Entry) :
    Spells (classOf false (entries.flatMap Entry.members)) (spell entries) := by
  induction entries with
  | nil => exact .nil
  | cons entry entries ih =>
    rcases entry with (c | ⟨low, high⟩ | -) | cls
    · show Spells (classOf false (writtenChar c :: entries.flatMap Entry.members)) _
      rw [classOf_writtenChar]
      exact .char (classChar_classLiteral c) ih
    · show Spells (classOf false
        (writtenChar low :: .char '-' :: writtenChar high :: entries.flatMap Entry.members)) _
      have middle : classOf false (.char '-' :: writtenChar high :: entries.flatMap Entry.members) =
          '-' :: (classLiteral high ++ classOf false (entries.flatMap Entry.members)) := by
        rw [classOf, classOf_writtenChar]
        rfl
      rw [classOf_writtenChar, middle]
      exact .range (classChar_classLiteral low) (classChar_classLiteral high) ih
    · rcases entries with - | ⟨next, entries⟩
      · exact .char (classChar_classLiteral '-') .nil
      · have more : ((next :: entries).flatMap Entry.members).isEmpty = false := by
          simp [Entry.members_ne_nil]
        show Spells (classOf false (.char '-' :: (next :: entries).flatMap Entry.members)) _
        rw [classOf, more]
        exact .hyphen ih
    · exact cls.spells_items.append ih

/-- **The class that entries are rewritten into is written for the items that they are spelled with.** -/
theorem spells_classBody (entries : List Entry) :
    Spells (classBody true (entries.flatMap Entry.write)) (spell (settle entries)) := by
  rw [classBody_eq, members_written]
  rcases entries with - | ⟨(c | ⟨low, high⟩ | -) | cls, entries⟩
  · exact .nil
  · have rest := spells_classOf (.plain (.char c) :: entries)
    simp only [List.flatMap_cons, Entry.members, Item.members, List.cons_append, List.nil_append,
      classOf_writtenChar] at rest ⊢
    exact rest
  · have rest := spells_classOf (.plain (.range low high) :: entries)
    simp only [List.flatMap_cons, Entry.members, Item.members, List.cons_append, List.nil_append,
      classOf_writtenChar] at rest ⊢
    exact rest
  · exact .char (classChar_classLiteral '-') (spells_classOf entries)
  · exact spells_classOf (.named cls :: entries)

/-! ### Hyphens between items -/

/-- What is spelled begins with a hyphen only if the entries do, and go on behind it. -/
theorem exists_of_head?_spell {entries : List Entry} (h : (spell entries).head? = some .hyphen) :
    ∃ next others, entries = .plain .hyphen :: next :: others := by
  revert h
  fun_cases spell entries with
  | case1 => rintro ⟨⟩
  | case2 => rintro ⟨⟩
  | case3 item entries notLast =>
      rintro ⟨⟩
      obtain ⟨next, others, rfl⟩ := List.exists_cons_of_ne_nil fun nil => notLast nil rfl
      exact ⟨next, others, rfl⟩
  | case4 cls entries =>
      rw [List.head?_append_of_ne_nil _ cls.items_ne_nil]
      exact fun h => absurd (List.mem_of_head? h) cls.hyphen_notMem_items

theorem head?_spell_ne {entries : List Entry} (placed : hyphensPlaced false entries = true) :
    (spell entries).head? ≠ some .hyphen := by
  intro h
  obtain ⟨next, others, rfl⟩ := exists_of_head?_spell h
  cases placed

theorem getLast?_spell_ne (entries : List Entry) : (spell entries).getLast? ≠ some .hyphen := by
  fun_induction spell entries with
  | case1 => simp
  | case2 => simp
  | case3 item entries notLast ih =>
      rw [List.getLast?_cons]
      cases rest : (spell entries).getLast? with
      | none =>
          have nil : entries = [] := by
            by_contra more
            exact spell_ne_nil more (List.getLast?_eq_none_iff.1 rest)
          rintro ⟨⟩
          exact notLast nil rfl
      | some last => rwa [rest] at ih
  | case4 cls entries ih =>
      rw [List.getLast?_append]
      cases rest : (spell entries).getLast? with
      | none =>
          intro h
          exact cls.hyphen_notMem_items (List.mem_of_getLast? h)
      | some last => rwa [rest] at ih

theorem isChain_of_hyphen_notMem {R : Item → Item → Prop} (other : ∀ item next, next ≠ .hyphen → R item next)
    {w : List Item} (h : .hyphen ∉ w) : w.IsChain R := by
  induction w with
  | nil => exact .nil
  | cons item w ih =>
      have inner : .hyphen ∉ w := fun mem => h (List.mem_cons_of_mem _ mem)
      refine List.isChain_cons.2 ⟨fun next first => other item next ?_, ih inner⟩
      rintro rfl
      exact inner (List.mem_of_head? first)

/-- A relation between items and those behind them holds throughout what is spelled, if it always holds in front of
what is no hyphen, and in front of a hyphen at the end of the classes that have one behind them. -/
theorem isChain_spell {R : Item → Item → Prop} (other : ∀ item next, next ≠ .hyphen → R item next)
    {kind : CharClass → Bool} (behind : ∀ cls, kind cls = false → ∀ item ∈ cls.items.getLast?, R item .hyphen)
    {free : Bool} {entries : List Entry} (placed : hyphensPlaced free entries = true)
    (unlinked : linksFrom kind entries = false) : (spell entries).IsChain R := by
  fun_induction spell entries generalizing free with
  | case1 => exact .nil
  | case2 => exact .singleton _
  | case3 item entries _ ih =>
      have placed := hyphensPlaced_of_plain_cons placed
      rw [linksFrom_plain_cons] at unlinked
      refine List.isChain_cons.2 ⟨fun next first => other item next ?_, ih placed unlinked⟩
      rintro rfl
      exact head?_spell_ne placed first
  | case4 cls entries ih =>
      obtain ⟨unlinked, own⟩ := linksFrom_named_cons unlinked
      have placed : hyphensPlaced true entries = true := placed
      have inner := isChain_of_hyphen_notMem other cls.hyphen_notMem_items
      refine List.isChain_append.2 ⟨inner, ih placed unlinked, fun item last next first => ?_⟩
      by_cases isHyphen : next = .hyphen
      · subst isHyphen
        obtain ⟨next, others, rfl⟩ := exists_of_head?_spell first
        exact behind cls (own next others rfl) item last
      · exact other item next isHyphen

/-! ### Reading what is spelled -/

/-- The items that are read: a hyphen between two characters, be they written down or the end of a class, makes a
range of them. -/
def drawn (entries : List Entry) : List Item :=
  draw (spell (settle entries))

/-- **The class is one that is written for the items that are drawn.** -/
theorem spells_drawn (entries : List Entry) :
    Spells (classBody true (entries.flatMap Entry.write)) (drawn entries) :=
  (spells_classBody entries).draw

theorem drawn_ne_nil {entries : List Entry} (h : entries ≠ []) : drawn entries ≠ [] := by
  refine draw_ne_nil (spell_ne_nil ?_)
  unfold settle
  split
  · exact List.cons_ne_nil _ _
  · exact h

theorem linksFrom_eq_false {kind : CharClass → Bool} (never : ∀ cls, kind cls = false) (entries : List Entry) :
    linksFrom kind entries = false := by
  fun_induction linksFrom kind entries with
  | case1 => rfl
  | case2 cls next others ih => rw [never, ih]; rfl
  | case3 entry entries _ ih => exact ih

section

variable {entries : List Entry} (placed : hyphensPlaced true entries = true)

include placed

theorem isChain_linked_drawn : (drawn entries).IsChain Linked := by
  rw [← hyphensPlaced_settle] at placed
  refine isChain_linked_draw (isChain_spell ?_ ?_ placed (linksFrom_eq_false (fun _ => rfl) _)) (getLast?_spell_ne _)
  · exact fun _ _ different _ => different
  · rintro cls - item last rfl
    exact absurd (List.mem_of_getLast? last) cls.hyphen_notMem_items

/-- No range is drawn if the hyphens are behind classes that end with one. -/
theorem drawn_of_not_linksFrom (unlinked : linksFrom CharClass.isLoose entries = false) :
    drawn entries = spell (settle entries) := by
  rw [← hyphensPlaced_settle] at placed
  rw [← linksFrom_settle] at unlinked
  refine draw_of_linked (isChain_spell ?_ ?_ placed unlinked)
  · exact fun _ _ different isHyphen => absurd isHyphen different
  · exact fun cls tight item last _ => CharClass.exists_range_of_not_isLoose tight last

/-- What is drawn does not begin with a hyphen. -/
theorem head?_drawn_ne : (drawn entries).head? ≠ some .hyphen := fun first =>
  head?_spell_ne ((hyphensPlaced_settle entries).trans placed) (head?_draw_eq_hyphen first)

end

/-! ### The characters that are listed -/

theorem any_lists_spell (entries : List Entry) (c : Char) :
    (spell entries).any (Item.lists c) = entries.any (Entry.lists c) := by
  fun_induction spell entries with
  | case1 => rfl
  | case2 => rfl
  | case3 item entries _ ih => rw [List.any_cons, List.any_cons, ih]; rfl
  | case4 cls entries ih => rw [List.any_append, List.any_cons, ih, cls.any_lists_items]; rfl

theorem any_lists_settle (entries : List Entry) (c : Char) :
    (settle entries).any (Entry.lists c) = entries.any (Entry.lists c) := by
  rcases entries with _ | ⟨(_ | _ | _) | _, _⟩ <;> rfl

/-- To what stands in front, spelling makes no difference. -/
theorem doubles_head?_spell_iff (item : Item) (entries : List Entry) :
    (∀ next ∈ (spell entries).head?, item.doubles next = false) ↔
      ∀ next ∈ entries.head?, (Entry.plain item).doubles next = false := by
  fun_cases spell entries with
  | case1 => simp
  | case2 =>
      refine iff_of_true ?_ ?_
      · rintro - ⟨⟩
        exact item.doubles_of_isFree_right rfl
      · rintro - ⟨⟩
        exact item.doubles_of_isFree_right rfl
  | case3 next entries _ => simp [Entry.doubles]
  | case4 cls entries =>
      rw [List.head?_append_of_ne_nil _ cls.items_ne_nil]
      refine iff_of_true (fun next first => ?_) ?_
      · exact item.doubles_of_isFree_right (CharClass.isFree_of_mem_items (List.mem_of_head? first))
      · rintro - ⟨⟩
        rfl

/-- Spelling makes no characters clash, and keeps those that do. -/
theorem isChain_doubles_spell_iff (entries : List Entry) :
    ((spell entries).IsChain fun item next => item.doubles next = false) ↔
      entries.IsChain fun entry next => entry.doubles next = false := by
  fun_induction spell entries with
  | case1 => exact iff_of_true .nil .nil
  | case2 => exact iff_of_true (.singleton _) (.singleton _)
  | case3 item entries _ ih => rw [List.isChain_cons, List.isChain_cons, ih, doubles_head?_spell_iff]
  | case4 cls entries ih =>
      have free {item : Item} (mem : item ∈ cls.items) (next : Item) : item.doubles next = false :=
        item.doubles_of_isFree (CharClass.isFree_of_mem_items mem) next
      have inner : cls.items.IsChain fun item next => item.doubles next = false :=
        (List.pairwise_of_forall_mem_list fun _ mem next _ => free mem next).isChain
      have link (item : Item) (last : item ∈ cls.items.getLast?) (next : Item) (_ : next ∈ (spell entries).head?) :=
        free (List.mem_of_getLast? last) next
      rw [List.isChain_append, List.isChain_cons, ih]
      exact ⟨fun ⟨_, rest, _⟩ => ⟨fun _ _ => rfl, rest⟩, fun ⟨_, rest⟩ => ⟨inner, rest, link⟩⟩

theorem isOrdered_spell {entries : List Entry} (ordered : entries.all Entry.isOrdered = true) :
    ∀ item ∈ spell entries, item.isOrdered = true := by
  fun_induction spell entries with
  | case1 => simp
  | case2 => simp [Item.isOrdered]
  | case3 item entries _ ih =>
      obtain ⟨own, rest⟩ := Bool.and_eq_true_iff.1 ordered
      exact List.forall_mem_cons.2 ⟨own, ih rest⟩
  | case4 cls entries ih =>
      exact List.forall_mem_append.2 ⟨fun item => CharClass.isOrdered_of_mem_items, ih ordered⟩

theorem readable_spell {entries : List Entry} (ordered : entries.all Entry.isOrdered = true) :
    Readable (spell (settle entries)) ↔ entries.IsChain fun entry next => entry.doubles next = false := by
  have same : ((settle entries).IsChain fun entry next => entry.doubles next = false) ↔
      entries.IsChain fun entry next => entry.doubles next = false := by
    unfold settle
    split
    · have free (item : Item) (h : item.isFree = true) (next : Entry) : (Entry.plain item).doubles next = false := by
        cases next with
        | plain next => exact item.doubles_of_isFree h next
        | named cls => rfl
      rw [List.isChain_cons, List.isChain_cons]
      exact and_congr_left' (iff_of_true (fun next _ => free _ rfl next) fun next _ => free _ rfl next)
    · rfl
  have settled : (settle entries).all Entry.isOrdered = true := by
    rcases entries with _ | ⟨(_ | _ | _) | _, _⟩ <;> exact ordered
  rw [Readable, isChain_doubles_spell_iff, same]
  exact and_iff_right (isOrdered_spell settled)

end ShellWord.Bracket
