import ShellWord.Proofs.Pattern.BracketEntries
import ShellWord.Proofs.Pattern.Shape

/-!
# Bracket expressions and the sets they list

A bracket expression is meant to match one character, out of those that its entries stand for.  A `Listing` is such
an intention, and `Listing.text` writes it down, with a backslash in front of every character that has a meaning
between brackets.  It is rewritten into the class of a regular expression, in which other characters have a meaning, and
an engine reads that class.  `accepts_text_iff` compares what is meant with what comes out, for every standard engine.

They do not always agree, for three reasons.  The characters `&` and `~` have no meaning between brackets, and none in a
class, so they are written without a backslash in both; but in a class a doubled one is reserved, and the expression is
no pattern at all.  A hyphen behind one of four classes is taken for the middle of a range.  And where groups are
switched on, an exclamation mark that is followed by a parenthesis is taken for the beginning of a group, although it
only negates the expression.
-/

namespace ShellWord.Bracket

/-! ### The text of entries -/

theorem excludes_writeChar_append (c : Char) (t : Text) :
    Pattern.excludes (writeChar c ++ t) = Pattern.excludes t := by
  unfold writeChar
  split
  · show Pattern.excludes ('\\' :: c :: t) = _
    rw [Pattern.excludes]
  · next h =>
    have plain := Bool.eq_false_iff.2 h
    exact Pattern.excludes_cons (ne_of_not_isEscaped plain rfl) (ne_of_not_isEscaped plain rfl) t

/-- No unescaped `!` is written down. -/
theorem excludes_write_append (entry : Entry) (t : Text) :
    Pattern.excludes (entry.write ++ t) = Pattern.excludes t := by
  cases entry with
  | named cls => cases cls <;> simp [Entry.write, CharClass.name, Pattern.excludes_cons]
  | plain item =>
      cases item with
      | char c => exact excludes_writeChar_append c t
      | range low high =>
          rw [Entry.write, Item.write, List.append_assoc, excludes_writeChar_append, List.cons_append,
            Pattern.excludes_cons (by decide) (by decide), excludes_writeChar_append]
      | hyphen => exact Pattern.excludes_cons (by decide) (by decide) t

theorem excludes_written (entries : List Entry) (rest : Text) :
    Pattern.excludes (entries.flatMap Entry.write ++ rest) = Pattern.excludes rest := by
  induction entries with
  | nil => rfl
  | cons entry entries ih => rw [List.flatMap_cons, List.append_assoc, excludes_write_append, ih]

/-- The text of an entry begins with nothing that means something else in front. -/
theorem exists_write_eq_cons (entry : Entry) :
    ∃ c t, entry.write = c :: t ∧ c ≠ ']' ∧ c ≠ '!' ∧ c ≠ '^' := by
  have char (c : Char) (u : Text) : ∃ d t, writeChar c ++ u = d :: t ∧ d ≠ ']' ∧ d ≠ '!' ∧ d ≠ '^' := by
    unfold writeChar
    split
    · exact ⟨'\\', c :: u, rfl, by decide, by decide, by decide⟩
    · next h =>
      have plain := Bool.eq_false_iff.2 h
      exact ⟨c, u, rfl, ne_of_not_isEscaped plain rfl, ne_of_not_isEscaped plain rfl, ne_of_not_isEscaped plain rfl⟩
  cases entry with
  | named cls => exact ⟨'[', _, rfl, by decide, by decide, by decide⟩
  | plain item =>
      cases item with
      | char c =>
          obtain ⟨d, t, eq, first⟩ := char c []
          exact ⟨d, t, (List.append_nil _).symm.trans eq, first⟩
      | range low high => exact char low _
      | hyphen => exact ⟨'-', [], rfl, by decide, by decide, by decide⟩

/-! ### Whole bracket expressions -/

/-- How a bracket expression is opened: with a mark that negates it, or without. -/
inductive Opening where
  | plain
  | bang
  | caret
  deriving DecidableEq, Repr

/-- The mark behind the opening bracket. -/
def Opening.text : Opening → Text
  | .plain => []
  | .bang => ['!']
  | .caret => ['^']

/-- The characters that are not listed are meant. -/
def Opening.isNegated : Opening → Bool
  | .plain => false
  | _ => true

/-- A bracket expression as it is meant: entries, at least one, with ranges in order and hyphens in their
places. -/
structure Listing where
  opening : Opening
  entries : List Entry
  ne_nil : entries ≠ []
  ordered : entries.all Entry.isOrdered = true
  placed : hyphensPlaced true entries = true

namespace Listing

/-- The entries as they are written. -/
def body (b : Listing) : Text :=
  b.entries.flatMap Entry.write

/-- The bracket expression as it is written. -/
def text (b : Listing) : Text :=
  '[' :: (b.opening.text ++ (b.body ++ [']']))

/-- An exclamation mark negates the expression, and the first entry begins with a parenthesis. -/
def opensGroup (b : Listing) : Bool :=
  b.opening == .bang && b.body.head? == some '('

theorem exists_body_eq_cons (b : Listing) : ∃ c t, b.body = c :: t ∧ c ≠ ']' ∧ c ≠ '!' ∧ c ≠ '^' := by
  obtain ⟨entry, entries, eq⟩ := List.exists_cons_of_ne_nil b.ne_nil
  obtain ⟨c, t, write, first⟩ := exists_write_eq_cons entry
  exact ⟨c, t ++ entries.flatMap Entry.write, by rw [body, eq, List.flatMap_cons, write]; rfl, first⟩

/-- What stands between the brackets is found, and nothing behind them. -/
theorem close?_text (b : Listing) :
    close? (b.opening.text ++ (b.body ++ [']'])) = some (b.opening.text ++ b.body, []) := by
  obtain ⟨c, t, eq, closing, bang, caret⟩ := b.exists_body_eq_cons
  have closed : bodyTo (b.body ++ [']']) = some (b.body, []) := by
    have found : contentTo (b.body ++ [']']) = some (b.body, []) := contentTo_written b.entries []
    rw [← found, eq]
    simp [bodyTo, closing]
  cases b.opening with
  | bang => exact congrArg (Text.extend '!') closed
  | caret => exact congrArg (Text.extend '^') closed
  | plain =>
    refine Eq.trans ?_ closed
    rw [eq]
    simp [Opening.text, close?, bang, caret]

/-- The members of the class that it is rewritten into. -/
def members (b : Listing) : Text :=
  classBody true b.body

/-- The class is the negation and the members between brackets. -/
theorem classText_eq (b : Listing) :
    classText (b.opening.text ++ b.body) =
      '[' :: (Regex.negation b.opening.isNegated ++ (b.members ++ [']'])) := by
  obtain ⟨c, t, eq, -, bang, caret⟩ := b.exists_body_eq_cons
  rw [members]
  cases b.opening with
  | bang => rfl
  | caret => rfl
  | plain =>
    rw [eq]
    simp [Opening.text, Opening.isNegated, classText, Regex.negation, bang, caret]

/-- **The expression of a bracket expression is its class**, with groups switched on or off. -/
theorem translate_text (b : Listing) (extglob : Bool) (exclusion : Exclusion) :
    Pattern.translate extglob exclusion b.text = classText (b.opening.text ++ b.body) := by
  have piece : Pattern.piece '[' (b.opening.text ++ (b.body ++ [']'])) = classText (b.opening.text ++ b.body) := by
    simp [Pattern.piece, b.close?_text]
  have following : Pattern.following '[' (b.opening.text ++ (b.body ++ [']'])) = [] := by
    simp [Pattern.following, b.close?_text]
  rw [text, Pattern.translate_cons (Pattern.group?_of_ofChar? rfl _ _), piece, following,
    Pattern.translate_nil, List.append_nil]

/-! ### Reading the class -/

/-- The characters that are read, or the others. -/
def charSet (b : Listing) : CharSet :=
  ⟨b.opening.isNegated, (drawn b.entries).map Item.bounds⟩

theorem contains_charSet (b : Listing) (c : Char) :
    b.charSet.contains c = ((drawn b.entries).any (Item.lists c) != b.opening.isNegated) := by
  have inRange : CharSet.inRange c ∘ Item.bounds = Item.lists c := funext (Item.inRange_bounds c)
  rw [CharSet.contains, charSet, List.any_map, inRange]

theorem head?_members_ne (b : Listing) : b.members.head? ≠ some '-' :=
  (spells_drawn b.entries).head?_ne_hyphen (head?_drawn_ne b.placed)

theorem members_ne_nil (b : Listing) : b.members ≠ [] :=
  (spells_drawn b.entries).ne_nil (drawn_ne_nil b.ne_nil)

/-- The class denotes one character out of the set, if what is drawn is readable. -/
theorem reads_classText (b : Listing) (readable : Readable (drawn b.entries)) :
    Regex.Reads .whole (classText (b.opening.text ++ b.body)) (.one b.charSet) := by
  have listed : Regex.ClassBody b.members ((drawn b.entries).map Item.bounds) :=
    (spells_drawn b.entries).classBody (isChain_linked_drawn b.placed) readable
  rw [b.classText_eq]
  exact .last (Regex.Factors.single (.once (.listed listed b.members_ne_nil b.head?_members_ne))).reads

/-- Otherwise it is faulty, whatever follows it. -/
theorem faulty_classText (b : Listing) (unreadable : ¬ Readable (drawn b.entries)) (rest : Text) :
    Regex.Faulty .whole (classText (b.opening.text ++ b.body) ++ rest) := by
  have fault : Regex.ClassFault (b.members ++ ']' :: rest) :=
    ((spells_drawn b.entries).classFault (isChain_linked_drawn b.placed) unreadable).append_close rest
  have front : (b.members ++ ']' :: rest).head? ≠ some '-' := by
    rw [List.head?_append_of_ne_nil _ b.members_ne_nil]
    exact b.head?_members_ne
  rw [b.classText_eq]
  simpa using Regex.Faulty.last (.first (.once (.listed fault front)))

/-- The limit of `Regex.engine` is not reached. -/
theorem isWithinLimit_text (b : Listing) (extglob : Bool) (exclusion : Exclusion) :
    Regex.isWithinLimit (Pattern.expression extglob exclusion b.text) = true := by
  rw [Pattern.expression, translate_text]
  by_cases readable : Readable (drawn b.entries)
  · rw [(b.reads_classText readable).isWithinLimit_anchor]
    rfl
  · rw [Pattern.anchor_eq, Regex.isWithinLimit, Regex.after?_dotFlag, Option.bind_some,
      (b.faulty_classText readable _).anchored.read?]
    rfl

/-! ### Compiling it -/

theorem excludes_text (b : Listing) : Pattern.excludes b.text = b.opensGroup := by
  have behind : Pattern.excludes (b.body ++ [']']) = false := excludes_written b.entries [']']
  obtain ⟨c, t, eq, -⟩ := b.exists_body_eq_cons
  rw [text, Pattern.excludes_cons (by decide) (by decide), opensGroup]
  cases b.opening with
  | plain => exact behind
  | caret => exact (Pattern.excludes_cons (by decide) (by decide) _).trans behind
  | bang =>
      rw [eq, List.cons_append] at behind
      rw [eq]
      simp [Opening.text, Pattern.excludes, behind]

/-- What it requires is also what it forbids, if it is rewritten twice. -/
theorem compile?_text (b : Listing) (engine : Engine) (extglob : Bool) :
    Pattern.compile? engine extglob b.text =
      (engine (Pattern.anchor (classText (b.opening.text ++ b.body)))).map fun m =>
        ⟨m, if extglob && b.opensGroup then some m else none⟩ := by
  rw [Pattern.compile?, Pattern.expression, Pattern.expression, translate_text, translate_text, excludes_text]
  cases engine (Pattern.anchor (classText (b.opening.text ++ b.body))) with
  | none => rfl
  | some m => cases extglob && b.opensGroup <;> rfl

section

variable {engine : Engine} {admits : Text → Prop} (standard : engine.Standard admits) (b : Listing) (extglob : Bool)

include standard

/-- To a standard engine it is a pattern if what is drawn is readable, and matches one character. -/
theorem exists_compile?_text (admitted : admits (Pattern.expression extglob .anything b.text))
    (readable : Readable (drawn b.entries)) :
    ∃ p, Pattern.compile? engine extglob b.text = some p ∧ ∀ t, p.accepts t = true ↔
      (extglob && b.opensGroup) = false ∧
        ∃ c, t = [c] ∧ (drawn b.entries).any (Item.lists c) ≠ b.opening.isNegated := by
  rw [Pattern.expression, translate_text] at admitted
  obtain ⟨m, compiled, meaning⟩ := standard.exists_anchor (b.reads_classText readable) rfl admitted
  rw [compile?_text, compiled]
  refine ⟨_, rfl, fun t => ?_⟩
  have one : m t = true ↔ ∃ c, t = [c] ∧ (drawn b.entries).any (Item.lists c) ≠ b.opening.isNegated := by
    rw [meaning, Regex.mem_language_one]
    simp only [contains_charSet, bne_iff_ne, and_comm]
  cases extglob && b.opensGroup <;> simp [Pattern.accepts, one]

/-- Otherwise it is none. -/
theorem compile?_text_eq_none (unreadable : ¬ Readable (drawn b.entries)) :
    Pattern.compile? engine extglob b.text = none := by
  rw [compile?_text, standard.anchor_eq_none (b.faulty_classText unreadable)]
  rfl

end

/-! ### The result -/

/-- **A bracket expression matches one character, out of those that it lists, with three exceptions.**

It is rewritten into a class, the same one whether groups are switched on or not.  A standard engine with which that is
within the limits, as it is with `Regex.engine`, makes a pattern of it exactly if what is drawn from its entries is
readable.  The pattern matches the texts of one character that is listed there or, if it is negated, of one that is not.
Where groups are switched on and it begins with `[!(`, it matches nothing at all.

Unless a hyphen stands between `[:blank:]`, `[:cntrl:]`, `[:space:]` or `[:word:]` and another entry, the characters
listed there are those that the entries stand for, and the expression is a pattern exactly if no entry begins with `&`
or `~` right behind the same character. -/
theorem accepts_text_iff (extglob : Bool) (b : Listing) :
    (∀ exclusion, Pattern.translate extglob exclusion b.text = classText (b.opening.text ++ b.body)) ∧
    (∀ (engine : Engine) (admits : Text → Prop), engine.Standard admits →
      admits (Pattern.expression extglob .anything b.text) →
      ((Pattern.compile? engine extglob b.text).isSome = true ↔ Readable (drawn b.entries)) ∧
      ∀ p, Pattern.compile? engine extglob b.text = some p → ∀ t, p.accepts t = true ↔
        (extglob && b.opensGroup) = false ∧
          ∃ c, t = [c] ∧ (drawn b.entries).any (Item.lists c) ≠ b.opening.isNegated) ∧
    Regex.isWithinLimit (Pattern.expression extglob .anything b.text) = true ∧
    (linksFrom CharClass.isLoose b.entries = false →
      (Readable (drawn b.entries) ↔ b.entries.IsChain fun entry next => entry.doubles next = false) ∧
      ∀ c, (drawn b.entries).any (Item.lists c) = b.entries.any (Entry.lists c)) := by
  refine ⟨b.translate_text extglob, fun engine admits standard admitted => ?_, b.isWithinLimit_text extglob _,
    fun unlinked => ?_⟩
  · by_cases readable : Readable (drawn b.entries)
    · obtain ⟨p, compiled, meaning⟩ := exists_compile?_text standard b extglob admitted readable
      rw [compiled]
      refine ⟨by simpa using readable, fun q read => ?_⟩
      obtain rfl := Option.some.inj read
      exact meaning
    · rw [compile?_text_eq_none standard b extglob readable]
      exact ⟨by simpa using readable, fun p read => nomatch read⟩
  · rw [drawn_of_not_linksFrom b.placed unlinked]
    exact ⟨readable_spell b.ordered, fun c => (any_lists_spell _ c).trans (any_lists_settle _ c)⟩

/-- `[!-[:digit:]-a-f\]]`: no hyphen, no digit, none of the first letters and no closing bracket. -/
def noneOfFour : Listing where
  opening := .bang
  entries := [.plain .hyphen, .named .digit, .plain .hyphen, .plain (.range 'a' 'f'), .plain (.char ']')]
  ne_nil := by decide
  ordered := by decide
  placed := by decide

/-- The theorem at an expression with two hyphens. -/
theorem accepts_noneOfFour :
    noneOfFour.text = "[!-[:digit:]-a-f\\]]".toList ∧
    (∀ exclusion, Pattern.translate true exclusion noneOfFour.text = "[^\\-0-9-a-f\\]]".toList) ∧
    linksFrom CharClass.isLoose noneOfFour.entries = false ∧
    ∃ p, Pattern.ofText? true noneOfFour.text = some p ∧
      ∀ t, p.accepts t = true ↔ ∃ c, t = [c] ∧ noneOfFour.entries.any (Entry.lists c) = false := by
  obtain ⟨rewritten, compiled, within, intended⟩ := accepts_text_iff true noneOfFour
  obtain ⟨isPattern, accepts⟩ := compiled _ _ Regex.standard_engine within
  obtain ⟨readable, same⟩ := intended (by decide)
  obtain ⟨p, found⟩ := Option.isSome_iff_exists.1 (isPattern.2 (readable.2 (by decide)))
  refine ⟨by decide, fun exclusion => (rewritten exclusion).trans (by decide +kernel), by decide, p, found,
    fun t => ?_⟩
  have closed : (true && noneOfFour.opensGroup) = false := by decide
  rw [accepts p found t]
  simp only [closed, same, true_and]
  simp [noneOfFour, Opening.isNegated]

/-- `[&&]`: the same character twice. -/
def ampersands : Listing where
  opening := .plain
  entries := [.plain (.char '&'), .plain (.char '&')]
  ne_nil := by decide
  ordered := by decide
  placed := by decide

/-- `[[:word:]-z]`: a class, a hyphen and a letter. -/
def wordToZ : Listing where
  opening := .plain
  entries := [.named .word, .plain .hyphen, .plain (.char 'z')]
  ne_nil := by decide
  ordered := by decide
  placed := by decide

theorem drawn_wordToZ :
    drawn wordToZ.entries = [.range 'a' 'z', .range 'A' 'Z', .range '0' '9', .range '_' 'z'] := by
  simp [drawn, wordToZ, settle, spell, CharClass.items, draw]

/-- `[&&]` lists a character and is no pattern; `[[:word:]-z]` is one, and does not match the hyphen that it lists. -/
theorem not_accepts_listed :
    (ampersands.text = "[&&]".toList ∧ ampersands.entries.any (Entry.lists '&') = true ∧
      Pattern.ofText? false ampersands.text = none) ∧
    (wordToZ.text = "[[:word:]-z]".toList ∧ wordToZ.entries.any (Entry.lists '-') = true ∧
      ∃ p, Pattern.ofText? false wordToZ.text = some p ∧ p.accepts ['-'] = false) := by
  have unreadable : ¬ Readable (drawn ampersands.entries) := by
    rw [drawn_of_not_linksFrom ampersands.placed (by decide)]
    decide
  have readable : Readable (drawn wordToZ.entries) := by
    rw [drawn_wordToZ]
    decide
  obtain ⟨p, found, accepts⟩ :=
    exists_compile?_text Regex.standard_engine wordToZ false (isWithinLimit_text _ _ _) readable
  refine ⟨⟨by decide, by decide, compile?_text_eq_none Regex.standard_engine ampersands false unreadable⟩,
    by decide, by decide, p, found, ?_⟩
  have unlisted : (drawn wordToZ.entries).any (Item.lists '-') = false := by
    rw [drawn_wordToZ]
    decide
  rw [← Bool.not_eq_true, accepts]
  rintro ⟨-, c, single, listed⟩
  obtain rfl := (List.cons.inj single).1
  exact listed unlisted

end Listing

end ShellWord.Bracket
