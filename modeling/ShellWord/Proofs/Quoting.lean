import ShellWord.Proofs.Mark
import ShellWord.Proofs.Simulation

/-!
# Quoting and pathname expansion

Quotes and backslashes are there to keep characters from being matched against files.  Take a word in
which nothing unquoted is active by itself: no unescaped character of an unquoted literal and no character
of an unquoted result is a wildcard, or an opening parenthesis if groups are switched on (`Harmless`).  Are
the files left alone, whatever stands in the quoted and escaped parts?

Not always.  A result may end with a backslash, which is no wildcard, and in the pattern of the field it
cancels the backslash of the quoted wildcard behind it.  `isActive_joinPieces_iff` says that nothing
else goes wrong, and the last theorem carries this over to the arguments of the word: they depend on the
files and on the options `nullglob`, `failglob` and `dotglob` exactly if a wildcard slips in this way.

### What is load-bearing

That the dependence is real is shown with one file system only, the empty one, in which no pattern matches:
with `failglob` an active field is an error, and without it and without `nullglob` it is not.
-/

namespace ShellWord

/-- The characters of unquoted text that have no backslash in front. -/
def unescapedChars : Text → Text
  | [] => []
  | ['\\'] => []
  | '\\' :: _ :: t => unescapedChars t
  | c :: t => c :: unescapedChars t

theorem unescapedChars_cons {c : Char} (h : c ≠ '\\') (t : Text) :
    unescapedChars (c :: t) = c :: unescapedChars t := by
  rw [unescapedChars]
  · rintro rfl
    exact absurd rfl h
  · rintro _ _ rfl
    exact absurd rfl h

/-- Text without backslashes changes nothing for what follows it. -/
theorem unescapedChars_append {s : Text} (h : '\\' ∉ s) (t : Text) :
    unescapedChars (s ++ t) = s ++ unescapedChars t := by
  induction s with
  | nil => rfl
  | cons c s ih =>
      have head : c ≠ '\\' := fun same => h (same ▸ List.mem_cons_self)
      rw [List.cons_append, unescapedChars_cons head, ih fun mem => h (List.mem_cons_of_mem _ mem)]
      rfl

/-- The characters that can make a pattern active: the wildcards, and the parenthesis of a group where
groups are switched on. -/
def isTrigger (extglob : Bool) (c : Char) : Bool :=
  isWildcard c || (extglob && c == '(')

theorem isWildcard_eq_false {extglob : Bool} {c : Char} (h : isTrigger extglob c = false) :
    isWildcard c = false :=
  (Bool.or_eq_false_iff.1 h).1

theorem ne_paren {c : Char} (h : isTrigger true c = false) : c ≠ '(' := by
  rintro rfl
  revert h
  decide

/-! ### Literals -/

/-- A pattern that was written with its backslashes in order: what is bare in it is neither a backslash
nor a wildcard, and with groups every parenthesis has its backslash. -/
structure Tame (extglob : Bool) (pattern : Text) : Prop where
  bare : ∀ c, .bare c ∈ Mark.ofPattern pattern → c ≠ '\\' ∧ isWildcard c = false
  groups : extglob = true → ParenGuarded pattern

namespace Tame

variable {extglob : Bool} {t : Text}

theorem nil : Tame extglob [] :=
  ⟨fun _ mem => absurd mem List.not_mem_nil, fun _ => ParenGuarded.nil⟩

/-- An escaped character in front. -/
theorem escaped (c : Char) (h : Tame extglob t) : Tame extglob ('\\' :: c :: t) := by
  refine ⟨fun d mem => h.bare d ?_, fun on => ?_⟩
  · rw [Mark.ofPattern] at mem
    exact (List.mem_cons.1 mem).resolve_left (by simp)
  · have front : ParenGuarded ['\\', c] := ⟨by simp, by simp⟩
    exact front.append (h.groups on)

/-- A harmless character in front. -/
theorem bare_cons {c : Char} (backslash : c ≠ '\\') (trigger : isTrigger extglob c = false)
    (h : Tame extglob t) : Tame extglob (c :: t) := by
  refine ⟨fun d mem => ?_, fun on => ?_⟩
  · rw [Mark.ofPattern_cons backslash] at mem
    rcases List.mem_cons.1 mem with same | mem
    · obtain rfl := Mark.bare.inj same
      exact ⟨backslash, isWildcard_eq_false trigger⟩
    · exact h.bare d mem
  · subst on
    have front : ParenGuarded [c] := .of_not_mem (by simpa using (ne_paren trigger).symm)
    exact front.append (h.groups rfl)

/-- A backslash that stands for itself, with the character after it: that one may be a parenthesis. -/
theorem kept {c : Char} (backslash : c ≠ '\\') (wildcard : isWildcard c = false)
    (h : Tame extglob t) : Tame extglob ('\\' :: '\\' :: c :: t) := by
  refine ⟨fun d mem => ?_, fun on => ?_⟩
  · rw [Mark.ofPattern, Mark.ofPattern_cons backslash] at mem
    rcases List.mem_cons.1 ((List.mem_cons.1 mem).resolve_left (by simp)) with same | mem
    · obtain rfl := Mark.bare.inj same
      exact ⟨backslash, wildcard⟩
    · exact h.bare d mem
  · have front : ParenGuarded ['\\', '\\', c] := ⟨by simp, by simp⟩
    exact front.append (h.groups on)

/-- A special character is escaped, and the others are harmless. -/
theorem escapeChar_append (c : Char) (h : Tame extglob t) :
    Tame extglob (Pattern.escapeChar c ++ t) := by
  unfold Pattern.escapeChar
  split
  · exact h.escaped c
  · next plain =>
    simp only [Pattern.isSpecial, Bool.or_eq_true, beq_iff_eq, not_or] at plain
    exact h.bare_cons (by simp_all) (by simp_all [isTrigger, isWildcard])

/-- Quoted text is tame. -/
theorem escape (text : Text) : Tame extglob (Pattern.escape text) := by
  induction text with
  | nil => exact .nil
  | cons c text ih => exact ih.escapeChar_append c

end Tame

/-- What a backslash and the character after it contribute outside quotes. -/
def escapedLiteral (c : Char) : Literal :=
  if c = '\n' then .empty
  else if Literal.isEscapable c then ⟨[c], Pattern.escapeChar c⟩
  else ⟨['\\', c], ['\\', '\\', c]⟩

theorem ofUnquoted_cons {c : Char} (h : c ≠ '\\') (t : Text) :
    Literal.ofUnquoted (c :: t) = ⟨[c], [c]⟩ ++ Literal.ofUnquoted t := by
  rw [Literal.ofUnquoted.eq_def]
  split
  · next same => cases same
  · next same => exact absurd (List.cons.inj same).1 h
  · next same => exact absurd (List.cons.inj same).1 h
  · next same => exact absurd (List.cons.inj same).1 h
  · next same =>
    obtain ⟨rfl, rfl⟩ := List.cons.inj same
    rfl

/-- A backslash and the character after it are read together, whether or not the backslash is kept. -/
theorem ofUnquoted_backslash (c : Char) (t : Text) :
    Literal.ofUnquoted ('\\' :: c :: t) = escapedLiteral c ++ Literal.ofUnquoted t := by
  unfold escapedLiteral
  by_cases newline : c = '\n'
  · subst newline
    rfl
  · rw [if_neg newline]
    have read : Literal.ofUnquoted ('\\' :: c :: t) =
        if Literal.isEscapable c then ⟨[c], Pattern.escapeChar c⟩ ++ Literal.ofUnquoted t
        else ⟨['\\'], ['\\', '\\']⟩ ++ Literal.ofUnquoted (c :: t) := by
      rw [Literal.ofUnquoted.eq_def]
      simp
    rw [read]
    split
    · rfl
    · next kept =>
      have notBackslash : c ≠ '\\' := by
        rintro rfl
        exact kept rfl
      rw [ofUnquoted_cons notBackslash]
      rfl

/-- Unquoted literals without unescaped triggers are tame. -/
theorem Tame.ofUnquoted {extglob : Bool} {raw : Text}
    (h : ∀ c ∈ unescapedChars raw, isTrigger extglob c = false) :
    Tame extglob (Literal.ofUnquoted raw).pattern := by
  fun_induction unescapedChars raw with
  | case1 => exact .nil
  | case2 => exact Tame.nil.escaped '\\'
  | case3 c t ih =>
      rw [ofUnquoted_backslash, Literal.pattern_append, escapedLiteral]
      split
      · exact ih h
      · split
        · exact (ih h).escapeChar_append c
        · next kept =>
          simp only [Literal.isEscapable, Bool.or_eq_true, beq_iff_eq, not_or] at kept
          exact (ih h).kept (by simp_all) (by simp_all [isWildcard])
  | case4 c t single pair ih =>
      have head : c ≠ '\\' := Text.ne_of_single_of_pair single pair
      rw [ofUnquoted_cons head, Literal.pattern_append]
      exact (ih fun d mem => h d (List.mem_cons_of_mem _ mem)).bare_cons head
        (h c List.mem_cons_self)

/-! ### Words -/

section

variable {World : Type}

/-- A tilde prefix that stands for a directory has no backslash. -/
theorem backslash_not_mem_of_tildeDirectory? {host : Host World} {s : Session World} {name dir : Text}
    (h : s.tildeDirectory? host name = some dir) : '\\' ∉ name := by
  unfold Session.tildeDirectory? at h
  split at h
  · simp
  · simp
  · simp
  · split at h
    · next login =>
      intro mem
      exact absurd (List.all_eq_true.1 login _ mem) (by decide)
    · cases h

/-- Cutting off a tilde prefix adds no unescaped characters. -/
theorem unescapedChars_subset_of_tildePrefix? {host : Host World} {s : Session World}
    {text dir rest : Text} {continues : Bool}
    (h : s.tildePrefix? host text continues = some (dir, rest)) :
    unescapedChars rest ⊆ unescapedChars text := by
  unfold Session.tildePrefix? at h
  split at h
  · next behind =>
    split at h
    · cases h
    · obtain ⟨found, resolved, same⟩ := Option.map_eq_some_iff.1 h
      obtain ⟨rfl, rfl⟩ := Prod.mk.inj same
      have cut := unescapedChars_append (backslash_not_mem_of_tildeDirectory? resolved)
        (behind.dropWhile (· != '/'))
      rw [List.takeWhile_append_dropWhile] at cut
      rw [unescapedChars_cons (by decide), cut]
      intro c mem
      exact List.mem_cons_of_mem _ (List.mem_append_right _ mem)
  · cases h

theorem tame_of_mem_literalSegments {host : Host World} {s : Session World} {text : Text}
    {quote : Option Quote} {leading continues : Bool} {extglob : Bool}
    (h : quote = none → ∀ c ∈ unescapedChars text, isTrigger extglob c = false)
    {literal : Literal} {quoted : Bool}
    (mem : .fixed literal quoted ∈ literalSegments host s text quote leading continues) :
    Tame extglob literal.pattern := by
  rcases cases_of_mem_literalSegments mem with ⟨inner, same⟩ | ⟨unquoted, rest, same, found⟩
  · obtain ⟨rfl, -⟩ := Segment.fixed.inj same
    exact .escape _
  · obtain ⟨rfl, -⟩ := Segment.fixed.inj same
    refine .ofUnquoted fun c inside => h unquoted c ?_
    rcases found with rfl | ⟨dir, prefixed⟩
    · exact inside
    · exact unescapedChars_subset_of_tildePrefix? prefixed inside

theorem mem_of_mem_intersperse {α : Type} {a separator : α} {l : List α}
    (mem : a ∈ l.intersperse separator) : a = separator ∨ a ∈ l := by
  fun_induction List.intersperse separator l with
  | case1 => exact .inr mem
  | case2 => exact .inr mem
  | case3 b l _ ih =>
      rcases List.mem_cons.1 mem with rfl | mem
      · exact .inr List.mem_cons_self
      · rcases List.mem_cons.1 mem with rfl | mem
        · exact .inl rfl
        · exact (ih mem).imp_right (List.mem_cons_of_mem _)

/-- What the parameters contribute as a fixed content is quoted. -/
theorem tame_of_mem_positionalSegments {list : PositionalList} {quoted : Bool} {separator : Text}
    {params : List Text} {extglob : Bool} {literal : Literal} {own : Bool}
    (mem : .fixed literal own ∈ positionalSegments list quoted separator params) :
    Tame extglob literal.pattern := by
  unfold positionalSegments at mem
  split at mem
  · obtain ⟨rfl, -⟩ := Segment.fixed.inj (List.mem_singleton.1 mem)
    exact .escape _
  · have inside := (mem_of_mem_intersperse mem).resolve_left (by simp)
    obtain ⟨param, -, same⟩ := List.mem_map.1 inside
    split at same
    · obtain ⟨rfl, -⟩ := Segment.fixed.inj same
      exact .escape _
    · cases same

theorem tame_of_mem_partSegments {host : Host World} {continues leading : Bool} {part : Part}
    {extglob : Bool}
    (h : ∀ text, part = .literal text none → ∀ c ∈ unescapedChars text, isTrigger extglob c = false)
    {s s' : Session World} {segments : List Segment}
    (ran : (partSegments host none continues leading part).exec s = (.ok segments, s'))
    {literal : Literal} {quoted : Bool} (mem : .fixed literal quoted ∈ segments) :
    Tame extglob literal.pattern := by
  cases part with
  | literal text own =>
      obtain ⟨t, _, -, ran⟩ := Run.exec_bind_eq_ok_iff.1 ran
      obtain rfl := Except.ok.inj (Prod.mk.inj ran).1
      refine tame_of_mem_literalSegments (fun unquoted => ?_) mem
      rw [Option.none_or] at unquoted
      exact h text (by rw [unquoted])
  | expansion expansion own =>
      obtain ⟨values, t, -, ran⟩ := Run.exec_bind_eq_ok_iff.1 ran
      cases values with
      | some values =>
          obtain ⟨u, _, -, ran⟩ := Run.exec_bind_eq_ok_iff.1 ran
          obtain rfl := Except.ok.inj (Prod.mk.inj ran).1
          exact tame_of_mem_positionalSegments mem
      | none =>
          obtain ⟨value, _, -, ran⟩ := Run.exec_bind_eq_ok_iff.1 ran
          obtain rfl := Except.ok.inj (Prod.mk.inj ran).1
          have same := List.mem_singleton.1 mem
          split at same
          · obtain ⟨rfl, -⟩ := Segment.fixed.inj same
            exact .escape _
          · cases same

theorem tame_of_mem_partsSegments {host : Host World} {continues leading : Bool} {parts : List Part}
    {extglob : Bool}
    (h : ∀ text, .literal text none ∈ parts → ∀ c ∈ unescapedChars text, isTrigger extglob c = false)
    {s s' : Session World} {segments : List Segment}
    (ran : (partsSegments host none continues leading parts).exec s = (.ok segments, s'))
    {literal : Literal} {quoted : Bool} (mem : .fixed literal quoted ∈ segments) :
    Tame extglob literal.pattern := by
  induction parts generalizing leading s segments with
  | nil =>
      obtain rfl := Except.ok.inj (Prod.mk.inj ran).1
      cases mem
  | cons part parts ih =>
      obtain ⟨first, t, ranFirst, ran⟩ := Run.exec_bind_eq_ok_iff.1 ran
      obtain ⟨rest, u, ranRest, ran⟩ := Run.exec_bind_eq_ok_iff.1 ran
      obtain ⟨outcome, rfl⟩ := Prod.mk.inj ran
      obtain rfl := Except.ok.inj outcome
      rcases List.mem_append.1 mem with mem | mem
      · refine tame_of_mem_partSegments (fun text same => h text ?_) ranFirst mem
        rw [same]
        exact List.mem_cons_self
      · exact ih (fun text inside => h text (List.mem_cons_of_mem _ inside)) ranRest mem

/-- Nothing unquoted in the word is active by itself: no unescaped character of its unquoted literals, and
no character of its unquoted results. -/
structure Harmless (extglob : Bool) (word : Word) (segments : List Segment) : Prop where
  literals : ∀ text, .literal text none ∈ word.parts →
    ∀ c ∈ unescapedChars text, isTrigger extglob c = false
  results : ∀ text, .splittable text ∈ segments → ∀ c ∈ text, isTrigger extglob c = false

namespace Harmless

variable {host : Host World} {word : Word} {extglob : Bool} {s s' : Session World}
  {segments : List Segment} {ifs : Option Ifs} {pieces : List FieldPiece}

theorem tame (harmless : Harmless extglob word segments) (composite : word.quote = none)
    (ran : (wordSegments host word).exec s = (.ok segments, s')) {literal : Literal}
    (source : FieldPiece.From segments (.fixed literal)) : Tame extglob literal.pattern := by
  obtain ⟨quoted, mem⟩ := source
  rw [wordSegments, composite] at ran
  exact tame_of_mem_partsSegments harmless.literals ran mem

/-- A bare character of a field is no wildcard, and if it is a backslash it comes from a result. -/
theorem bare_of_mem_marks (harmless : Harmless extglob word segments) (composite : word.quote = none)
    (ran : (wordSegments host word).exec s = (.ok segments, s'))
    (mem : pieces ∈ fieldPieces ifs segments) {c : Char}
    (bare : .bare c ∈ pieces.flatMap FieldPiece.marks) :
    isWildcard c = false ∧ (c = '\\' → ∃ text, .splittable text ∈ segments ∧ '\\' ∈ text) := by
  obtain ⟨piece, inside, bare⟩ := List.mem_flatMap.1 bare
  have source := from_of_mem_fieldPieces mem inside
  cases piece with
  | fixed literal =>
      obtain ⟨backslash, wildcard⟩ := (harmless.tame composite ran source).bare c bare
      exact ⟨wildcard, fun same => absurd same backslash⟩
  | word part =>
      obtain ⟨text, result, sub⟩ := source
      obtain ⟨d, inPart, same⟩ := List.mem_map.1 bare
      obtain rfl := Mark.bare.inj same
      refine ⟨isWildcard_eq_false (harmless.results text result d (sub inPart)), ?_⟩
      rintro rfl
      exact ⟨text, result, sub inPart⟩

theorem parenGuarded (harmless : Harmless true word segments) (composite : word.quote = none)
    (ran : (wordSegments host word).exec s = (.ok segments, s'))
    (mem : pieces ∈ fieldPieces ifs segments) : ParenGuarded (joinPieces pieces).pattern := by
  rw [pattern_joinPieces]
  refine .flatMap fun piece inside => ?_
  have source := from_of_mem_fieldPieces mem inside
  cases piece with
  | fixed literal => exact (harmless.tame composite ran source).groups rfl
  | word part =>
      obtain ⟨text, result, sub⟩ := source
      refine .of_not_mem fun paren => ?_
      exact ne_paren (harmless.results text result '(' (sub paren)) rfl

/-- **In a harmless word a field is active exactly if a wildcard slips.** -/
theorem isActive_joinPieces_iff (harmless : Harmless extglob word segments)
    (composite : word.quote = none)
    (ran : (wordSegments host word).exec s = (.ok segments, s'))
    (mem : pieces ∈ fieldPieces ifs segments) :
    Pattern.isActive extglob (joinPieces pieces).pattern = true ↔
      Slips (pieces.flatMap FieldPiece.marks) := by
  rw [pattern_joinPieces_eq_marks]
  refine isActive_iff_slips (fun c bare => (harmless.bare_of_mem_marks composite ran mem bare).1) ?_
  rintro rfl
  rw [← pattern_joinPieces_eq_marks]
  exact harmless.parenGuarded composite ran mem

/-- Where no result has a backslash, nothing slips. -/
theorem not_slips (harmless : Harmless extglob word segments) (composite : word.quote = none)
    (ran : (wordSegments host word).exec s = (.ok segments, s'))
    (plain : ∀ text, .splittable text ∈ segments → '\\' ∉ text)
    (mem : pieces ∈ fieldPieces ifs segments) : ¬ Slips (pieces.flatMap FieldPiece.marks) := by
  refine not_slips_of_bare_ne_backslash fun bare => ?_
  obtain ⟨text, result, inside⟩ := (harmless.bare_of_mem_marks composite ran mem bare).2 rfl
  exact plain text result inside

end Harmless

end

/-! ### Files and options -/

/-- Without files nothing matches. -/
theorem Globber.expandParts_none {g : Globber} (h : g.files = FileSystem.none) (dirsOnly : Bool)
    (dir found : Text) (parts : List Text) : g.expandParts dirsOnly dir found parts = [] := by
  cases parts with
  | nil => rfl
  | cons part parts => simp [Globber.expandParts, h, FileSystem.none]

theorem Globber.expand_none {g : Globber} (h : g.files = FileSystem.none) (pattern : Text) :
    g.expand pattern = [] := by
  unfold Globber.expand
  dsimp only
  split
  · simp [h, FileSystem.none]
  · rw [Globber.expandParts_none h, List.mergeSort_nil]

/-- Fields that stand for themselves. -/
theorem expandFieldList_eq_texts {globber : Globber} {globbing : Globbing} {fields : List Field}
    (h : ∀ field ∈ fields, expandField globber globbing field = .ok [field.text]) :
    expandFieldList globber globbing fields = .ok (fields.map Literal.text) := by
  induction fields with
  | nil => rfl
  | cons field fields ih =>
      rw [expandFieldList, h field List.mem_cons_self,
        ih fun other mem => h other (List.mem_cons_of_mem _ mem)]
      rfl

theorem expandField_of_not_active {globber : Globber} {globbing : Globbing} {field : Field}
    (h : Pattern.isActive globbing.extglob field.pattern = false) :
    expandField globber globbing field = .ok [field.text] := by
  rw [expandField, h]
  rfl

/-- Where nothing matches and nothing is asked for, a field stands for itself. -/
theorem expandField_of_expand_nil {globber : Globber} {globbing : Globbing} {field : Field}
    (nothing : globber.expand field.pattern = []) (failglob : globbing.failglob = false)
    (nullglob : globbing.nullglob = false) :
    expandField globber globbing field = .ok [field.text] := by
  unfold expandField
  split
  · rfl
  · simp [nothing, failglob, nullglob]

/-- Where nothing matches and that is an error, an active field fails. -/
theorem expandField_eq_error {globber : Globber} {globbing : Globbing} {field : Field}
    (active : Pattern.isActive globbing.extglob field.pattern = true)
    (nothing : globber.expand field.pattern = []) (failglob : globbing.failglob = true) :
    expandField globber globbing field = .error (.noMatch field.text) := by
  simp [expandField, active, nothing, failglob]

/-- One field that fails makes the list fail. -/
theorem expandFieldList_ne_ok {globber : Globber} {globbing : Globbing} {fields : List Field}
    (nothing : ∀ pattern, globber.expand pattern = []) (failglob : globbing.failglob = true)
    {field : Field} (mem : field ∈ fields)
    (active : Pattern.isActive globbing.extglob field.pattern = true) (args : List Text) :
    expandFieldList globber globbing fields ≠ .ok args := by
  induction fields generalizing args with
  | nil => cases mem
  | cons first fields ih =>
      rw [expandFieldList]
      rcases List.mem_cons.1 mem with rfl | mem
      · rw [expandField_eq_error active (nothing _) failglob]
        rintro ⟨⟩
      · cases expandField globber globbing first with
        | error e => rintro ⟨⟩
        | ok texts =>
            have fails := ih mem
            cases rest : expandFieldList globber globbing fields with
            | error e => rintro ⟨⟩
            | ok more => exact absurd rest (fails more)

section

variable {World : Type}

/-- The session with other pattern options. -/
def Session.withGlobbing (globbing : Globbing) (s : Session World) : Session World :=
  s.onShell ({ · with globbing := globbing })

/-- Commands give the same output, whatever `nullglob`, `failglob` and `dotglob` are. -/
def Host.IgnoresGlobbing (host : Host World) : Prop :=
  ∀ (shell : Shell) (globbing : Globbing) (command : Text) (world : World),
    globbing.extglob = shell.globbing.extglob →
      host.run { shell with globbing := globbing } command world = host.run shell command world

/-- A command does the same under other files and other pattern options. -/
theorem exec_runCommand_withGlobbing {host : Host World} (ignores : host.IgnoresGlobbing)
    (files : World → FileSystem) (command : Text) (s : Session World) {globbing : Globbing}
    (same : globbing.extglob = s.shell.globbing.extglob) :
    (runCommand { host with files := files } command).exec (s.withGlobbing globbing) =
      (((runCommand host command).exec s).1,
        ((runCommand host command).exec s).2.withGlobbing globbing) := by
  change runCommand { host with files := files } command (s.withGlobbing globbing) =
    ((runCommand host command s).1, (runCommand host command s).2.withGlobbing globbing)
  have output := ignores s.shell globbing command s.world same
  unfold runCommand
  rcases ran : host.run s.shell command s.world with ⟨error | written, world⟩
  all_goals
    rw [ran] at output
    simp only [Session.withGlobbing, Session.onShell, output]

/-- Running a command leaves the pattern options alone. -/
theorem globbing_exec_runCommand (host : Host World) (command : Text) (s : Session World) :
    ((runCommand host command).exec s).2.shell.globbing = s.shell.globbing := by
  change (runCommand host command s).2.shell.globbing = s.shell.globbing
  unfold runCommand
  rcases host.run s.shell command s.world with ⟨error | written, world⟩ <;> rfl

/-- Before pathname expansion neither other files nor other pattern options are noticed. -/
theorem Host.simulates_globbing {host : Host World} (ignores : host.IgnoresGlobbing)
    (files : World → FileSystem) {globbing globbing' : Globbing}
    (same : globbing'.extglob = globbing.extglob) :
    host.Simulates { host with files := files } (fun _ => True)
      (fun s t => s.shell.globbing = globbing ∧ t = s.withGlobbing globbing') where
  agrees := by
    rintro s t ⟨before, rfl⟩
    refine ⟨rfl, rfl, rfl, rfl, ?_, rfl, rfl, rfl⟩
    rw [before]
    exact same.symm
  home := by
    rintro s t ⟨-, rfl⟩
    rfl
  engine := rfl
  dynamic := by
    rintro s t ⟨-, rfl⟩
    rfl
  advance := by
    rintro s t which ⟨before, rfl⟩
    exact ⟨before, rfl⟩
  withVars := by
    rintro s t vars ⟨before, rfl⟩
    exact ⟨before, rfl⟩
  command := by
    rintro command - s t ⟨before, rfl⟩
    have other := exec_runCommand_withGlobbing ignores files command s (before ▸ same)
    rw [other]
    exact ⟨rfl, (globbing_exec_runCommand host command s).trans before, rfl⟩

/-- The separators at which the fields of a word are cut. -/
def Word.separators (word : Word) (s : Session World) : Option Ifs :=
  if word.isAssignment then none else some s.shell.ifs

/-- The arguments of a composite word, from its segments.  Pathname expansion leaves the session alone. -/
theorem exec_expandComposite_of_ok {host : Host World} {word : Word} {s s' : Session World}
    {segments : List Segment} (ran : (wordSegments host word).exec s = (.ok segments, s')) :
    (expandComposite host word).exec s =
      (if s'.shell.options.noglob then
          .ok ((splitSegments (word.separators s') segments).map Literal.text)
        else
          expandFieldList (s'.globber host) s'.shell.globbing
            (splitSegments (word.separators s') segments),
        s') := by
  unfold expandComposite
  rw [Run.exec_bind, ran]
  dsimp only
  rw [Run.exec_bind, Run.exec_get]
  dsimp only
  rw [exec_expandFields]
  rfl

theorem exec_expandWord_of_ok {host : Host World} {word : Word} (composite : word.quote = none)
    {s s' : Session World} {segments : List Segment}
    (ran : (wordSegments host word).exec s = (.ok segments, s')) :
    ((expandWord host word).exec s).1 =
      if s'.shell.options.noglob then
        .ok ((splitSegments (word.separators s') segments).map Literal.text)
      else
        expandFieldList (s'.globber host) s'.shell.globbing
          (splitSegments (word.separators s') segments) := by
  unfold expandWord
  rw [composite]
  exact congrArg Prod.fst (exec_expandComposite_of_ok ran)

theorem exec_expandWord_of_error {host : Host World} {word : Word} (composite : word.quote = none)
    {s s' : Session World} {error : ExpandError}
    (ran : (wordSegments host word).exec s = (.error error, s')) :
    ((expandWord host word).exec s).1 = .error error := by
  unfold expandWord
  rw [composite]
  change ((expandComposite host word).exec s).1 = _
  unfold expandComposite
  rw [Run.exec_bind, ran]

/-- The segments of a word under other files and other pattern options. -/
theorem exec_wordSegments_withGlobbing {host : Host World} (ignores : host.IgnoresGlobbing)
    (files : World → FileSystem) (word : Word) (s : Session World) {globbing : Globbing}
    (same : globbing.extglob = s.shell.globbing.extglob) :
    (wordSegments { host with files := files } word).exec (s.withGlobbing globbing) =
        (((wordSegments host word).exec s).1,
          ((wordSegments host word).exec s).2.withGlobbing globbing) ∧
      ((wordSegments host word).exec s).2.shell.globbing = s.shell.globbing := by
  have related := wordSegments_related (Host.simulates_globbing ignores files same) word
    (fun _ _ _ _ => trivial)
  obtain ⟨outcome, kept, state⟩ := related (s := s) ⟨rfl, rfl⟩
  exact ⟨Prod.ext outcome.symm state, kept⟩

/-- The outcome under other files and other pattern options, from the segments under the present ones. -/
theorem exec_expandWord_withGlobbing {host : Host World} (ignores : host.IgnoresGlobbing)
    (files : World → FileSystem) {word : Word} (composite : word.quote = none)
    {s s' : Session World} {segments : List Segment}
    (ran : (wordSegments host word).exec s = (.ok segments, s')) (globbing : Globbing)
    (same : globbing.extglob = s.shell.globbing.extglob) :
    ((expandWord { host with files := files } word).exec (s.withGlobbing globbing)).1 =
      if s'.shell.options.noglob then
        .ok ((splitSegments (word.separators s') segments).map Literal.text)
      else
        expandFieldList ((s'.withGlobbing globbing).globber { host with files := files }) globbing
          (splitSegments (word.separators s') segments) := by
  have there := (exec_wordSegments_withGlobbing ignores files word s same).1
  rw [ran] at there
  exact exec_expandWord_of_ok composite there

/-- The fields of a harmless word in which nothing slips are taken as they are. -/
theorem expandFieldList_of_not_slips {host : Host World} {word : Word} {s s' : Session World}
    {segments : List Segment} {ifs : Option Ifs} {globbing : Globbing}
    (harmless : Harmless globbing.extglob word segments) (composite : word.quote = none)
    (ran : (wordSegments host word).exec s = (.ok segments, s'))
    (holds : ∀ pieces ∈ fieldPieces ifs segments, ¬ Slips (pieces.flatMap FieldPiece.marks))
    (globber : Globber) :
    expandFieldList globber globbing (splitSegments ifs segments) =
      .ok ((splitSegments ifs segments).map Literal.text) := by
  refine expandFieldList_eq_texts fun field mem => expandField_of_not_active ?_
  rw [← map_joinPieces_fieldPieces] at mem
  obtain ⟨pieces, inside, rfl⟩ := List.mem_map.1 mem
  rw [← Bool.not_eq_true, harmless.isActive_joinPieces_iff composite ran inside]
  exact holds pieces inside

/-- If no outcome depends on files and pattern options, nothing slips. -/
theorem not_slips_of_insensitive {host : Host World} (ignores : host.IgnoresGlobbing) {word : Word}
    (composite : word.quote = none) {s s' : Session World} {segments : List Segment}
    (ran : (wordSegments host word).exec s = (.ok segments, s'))
    (harmless : Harmless s.shell.globbing.extglob word segments)
    (insensitive : ∀ (files : World → FileSystem) (globbing : Globbing),
      globbing.extglob = s.shell.globbing.extglob →
        ((expandWord { host with files := files } word).exec (s.withGlobbing globbing)).1 =
          ((expandWord host word).exec s).1)
    (glob : s'.shell.options.noglob = false) :
    ∀ pieces ∈ fieldPieces (word.separators s') segments,
      ¬ Slips (pieces.flatMap FieldPiece.marks) := by
  intro pieces mem slips
  have isField : joinPieces pieces ∈ splitSegments (word.separators s') segments := by
    rw [← map_joinPieces_fieldPieces]
    exact List.mem_map_of_mem mem
  -- without files the two sets of options differ in what they make of a field that matches nothing
  let lenient : Globbing := { extglob := s.shell.globbing.extglob }
  let strict : Globbing := { extglob := s.shell.globbing.extglob, failglob := true }
  have active : Pattern.isActive strict.extglob (joinPieces pieces).pattern = true :=
    (harmless.isActive_joinPieces_iff composite ran mem).2 slips
  have kept := insensitive (fun _ => .none) lenient rfl
  have fails := insensitive (fun _ => .none) strict rfl
  rw [exec_expandWord_withGlobbing ignores _ composite ran lenient rfl, glob, if_neg (by decide),
    expandFieldList_eq_texts fun field _ =>
      expandField_of_expand_nil (Globber.expand_none rfl _) rfl rfl] at kept
  rw [exec_expandWord_withGlobbing ignores _ composite ran strict rfl, glob,
    if_neg (by decide)] at fails
  refine absurd (fails.trans kept.symm) ?_
  exact expandFieldList_ne_ok (fun pattern => Globber.expand_none rfl pattern) rfl isField active _

/-- If nothing slips, the outcome is the same under other files and other pattern options. -/
theorem exec_expandWord_eq_of_not_slips {host : Host World} (ignores : host.IgnoresGlobbing)
    {word : Word} (composite : word.quote = none) {s : Session World}
    (harmless : ∀ segments s', (wordSegments host word).exec s = (.ok segments, s') →
      Harmless s.shell.globbing.extglob word segments)
    (holds : ∀ segments s', (wordSegments host word).exec s = (.ok segments, s') →
      s'.shell.options.noglob = true ∨
        ∀ pieces ∈ fieldPieces (word.separators s') segments,
          ¬ Slips (pieces.flatMap FieldPiece.marks))
    (files : World → FileSystem) {globbing : Globbing}
    (same : globbing.extglob = s.shell.globbing.extglob) :
    ((expandWord { host with files := files } word).exec (s.withGlobbing globbing)).1 =
      ((expandWord host word).exec s).1 := by
  obtain ⟨there, unchanged⟩ := exec_wordSegments_withGlobbing ignores files word s same
  rcases ran : (wordSegments host word).exec s with ⟨error | segments, s'⟩
  · rw [ran] at there
    rw [exec_expandWord_of_error composite ran, exec_expandWord_of_error composite there]
  · rw [ran] at unchanged
    rw [exec_expandWord_withGlobbing ignores files composite ran globbing same,
      exec_expandWord_of_ok composite ran]
    rcases holds segments s' ran with noglob | holds
    · rw [noglob, if_pos rfl, if_pos rfl]
    · -- the two sides have different globbers, and neither is asked
      have here := harmless segments s' ran
      have before : Harmless s'.shell.globbing.extglob word segments := by
        rw [unchanged]
        exact here
      rw [expandFieldList_of_not_slips (same ▸ here) composite ran holds,
        expandFieldList_of_not_slips before composite ran holds]

/-! ### A backslash before a quoted star

The word is `$x"*"`, and the value of `x` is a backslash. -/

theorem Host.ignoresGlobbing_idle : Host.idle.IgnoresGlobbing :=
  fun _ _ _ _ _ => rfl

/-- A session in which `x` is a backslash and all options are off. -/
def Session.backslash : Session Unit where
  shell :=
    { vars := ⟨[(['x'], ['\\'])]⟩, positional := [], name := [], options := {}, globbing := {}
      cwd := ['/'], lastStatus := 0, lastBackground := none, pid := 0, children := [], pipes := [] }
  world := ()

/-- The word `$x"*"`. -/
def Word.thenStar : Word :=
  ⟨[.expansion (.variable ['x']) none, .literal ['*'] (some .double)], none⟩

theorem exec_wordSegments_thenStar :
    (wordSegments Host.idle Word.thenStar).exec Session.backslash =
      (.ok [.splittable ['\\'], .quoted ['*']], Session.backslash) :=
  rfl

theorem harmless_thenStar (segments : List Segment) (s' : Session Unit)
    (ran : (wordSegments Host.idle Word.thenStar).exec Session.backslash = (.ok segments, s')) :
    Harmless false Word.thenStar segments := by
  obtain rfl := Except.ok.inj (Prod.mk.inj (exec_wordSegments_thenStar.symm.trans ran)).1
  refine ⟨fun text mem => ?_, fun text mem c inside => ?_⟩
  · simp [Word.thenStar, Word.parts] at mem
  · have : text = ['\\'] := by simpa [Segment.quoted] using mem
    rw [this, List.mem_singleton] at inside
    rw [inside]
    rfl

theorem fieldPieces_thenStar :
    fieldPieces (Word.thenStar.separators Session.backslash) [.splittable ['\\'], .quoted ['*']] =
      [[.word ['\\'], .fixed (.quoted ['*'])]] := by
  have fields : Ifs.standard.fields ['\\'] = ([['\\']], false) := by
    rw [Ifs.fields_eq]
    rfl
  have split : Ifs.standard.split ['\\'] = ⟨[['\\']], false, false⟩ := by
    change Ifs.Split.mk (Ifs.standard.fields ['\\']).1 false (Ifs.standard.fields ['\\']).2 = _
    rw [fields]
  change fieldPieces (some .standard) _ = _
  simp only [fieldPieces, Builder.build, List.foldl_cons, List.foldl_nil, Builder.add, split]
  rfl

theorem splitSegments_thenStar :
    splitSegments (Word.thenStar.separators Session.backslash) [.splittable ['\\'], .quoted ['*']] =
      [⟨['\\', '*'], ['\\', '\\', '*']⟩] := by
  rw [← map_joinPieces_fieldPieces, fieldPieces_thenStar]
  rfl

/-! ### When files are noticed -/

/-- **Quoting holds unless a backslash of a result cancels it.**  Let nothing unquoted in a composite word
be active by itself.  Then a field is active exactly if a wildcard slips in it, and unless pathname
expansion is off altogether, the outcome is the same for all files and all settings of `nullglob`,
`failglob` and `dotglob` exactly if no field has a wildcard that slips.  In particular it is the same if no
unquoted result has a backslash. -/
theorem expandWord_insensitive_iff_not_slips (host : Host World) (ignores : host.IgnoresGlobbing)
    (word : Word) (composite : word.quote = none) (s : Session World)
    (harmless : ∀ segments s', (wordSegments host word).exec s = (.ok segments, s') →
      Harmless s.shell.globbing.extglob word segments) :
    (∀ segments s', (wordSegments host word).exec s = (.ok segments, s') →
      ∀ ifs, ∀ pieces ∈ fieldPieces ifs segments,
        (Pattern.isActive s.shell.globbing.extglob (joinPieces pieces).pattern = true ↔
          Slips (pieces.flatMap FieldPiece.marks))) ∧
    ((∀ (files : World → FileSystem) (globbing : Globbing),
        globbing.extglob = s.shell.globbing.extglob →
          ((expandWord { host with files := files } word).exec (s.withGlobbing globbing)).1 =
            ((expandWord host word).exec s).1) ↔
      ∀ segments s', (wordSegments host word).exec s = (.ok segments, s') →
        s'.shell.options.noglob = true ∨
          ∀ pieces ∈ fieldPieces (word.separators s') segments,
            ¬ Slips (pieces.flatMap FieldPiece.marks)) ∧
    ((∀ segments s', (wordSegments host word).exec s = (.ok segments, s') →
        ∀ text, .splittable text ∈ segments → '\\' ∉ text) →
      ∀ (files : World → FileSystem) (globbing : Globbing),
        globbing.extglob = s.shell.globbing.extglob →
          ((expandWord { host with files := files } word).exec (s.withGlobbing globbing)).1 =
            ((expandWord host word).exec s).1) := by
  have sufficient (holds : ∀ segments s', (wordSegments host word).exec s = (.ok segments, s') →
      s'.shell.options.noglob = true ∨
        ∀ pieces ∈ fieldPieces (word.separators s') segments,
          ¬ Slips (pieces.flatMap FieldPiece.marks))
      (files : World → FileSystem) (globbing : Globbing)
      (same : globbing.extglob = s.shell.globbing.extglob) :
      ((expandWord { host with files := files } word).exec (s.withGlobbing globbing)).1 =
        ((expandWord host word).exec s).1 :=
    exec_expandWord_eq_of_not_slips ignores composite harmless holds files same
  refine ⟨fun segments s' ran ifs pieces mem => ?_, ⟨fun insensitive segments s' ran => ?_, sufficient⟩,
    fun plain => sufficient fun segments s' ran => .inr fun pieces mem => ?_⟩
  · exact (harmless segments s' ran).isActive_joinPieces_iff composite ran mem
  · cases glob : s'.shell.options.noglob with
    | true => exact .inl rfl
    | false =>
        exact .inr (not_slips_of_insensitive ignores composite ran (harmless segments s' ran)
          insensitive glob)
  · exact (harmless segments s' ran).not_slips composite ran (plain segments s' ran) mem

/-- At this word the theorem applies, and its files and options are noticed. -/
theorem expandWord_thenStar_sensitive :
    Host.idle.IgnoresGlobbing ∧ Word.thenStar.quote = none ∧
    ¬ ∀ (files : Unit → FileSystem) (globbing : Globbing), globbing.extglob = false →
      ((expandWord { Host.idle with files := files } Word.thenStar).exec
          (Session.backslash.withGlobbing globbing)).1 =
        ((expandWord Host.idle Word.thenStar).exec Session.backslash).1 := by
  refine ⟨Host.ignoresGlobbing_idle, rfl, fun insensitive => ?_⟩
  have holds := (expandWord_insensitive_iff_not_slips Host.idle Host.ignoresGlobbing_idle
    Word.thenStar rfl Session.backslash harmless_thenStar).2.1.1 insensitive
  rcases holds _ _ exec_wordSegments_thenStar with noglob | holds
  · cases noglob
  · rw [fieldPieces_thenStar] at holds
    refine holds _ List.mem_cons_self ⟨[.bare '\\'], '*', [], rfl, rfl, by decide⟩

/-- Nothing unquoted in the word is active by itself, and still the star is: with `failglob` the word is an
error, and without it the word is its own text. -/
theorem quoted_star_active_behind_backslash :
    (∀ segments s', (wordSegments Host.idle Word.thenStar).exec Session.backslash =
      (.ok segments, s') → Harmless false Word.thenStar segments) ∧
    ((expandWord Host.idle Word.thenStar).exec
        (Session.backslash.withGlobbing { failglob := true })).1 = .error (.noMatch ['\\', '*']) ∧
    ((expandWord Host.idle Word.thenStar).exec Session.backslash).1 = .ok [['\\', '*']] := by
  refine ⟨harmless_thenStar, ?_, ?_⟩
  · have outcome := exec_expandWord_withGlobbing Host.ignoresGlobbing_idle Host.idle.files rfl
      exec_wordSegments_thenStar { failglob := true } rfl
    rw [splitSegments_thenStar] at outcome
    refine outcome.trans ?_
    change expandFieldList _ _ _ = _
    rw [expandFieldList, expandField_eq_error rfl (Globber.expand_none rfl _) rfl]
    rfl
  · rw [exec_expandWord_of_ok rfl exec_wordSegments_thenStar, splitSegments_thenStar]
    change expandFieldList _ _ _ = _
    exact expandFieldList_eq_texts fun field _ =>
      expandField_of_expand_nil (Globber.expand_none rfl _) rfl rfl

end

end ShellWord
