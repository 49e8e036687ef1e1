import ShellWord.Proofs.Pattern.Shape

/-!
# Negated groups

The group `!(a|b)` has no expression of its own.  A pattern with such a group is rewritten twice, once with any
text in the place of the group and once with one of its alternatives, and a text is matched if the first expression
matches it and the second does not.

For the group alone this is the complement.  With a pattern in front of it and another one behind, it is not:
`*!(a)` does not match `a`, though the star could take the whole text and leave nothing to the group, and nothing
is not `a`.  The second expression finds *some* way to cut the text so that the middle is one of the alternatives,
and that is enough.  `accepts_negated_iff` says what is matched: the text can be cut, and however it is cut, the
middle is none of the alternatives.  Where there is only one way to cut it, that is the complement again.

### What is load-bearing

The patterns around the group and its alternatives are texts, and putting texts side by side may change what they
are rewritten into.  `Whole` says that a text leaves no group open, and no backslash without a character behind it,
so that what follows does not change its expression; `Closed` says that parentheses come in pairs, so that the group
around the text ends where it was meant to.  A text without brackets and negated groups (`isPlain`) becomes the same
in both ways, and what it becomes is always a well-formed expression.  All of this holds for every pattern that is
written from a `Shape`.
-/

namespace ShellWord

/-! ### The end of a group -/

namespace Group

/-- A group is its body, its parenthesis and what follows; and what follows does not matter to where it
ends. -/
theorem close?_eq_some {depth : Nat} {t body rest : Text} (h : close? depth t = some (body, rest)) :
    t = body ++ ')' :: rest ∧ ∀ u, close? depth (body ++ ')' :: u) = some (body, u) := by
  fun_induction close? depth t generalizing body with
  | case1 => cases h
  | case2 => cases h
  | case3 depth c t ih =>
      obtain ⟨outer, escaped, rfl⟩ := Text.extend_eq_some_iff.1 h
      obtain ⟨inner, found, rfl⟩ := Text.extend_eq_some_iff.1 escaped
      obtain ⟨rfl, same⟩ := ih found
      refine ⟨rfl, fun u => ?_⟩
      show Text.extend '\\' (Text.extend c (close? depth (inner ++ ')' :: u))) = _
      rw [same]
      rfl
  | case4 depth t ih =>
      obtain ⟨inner, found, rfl⟩ := Text.extend_eq_some_iff.1 h
      obtain ⟨rfl, same⟩ := ih found
      refine ⟨rfl, fun u => ?_⟩
      rw [List.cons_append, close?, same]
      rfl
  | case5 t =>
      obtain ⟨rfl, rfl⟩ := Prod.mk.inj (Option.some.inj h)
      exact ⟨rfl, fun u => by rw [List.nil_append, close?]⟩
  | case6 depth t ih =>
      obtain ⟨inner, found, rfl⟩ := Text.extend_eq_some_iff.1 h
      obtain ⟨rfl, same⟩ := ih found
      refine ⟨rfl, fun u => ?_⟩
      rw [List.cons_append, close?, same]
      rfl
  | case7 depth c t notLast notEscape notOpening notClosing notInner ih =>
      obtain ⟨inner, found, rfl⟩ := Text.extend_eq_some_iff.1 h
      obtain ⟨rfl, same⟩ := ih found
      refine ⟨rfl, fun u => ?_⟩
      have backslash : c ≠ '\\' := by
        rintro rfl
        cases inner with
        | nil => exact notEscape _ _ rfl rfl
        | cons d inner => exact notEscape _ _ rfl rfl
      have closing : c ≠ ')' := by
        rintro rfl
        cases depth with
        | zero => exact notClosing rfl rfl
        | succ depth => exact notInner depth rfl rfl
      rw [List.cons_append, Pattern.close?_cons backslash notOpening closing, same]
      rfl

end Group

namespace Pattern

open Regex (Reads Factors)

/-- A group is a mark, a parenthesis and what that one encloses. -/
theorem group?_eq_some_iff {c : Char} {t body rest : Text} {mark : Group.Mark} :
    group? true c t = some (mark, body, rest) ↔
      Group.Mark.ofChar? c = some mark ∧
        ∃ inner, t = '(' :: inner ∧ Group.close? 0 inner = some (body, rest) := by
  unfold group?
  rw [if_pos rfl]
  split
  · next found =>
    rw [found]
    simp [eq_comm, and_left_comm]
  · next h =>
    constructor
    · intro h
      cases h
    · rintro ⟨marked, inner, rfl, -⟩
      exact absurd rfl (h mark inner marked)

/-- What follows a group does not matter to it. -/
theorem group?_append {c : Char} {t body rest : Text} {mark : Group.Mark}
    (h : group? true c t = some (mark, body, rest)) (u : Text) :
    group? true c (t ++ u) = some (mark, body, rest ++ u) := by
  obtain ⟨marked, inner, rfl, found⟩ := group?_eq_some_iff.1 h
  obtain ⟨rfl, same⟩ := Group.close?_eq_some found
  refine group?_eq_some_iff.2 ⟨marked, body ++ ')' :: (rest ++ u), ?_, same _⟩
  simp

/-! ### Going over a text -/

/-- What can be found in a text by going over it, a character or an escape at a time. -/
structure Scanned (f : Text → Prop) : Prop where
  escaped : ∀ c t, f t → f ('\\' :: c :: t)
  cons : ∀ {c}, c ≠ '\\' → ∀ t, f t → f (c :: t)

/-- What is found behind a group is found from inside of it. -/
theorem Scanned.of_close? {f : Text → Prop} (scanned : Scanned f) {depth : Nat} {t body rest : Text}
    (h : Group.close? depth t = some (body, rest)) (found : f rest) : f t := by
  fun_induction Group.close? depth t generalizing body with
  | case1 => cases h
  | case2 => cases h
  | case3 depth c t ih =>
      obtain ⟨_, h⟩ := Text.exists_of_extend h
      obtain ⟨_, h⟩ := Text.exists_of_extend h
      exact scanned.escaped c t (ih h)
  | case4 depth t ih =>
      obtain ⟨_, h⟩ := Text.exists_of_extend h
      exact scanned.cons (by decide) t (ih h)
  | case5 t =>
      obtain ⟨-, rfl⟩ := Prod.mk.inj (Option.some.inj h)
      exact scanned.cons (by decide) t found
  | case6 depth t ih =>
      obtain ⟨_, h⟩ := Text.exists_of_extend h
      exact scanned.cons (by decide) t (ih h)
  | case7 depth c t notLast notEscape _ _ _ ih =>
      obtain ⟨_, h⟩ := Text.exists_of_extend h
      have backslash : c ≠ '\\' := Text.ne_of_single_of_pair notLast notEscape
      exact scanned.cons backslash t (ih h)

/-- A text that leaves nothing open: every group that is opened in it is closed in it, there is a character
behind every backslash, and no bracket. -/
inductive Whole : Text → Prop where
  | nil : Whole []
  | escaped (c : Char) {t : Text} : Whole t → Whole ('\\' :: c :: t)
  | group {c : Char} {t body rest : Text} {mark : Group.Mark} :
      group? true c t = some (mark, body, rest) → Whole rest → Whole (c :: t)
  | char {c : Char} {t : Text} : c ≠ '\\' → c ≠ '[' →
      Group.Mark.ofChar? c = none ∨ t.head? ≠ some '(' → Whole t → Whole (c :: t)

/-- A text in which parentheses come in pairs, and there is a character behind every backslash. -/
inductive Closed : Text → Prop where
  | nil : Closed []
  | escaped (c : Char) {t : Text} : Closed t → Closed ('\\' :: c :: t)
  | parens {inner t : Text} : Closed inner → Closed t → Closed ('(' :: (inner ++ ')' :: t))
  | char {c : Char} {t : Text} : c ≠ '\\' → c ≠ '(' → c ≠ ')' → Closed t → Closed (c :: t)

theorem ne_backslash_of_ofChar? {c : Char} {mark : Group.Mark} (h : Group.Mark.ofChar? c = some mark) :
    c ≠ '\\' := by
  rintro rfl
  cases h

/-- What is found behind a text that leaves nothing open is found from its beginning. -/
theorem Scanned.of_whole {f : Text → Prop} (scanned : Scanned f) {t u : Text} (whole : Whole t)
    (found : f u) : f (t ++ u) := by
  induction whole with
  | nil => exact found
  | escaped c _ ih => exact scanned.escaped c _ ih
  | group opened _ ih =>
      obtain ⟨marked, inner, same, closed⟩ := group?_eq_some_iff.1 (group?_append opened u)
      rw [List.cons_append, same]
      have inside := scanned.of_close? closed ih
      exact scanned.cons (ne_backslash_of_ofChar? marked) _ (scanned.cons (by decide) _ inside)
  | char backslash _ _ _ ih => exact scanned.cons backslash _ ih

theorem Scanned.of_closed {f : Text → Prop} (scanned : Scanned f) {t u : Text} (closed : Closed t)
    (found : f u) : f (t ++ u) := by
  induction closed generalizing u with
  | nil => exact found
  | escaped c _ ih => exact scanned.escaped c _ (ih found)
  | parens _ _ ihInner ih =>
      have behind := ihInner (scanned.cons (c := ')') (by decide) _ (ih found))
      simpa using scanned.cons (c := '(') (by decide) _ behind
  | char backslash _ _ _ ih => exact scanned.cons backslash _ (ih found)

/-- Going on behind it, the search for the end of a group passes over a text whose parentheses come in pairs. -/
theorem Closed.close?_append {t : Text} (closed : Closed t) (depth : Nat) (u : Text) :
    Group.close? depth (t ++ u) = bodyAfter t (Group.close? depth u) := by
  induction closed generalizing depth u with
  | nil => exact (passesOver_close?.nil depth u).symm
  | escaped c _ ih =>
      show Group.close? depth ('\\' :: c :: (_ ++ u)) = _
      rw [passesOver_close?.escaped, ih, ← passesOver_close?.append]
      rfl
  | @parens inner t _ _ ihInner ih =>
      calc Group.close? depth ('(' :: (inner ++ ')' :: t) ++ u)
        _ = Group.close? depth ('(' :: (inner ++ ')' :: (t ++ u))) := by simp
        _ = bodyAfter ['('] (bodyAfter inner (bodyAfter [')'] (bodyAfter t (Group.close? depth u)))) := by
          rw [passesOver_close?.opening, ihInner, passesOver_close?.closing, ih]
        _ = bodyAfter ('(' :: (inner ++ ')' :: t)) (Group.close? depth u) := by
          rw [← passesOver_close?.append, ← passesOver_close?.append, ← passesOver_close?.append]
          simp
  | char backslash opening closing _ ih =>
      rw [List.cons_append, close?_cons backslash opening closing, ih, ← passesOver_close?.append]
      rfl

/-! ### Texts without brackets and negated groups -/

/-- No unescaped `[` and no unescaped `!(` occurs in the text. -/
def isPlain : Text → Bool
  | [] => true
  | ['\\'] => true
  | '\\' :: _ :: t => isPlain t
  | c :: t => c != '[' && !(c == '!' && t.head? == some '(') && isPlain t

theorem isPlain_cons {c : Char} (h : c ≠ '\\') (t : Text) :
    isPlain (c :: t) = (c != '[' && !(c == '!' && t.head? == some '(') && isPlain t) := by
  rw [isPlain.eq_def]
  split <;> simp_all

theorem isPlain_of_cons {c : Char} (h : c ≠ '\\') {t : Text} (plain : isPlain (c :: t) = true) :
    isPlain t = true := by
  rw [isPlain_cons h, Bool.and_eq_true] at plain
  exact plain.2

theorem scanned_not_isPlain : Scanned (isPlain · = false) where
  escaped c t h := by rwa [isPlain]
  cons backslash t h := by rw [isPlain_cons backslash, h, Bool.and_false]

theorem scanned_excludes : Scanned (excludes · = true) where
  escaped c t h := by rwa [excludes]
  cons backslash t h := by
    cases t with
    | nil => cases h
    | cons d t => rw [excludes, h, Bool.or_true]; exact backslash

theorem excludes_of_isPlain {t : Text} (h : isPlain t = true) : excludes t = false := by
  fun_induction excludes t with
  | case1 => rfl
  | case2 => rfl
  | case3 c t ih => exact ih h
  | case4 c d t backslash ih =>
      rw [isPlain_cons backslash] at h
      simp only [List.head?_cons, Bool.and_eq_true, Bool.not_eq_true'] at h
      rw [ih h.2, Bool.or_false]
      exact h.1.2

theorem isPlain_of_append {t u : Text} (h : isPlain (t ++ u) = true) : isPlain t = true := by
  fun_induction isPlain t with
  | case1 => rfl
  | case2 => rfl
  | case3 c t ih => exact ih h
  | case4 c t notLast notEscape ih =>
      have backslash : c ≠ '\\' := Text.ne_of_single_of_pair notLast notEscape
      rw [List.cons_append, isPlain_cons backslash] at h
      cases t <;> simp_all

/-- The body of a group in a plain text is plain, and so is what follows the group. -/
theorem isPlain_of_close? {depth : Nat} {t body rest : Text}
    (h : Group.close? depth t = some (body, rest)) (plain : isPlain t = true) :
    isPlain body = true ∧ isPlain rest = true := by
  constructor
  · rw [(Group.close?_eq_some h).1] at plain
    exact isPlain_of_append plain
  · by_contra other
    rw [Bool.not_eq_true] at other
    have := scanned_not_isPlain.of_close? h other
    rw [plain] at this
    cases this

/-- The alternatives of a plain body are plain.  The first of them is the beginning of the body, and the others
are found behind it. -/
theorem isPlain_of_mem_alternativesAt (depth : Nat) {t : Text} (plain : isPlain t = true) :
    ∃ first others, Group.alternativesAt depth t = first :: others ∧ first <+: t ∧
      ∀ other ∈ others, isPlain other = true := by
  have prepended (front : Text) {t : Text} {depth : Nat}
      (h : ∃ first others, Group.alternativesAt depth t = first :: others ∧ first <+: t ∧
        ∀ other ∈ others, isPlain other = true) :
      ∃ first others, Group.prepend front (Group.alternativesAt depth t) = first :: others ∧
        first <+: front ++ t ∧ ∀ other ∈ others, isPlain other = true := by
    obtain ⟨first, others, cut, begins, rest⟩ := h
    rw [cut]
    exact ⟨front ++ first, others, rfl, List.prefix_append_right_inj front |>.2 begins, rest⟩
  fun_induction Group.alternativesAt depth t with
  | case1 depth => exact ⟨[], [], rfl, List.prefix_rfl, List.forall_mem_nil _⟩
  | case2 depth c t ih => exact prepended ['\\', c] (ih plain)
  | case3 depth t ih => exact prepended ['('] (ih (isPlain_of_cons (by decide) plain))
  | case4 depth t ih => exact prepended [')'] (ih (isPlain_of_cons (by decide) plain))
  | case5 t ih =>
      have plain := isPlain_of_cons (by decide) plain
      obtain ⟨first, others, cut, ⟨rest, begins⟩, behind⟩ := ih plain
      refine ⟨[], _, rfl, List.nil_prefix, ?_⟩
      rw [cut]
      intro other mem
      rcases List.mem_cons.1 mem with rfl | mem
      · rw [← begins] at plain
        exact isPlain_of_append plain
      · exact behind other mem
  | case6 depth c t notEscape _ _ _ ih =>
      refine prepended [c] (ih ?_)
      by_cases backslash : c = '\\'
      · cases t with
        | nil => rfl
        | cons d t => exact (notEscape d t backslash rfl).elim
      · exact isPlain_of_cons backslash plain

theorem isPlain_of_mem_alternatives {body alternative : Text} (plain : isPlain body = true)
    (mem : alternative ∈ Group.alternatives body) : isPlain alternative = true := by
  obtain ⟨first, others, cut, ⟨rest, begins⟩, behind⟩ := isPlain_of_mem_alternativesAt 0 plain
  rw [Group.alternatives, cut] at mem
  rcases List.mem_cons.1 mem with rfl | mem
  · rw [← begins] at plain
    exact isPlain_of_append plain
  · exact behind alternative mem

/-! ### The expression of a plain text -/

theorem isPlain_following {c : Char} {t : Text} (plain : isPlain (c :: t) = true) :
    c ≠ '[' ∧ isPlain (following c t) = true := by
  by_cases backslash : c = '\\'
  · subst backslash
    cases t with
    | nil => exact ⟨by decide, rfl⟩
    | cons d t => exact ⟨by decide, plain⟩
  · have bracket : c ≠ '[' := by
      rintro rfl
      rw [isPlain_cons backslash] at plain
      cases plain
    have same : following c t = t := by simp [following, bracket, backslash]
    rw [same]
    exact ⟨bracket, isPlain_of_cons backslash plain⟩

/-- A group in a plain text is not negated, its alternatives are plain, and so is what follows it. -/
theorem isPlain_of_group? {c : Char} {t body rest : Text} {mark : Group.Mark}
    (grouped : group? true c t = some (mark, body, rest)) (plain : isPlain (c :: t) = true) :
    mark ≠ .excluded ∧ (∀ alternative ∈ Group.alternatives body, isPlain alternative = true) ∧
      isPlain rest = true := by
  obtain ⟨marked, inner, rfl, closed⟩ := group?_eq_some_iff.1 grouped
  have opened := isPlain_of_cons (ne_backslash_of_ofChar? marked) plain
  obtain ⟨inside, behind⟩ := isPlain_of_close? closed (isPlain_of_cons (by decide) opened)
  refine ⟨?_, fun _ => isPlain_of_mem_alternatives inside, behind⟩
  rintro rfl
  have negation : c = '!' := by grind [Group.Mark.ofChar?]
  subst negation
  rw [isPlain_cons (by decide)] at plain
  cases plain

/-- The pieces of a plain text: none is a bracket expression, no group is negated, and the alternatives are plain
again. -/
inductive PlainPieces : Text → Prop where
  | nil : PlainPieces []
  | single {c : Char} {t : Text} : group? true c t = none → c ≠ '[' → PlainPieces (following c t) →
      PlainPieces (c :: t)
  | group {c : Char} {t body rest : Text} {mark : Group.Mark} :
      group? true c t = some (mark, body, rest) → mark ≠ .excluded →
      (∀ alternative ∈ Group.alternatives body, PlainPieces alternative) → PlainPieces rest →
      PlainPieces (c :: t)

theorem plainPieces_of_isPlain {t : Text} (plain : isPlain t = true) : PlainPieces t := by
  -- alternatives, and what follows a piece, are shorter texts
  induction len : t.length using Nat.strongRecOn generalizing t with
  | ind n ih =>
    subst len
    cases t with
    | nil => exact .nil
    | cons c t =>
      cases grouped : group? true c t with
      | none =>
        obtain ⟨bracket, behind⟩ := isPlain_following plain
        exact .single grouped bracket (ih _ (Nat.lt_succ_of_le (length_following_le c t)) behind rfl)
      | some found =>
        obtain ⟨mark, body, rest⟩ := found
        obtain ⟨counted, inside, behind⟩ := isPlain_of_group? grouped plain
        have length := length_group? grouped
        refine .group grouped counted (fun alternative mem => ?_)
          (ih _ (by rw [List.length_cons]; omega) behind rfl)
        have shorter := Group.length_le_of_mem_alternativesAt mem
        exact ih _ (by rw [List.length_cons]; omega) (inside alternative mem) rfl

/-- **A plain text has only one expression.** -/
theorem PlainPieces.translate_eq {t : Text} (plain : PlainPieces t) :
    translate true .alternative t = translate true .anything t := by
  induction plain with
  | nil => rw [translate_nil, translate_nil]
  | single ungrouped _ _ ih => rw [translate_cons ungrouped, translate_cons ungrouped, ih]
  | @group c t body rest mark grouped counted _ _ inner ih =>
    have alternatives : (Group.alternatives body).map (translate true .alternative) =
        (Group.alternatives body).map (translate true .anything) := List.map_congr_left inner
    have same (u : Text) : mark.expression .alternative u = mark.expression .anything u := by
      cases mark with
      | excluded => exact absurd rfl counted
      | _ => rfl
    rw [translate_cons_of_group grouped, translate_cons_of_group grouped, alternatives, same, ih]

/-- The text denotes expressions in a row, without anchors. -/
def DenotesFree (u : Text) (rs : List Regex) : Prop :=
  Factors u rs ∧ rs.all Regex.isUnanchored = true

theorem DenotesFree.append {u v : Text} {rs ss : List Regex} (first : DenotesFree u rs)
    (second : DenotesFree v ss) : DenotesFree (u ++ v) (rs ++ ss) :=
  ⟨first.1.append second.1, by rw [List.all_append, first.2, second.2]; rfl⟩

theorem exists_denotesFree_piece {c : Char} (bracket : c ≠ '[') (t : Text) :
    ∃ r, DenotesFree (piece c t) [r] := by
  unfold piece
  split
  · exact ⟨_, .single (reads_literal _), rfl⟩
  split
  · exact ⟨_, .single reads_anyText, rfl⟩
  split
  · exact ⟨_, .single (.once .dot), rfl⟩
  · rw [if_neg (by simpa using bracket)]
    exact ⟨_, .single (reads_literal _), rfl⟩

/-- Alternatives that denote expressions denote a choice. -/
theorem exists_branches {alternatives : List Text}
    (each : ∀ alternative ∈ alternatives, ∃ rs, DenotesFree (translate true .anything alternative) rs) :
    ∃ branches, List.Forall₂ (Reads .branch) (alternatives.map (translate true .anything)) branches ∧
      branches.all Regex.isUnanchored = true := by
  induction alternatives with
  | nil => exact ⟨[], .nil, rfl⟩
  | cons first alternatives ih =>
    obtain ⟨⟨rs, denotes⟩, others⟩ := List.forall_mem_cons.1 each
    obtain ⟨branches, reads, free⟩ := ih others
    refine ⟨Regex.sequence rs :: branches, .cons denotes.1.reads reads, ?_⟩
    rw [List.all_cons, Regex.isUnanchored_sequence, denotes.2, free]
    rfl

/-- **The expression of a plain text is well formed.** -/
theorem PlainPieces.exists_denotesFree {t : Text} (plain : PlainPieces t) :
    ∃ rs, DenotesFree (translate true .anything t) rs := by
  induction plain with
  | nil => exact ⟨[], by rw [translate_nil]; exact .nil, rfl⟩
  | @single c t ungrouped bracket _ ih =>
    obtain ⟨r, first⟩ := exists_denotesFree_piece bracket t
    obtain ⟨rs, others⟩ := ih
    rw [translate_cons ungrouped]
    exact ⟨r :: rs, first.append others⟩
  | @group c t body rest mark grouped _ _ _ inner ih =>
    obtain ⟨rs, others⟩ := ih
    obtain ⟨branches, each, free⟩ := exists_branches inner
    have nonempty : (Group.alternatives body).map (translate true .anything) ≠ [] := by
      simpa [Group.alternatives] using alternativesAt_ne_nil 0 body
    have chosen := Regex.reads_choice each nonempty
    refine ⟨mark.regex .anything (Regex.choice branches) :: rs, ?_⟩
    rw [translate_cons_of_group grouped]
    refine DenotesFree.append ⟨.single (reads_group chosen .anything mark), ?_⟩ others
    rw [List.all_cons, List.all_nil, Bool.and_true]
    exact Group.Mark.isUnanchored_regex ((Regex.isUnanchored_choice branches).trans free) .anything mark

/-! ### Putting texts side by side -/

/-- What follows a text that leaves nothing open does not change its expression. -/
theorem Whole.translate_append {t u : Text} (whole : Whole t) (h : u.head? ≠ some '(')
    (exclusion : Exclusion) :
    translate true exclusion (t ++ u) = translate true exclusion t ++ translate true exclusion u := by
  induction whole with
  | nil => rw [List.nil_append, translate_nil, List.nil_append]
  | escaped c _ ih =>
    rw [List.cons_append, translate_cons (group?_of_ofChar? rfl _ _),
      translate_cons (group?_of_ofChar? rfl _ _), List.append_assoc]
    exact congrArg (literal c ++ ·) ih
  | group opened _ ih =>
    rw [List.cons_append, translate_cons_of_group (group?_append opened u),
      translate_cons_of_group opened, List.append_assoc, ih]
  | @char c t backslash bracket unmarked _ ih =>
    have ungrouped : group? true c (t ++ u) = none ∧ group? true c t = none := by
      rcases unmarked with unmarked | begins
      · exact ⟨group?_of_ofChar? unmarked _ _, group?_of_ofChar? unmarked _ _⟩
      · refine ⟨group?_of_head? ?_ _ _, group?_of_head? begins _ _⟩
        cases t with
        | nil => exact h
        | cons d t => exact begins
    have followed (t : Text) : following c t = t := by simp [following, bracket, backslash]
    have alone : piece c (t ++ u) = piece c t := by simp [piece, bracket, backslash]
    rw [List.cons_append, translate_cons ungrouped.1, translate_cons ungrouped.2, followed, followed,
      alone, ih, List.append_assoc]

/-- Alternatives with bars between them. -/
def barred (alternatives : List Text) : Text :=
  List.intercalate ['|'] alternatives

/-- The pattern `@(…)`. -/
def oneOf (alternatives : List Text) : Text :=
  '@' :: '(' :: (barred alternatives ++ [')'])

/-- The pattern `before!(…)after`. -/
def negated (before : Text) (alternatives : List Text) (after : Text) : Text :=
  before ++ '!' :: '(' :: (barred alternatives ++ ')' :: after)

theorem barred_cons_cons (first second : Text) (others : List Text) :
    barred (first :: second :: others) = first ++ '|' :: barred (second :: others) := by
  simp [barred, List.intercalate]

theorem Closed.append {t u : Text} (h : Closed t) (h' : Closed u) : Closed (t ++ u) := by
  induction h with
  | nil => exact h'
  | escaped c _ ih => exact .escaped c ih
  | parens inner _ _ ih => simpa using Closed.parens inner ih
  | char backslash opening closing _ ih => exact .char backslash opening closing ih

theorem closed_barred {alternatives : List Text} (h : ∀ alternative ∈ alternatives, Closed alternative) :
    Closed (barred alternatives) := by
  induction alternatives with
  | nil => exact .nil
  | cons first alternatives ih =>
      rw [List.forall_mem_cons] at h
      cases alternatives with
      | nil => simpa [barred, List.intercalate] using h.1
      | cons second others =>
          rw [barred_cons_cons]
          exact h.1.append (.char (by decide) (by decide) (by decide) (ih h.2))

/-- What stands behind a text whose parentheses come in pairs is plain if all of it is. -/
theorem isPlain_of_closed_append {t u : Text} (closed : Closed t) (plain : isPlain (t ++ u) = true) :
    isPlain u = true := by
  by_contra other
  rw [Bool.not_eq_true] at other
  have := scanned_not_isPlain.of_closed closed other
  rw [plain] at this
  cases this

/-- A plain text goes on behind one whose parentheses come in pairs. -/
theorem isPlain_append {t u : Text} (closed : Closed t) (h : isPlain t = true) (h' : isPlain u = true)
    (begins : u.head? ≠ some '(') : isPlain (t ++ u) = true := by
  induction closed generalizing u with
  | nil => exact h'
  | escaped c _ ih => exact ih h h' begins
  | @parens inner t closedInner _ ihInner ih =>
      have tail := isPlain_of_cons (by decide) h
      have behind := isPlain_of_cons (by decide) (isPlain_of_closed_append closedInner tail)
      have plain := ihInner (u := ')' :: (t ++ u)) (isPlain_of_append tail)
        (by rw [isPlain_cons (by decide), ih behind h' begins]; rfl) (by simp)
      show isPlain ('(' :: ((inner ++ ')' :: t) ++ u)) = true
      rw [isPlain_cons (by decide), List.append_assoc, List.cons_append, plain]
      rfl
  | @char c t backslash _ _ _ ih =>
      have rest := ih (isPlain_of_cons backslash h) h' begins
      rw [isPlain_cons backslash, Bool.and_eq_true] at h
      rw [List.cons_append, isPlain_cons backslash, rest, Bool.and_true]
      cases t with
      | nil => simpa [begins] using h.1
      | cons d t => exact h.1

theorem isPlain_barred {alternatives : List Text} (closed : ∀ alternative ∈ alternatives, Closed alternative)
    (plain : ∀ alternative ∈ alternatives, isPlain alternative = true) :
    isPlain (barred alternatives) = true := by
  induction alternatives with
  | nil => rfl
  | cons first alternatives ih =>
      rw [List.forall_mem_cons] at closed plain
      cases alternatives with
      | nil => simpa [barred, List.intercalate] using plain.1
      | cons second others =>
          rw [barred_cons_cons]
          refine isPlain_append closed.1 plain.1 ?_ (by simp)
          rw [isPlain_cons (by decide), ih closed.2 plain.2]
          rfl

/-! ### The expression of a pattern with a group in it -/

section

variable {alternatives : List Text} (closed : ∀ alternative ∈ alternatives, Closed alternative)

include closed

/-- A group of closed alternatives is found, whatever follows it. -/
theorem group?_barred {c : Char} {mark : Group.Mark} (marked : Group.Mark.ofChar? c = some mark) (after : Text) :
    group? true c ('(' :: (barred alternatives ++ ')' :: after)) =
      some (mark, barred alternatives, after) := by
  refine group?_eq_some_iff.2 ⟨marked, _, rfl, ?_⟩
  rw [(closed_barred closed).close?_append]
  simp [Group.close?, bodyAfter]

/-- With any text in the place of the group. -/
theorem translate_negated_anything {before : Text} (whole : Whole before) (after : Text) :
    translate true .anything (negated before alternatives after) =
      translate true .anything before ++ (['.', '*'] ++ translate true .anything after) := by
  rw [negated, whole.translate_append (by simp),
    translate_cons_of_group (group?_barred closed rfl after)]
  rfl

/-- With one of the alternatives in the place of the group, as `@(…)` has them. -/
theorem translate_negated_alternative {before : Text} (whole : Whole before) (after : Text) :
    translate true .alternative (negated before alternatives after) =
      translate true .alternative before ++
        (translate true .alternative (oneOf alternatives) ++ translate true .alternative after) := by
  rw [negated, oneOf, whole.translate_append (by simp),
    translate_cons_of_group (group?_barred closed rfl after),
    translate_cons_of_group (group?_barred closed rfl []), translate_nil, List.append_nil]
  rfl

theorem isPlain_oneOf (plain : ∀ alternative ∈ alternatives, isPlain alternative = true) :
    isPlain (oneOf alternatives) = true := by
  have inside := isPlain_append (closed_barred closed) (isPlain_barred closed plain) (u := [')']) rfl (by simp)
  rw [oneOf, isPlain_cons (by decide), isPlain_cons (by decide), inside]
  rfl

end

/-- A pattern with a negated group behind a text that leaves nothing open is rewritten twice. -/
theorem excludes_negated {before : Text} (whole : Whole before) (alternatives : List Text) (after : Text) :
    excludes (negated before alternatives after) = true :=
  scanned_excludes.of_whole whole (by simp [excludes])

/-! ### Rendered shapes

Whatever is written from a shape leaves nothing open, has its parentheses in pairs and is plain. -/

theorem ne_of_not_isSpecial {c d : Char} (h : isSpecial c = false) (special : isSpecial d = true) : c ≠ d := by
  rintro rfl
  rw [h] at special
  cases special

mutual
theorem Shape.closed_render : ∀ p : Shape, Closed p.render
  | .empty => .nil
  | .char c => by
      rw [Shape.render, escape_singleton]
      rcases escapeChar_cases c with escaped | ⟨bare, ordinary⟩
      · rw [escaped]
        exact .escaped c .nil
      · rw [bare]
        exact .char (ne_of_not_isSpecial ordinary rfl) (ne_of_not_isSpecial ordinary rfl)
          (ne_of_not_isSpecial ordinary rfl) .nil
  | .anyChar => .char (by decide) (by decide) (by decide) .nil
  | .anyText => .char (by decide) (by decide) (by decide) .nil
  | .seq first second => first.closed_render.append second.closed_render
  | .group count alternatives =>
      .char (ne_of_isBare (isBare_char count) rfl) (ne_of_isBare (isBare_char count) rfl)
        (ne_of_isBare (isBare_char count) rfl) (.parens alternatives.closed_render .nil)
theorem Shapes.closed_render : ∀ ps : Shapes, Closed ps.render
  | .last shape => shape.closed_render
  | .more shape others =>
      shape.closed_render.append (.char (by decide) (by decide) (by decide) others.closed_render)
end

theorem passesOver_isPlain : PassesOver (fun _ => isPlain) (fun _ result => result) 0 where
  least_le := Nat.zero_le 1
  nil _ _ := rfl
  append _ _ _ := rfl
  bare h _ t := by
    rw [isPlain_cons (ne_of_isBare h rfl)]
    simp [ne_of_isBare h (d := '[') rfl, ne_of_isBare h (d := '!') rfl]
  escaped c _ t := by rw [isPlain]
  opening _ t := isPlain_cons (by decide) t
  closing _ t := isPlain_cons (by decide) t
  bar _ t := isPlain_cons (by decide) t

theorem Shape.isPlain_render (p : Shape) : isPlain p.render = true := by
  have alone := p.scan_render_append passesOver_isPlain 0 []
  rw [List.append_nil] at alone
  exact alone

theorem Shape.whole_render_append (p : Shape) {t : Text} (whole : Whole t) (h : t.head? ≠ some '(') :
    Whole (p.render ++ t) := by
  match p with
  | .empty => exact whole
  | .char c =>
      rw [Shape.render, escape_singleton]
      rcases escapeChar_cases c with escaped | ⟨bare, ordinary⟩
      · rw [escaped]
        exact .escaped c whole
      · rw [bare]
        exact .char (ne_of_not_isSpecial ordinary rfl) (ne_of_not_isSpecial ordinary rfl) (.inr h) whole
  | .anyChar => exact .char (by decide) (by decide) (.inr h) whole
  | .anyText => exact .char (by decide) (by decide) (.inr h) whole
  | .seq first second =>
      rw [Shape.render, List.append_assoc]
      exact first.whole_render_append (second.whole_render_append whole h) (second.head?_render_append h)
  | .group count alternatives =>
      rw [Shape.render, List.cons_append, List.cons_append, List.append_assoc]
      exact .group (group?_eq_some_iff.2 ⟨count.ofChar?_char, _, rfl, alternatives.close?_render t⟩) whole

theorem Shape.whole_render (p : Shape) : Whole p.render := by
  have alone := p.whole_render_append .nil (by simp)
  rwa [List.append_nil] at alone

/-! ### What is matched -/

/-- A plain text that compiles matches the language of its expression. -/
theorem accepts_of_isPlain {engine : Engine} {admits : Text → Prop} (standard : engine.Standard admits)
    {t : Text} (plain : isPlain t = true) {p : Pattern} (compiled : compile? engine true t = some p) :
    ∃ rs, DenotesFree (translate true .anything t) rs ∧
      ∀ u, p.accepts u = true ↔ u ∈ (Regex.sequence rs).language := by
  obtain ⟨rs, denotes⟩ := (plainPieces_of_isPlain plain).exists_denotesFree
  rw [compile?_of_not_excludes engine (by rw [excludes_of_isPlain plain]; rfl)] at compiled
  obtain ⟨m, found, rfl⟩ := Option.map_eq_some_iff.1 compiled
  refine ⟨rs, denotes, fun u => ?_⟩
  rw [← standard.anchor_iff (.last denotes.1.reads) ((Regex.isUnanchored_sequence rs).trans denotes.2) found]
  simp [accepts]

/-- A way to cut a text in three, with the first part matched by `p` and the last one by `s`. -/
structure Cut (p s : Pattern) (t a m b : Text) : Prop where
  joined : a ++ m ++ b = t
  front : p.accepts a = true
  back : s.accepts b = true

/-- The texts of three languages in a row are the texts that can be cut so that the middle is in the second. -/
theorem mem_mul_iff_cut {p s : Pattern} {front middle back : Language Char}
    (first : ∀ u, p.accepts u = true ↔ u ∈ front) (last : ∀ u, s.accepts u = true ↔ u ∈ back) {t : Text} :
    t ∈ front * (middle * back) ↔ ∃ a m b, Cut p s t a m b ∧ m ∈ middle := by
  constructor
  · intro mem
    obtain ⟨a, ha, u, hu, rfl⟩ := Language.mem_mul.1 mem
    obtain ⟨m, hm, b, hb, rfl⟩ := Language.mem_mul.1 hu
    exact ⟨a, m, b, ⟨List.append_assoc a m b, (first a).2 ha, (last b).2 hb⟩, hm⟩
  · rintro ⟨a, m, b, ⟨rfl, ha, hb⟩, hm⟩
    rw [List.append_assoc]
    exact Language.append_mem_mul ((first a).1 ha) (Language.append_mem_mul hm ((last b).1 hb))

/-- A standard engine compiles an anchored row of expressions without anchors to the product of their
languages. -/
theorem exists_matcher {engine : Engine} {admits : Text → Prop} (standard : engine.Standard admits)
    {u v w : Text} {rs ss ts : List Regex} (first : DenotesFree u rs) (second : DenotesFree v ss)
    (third : DenotesFree w ts) (admitted : admits (anchor (u ++ (v ++ w)))) :
    ∃ m, engine (anchor (u ++ (v ++ w))) = some m ∧ ∀ t, m t = true ↔
      t ∈ (Regex.sequence rs).language * ((Regex.sequence ss).language * (Regex.sequence ts).language) := by
  have all := first.append (second.append third)
  obtain ⟨m, compiled, meaning⟩ := standard.exists_anchor (.last all.1.reads)
    ((Regex.isUnanchored_sequence _).trans all.2) admitted
  refine ⟨m, compiled, fun t => ?_⟩
  rw [meaning]
  simp only [Regex.language_sequence, List.map_append, List.prod_append]

/-- Patterns whose texts all have one length leave only one way to cut a text. -/
theorem Cut.middle_unique {p s : Pattern} {t a m b a' m' b' : Text}
    (front : ∀ a a', p.accepts a = true → p.accepts a' = true → a.length = a'.length)
    (back : ∀ b b', s.accepts b = true → s.accepts b' = true → b.length = b'.length)
    (h : Cut p s t a m b) (h' : Cut p s t a' m' b') : m = m' := by
  have joined : a ++ m ++ b = a' ++ m' ++ b' := h.joined.trans h'.joined.symm
  have whole := (List.append_inj' joined (back b b' h.back h'.back)).1
  exact (List.append_inj whole (front a a' h.front h'.front)).2

/-- **A negated group looks at all ways to cut the text.**  Take plain texts in front of the group, behind it and
as its alternatives, where the first leaves nothing open and the alternatives have their parentheses in pairs, and a
standard engine that compiles each of them and has no limit for the two expressions of the whole.  The pattern matches
a text if that can be cut so that the first part is matched by the pattern in front and the last one by the pattern
behind, and in no such cut the middle is one of the alternatives.  If the patterns around the group match texts of one
length each, that is to say there is a cut whose middle is none of the alternatives. -/
theorem accepts_negated_iff {engine : Engine} {admits : Text → Prop} (standard : engine.Standard admits)
    {before after : Text} {alternatives : List Text} (whole : Whole before)
    (closed : ∀ alternative ∈ alternatives, Closed alternative) (plainBefore : isPlain before = true)
    (plainAlternatives : ∀ alternative ∈ alternatives, isPlain alternative = true)
    (plainAfter : isPlain after = true) {p g s : Pattern} (readBefore : compile? engine true before = some p)
    (readGroup : compile? engine true (oneOf alternatives) = some g)
    (readAfter : compile? engine true after = some s)
    (admitted : ∀ exclusion, admits (expression true exclusion (negated before alternatives after))) :
    ∃ pattern, compile? engine true (negated before alternatives after) = some pattern ∧
      (∀ t, pattern.accepts t = true ↔
        (∃ a m b, Cut p s t a m b) ∧ ∀ a m b, Cut p s t a m b → g.accepts m = false) ∧
      ((∀ a a', p.accepts a = true → p.accepts a' = true → a.length = a'.length) →
        (∀ b b', s.accepts b = true → s.accepts b' = true → b.length = b'.length) →
        ∀ t, pattern.accepts t = true ↔ ∃ a m b, Cut p s t a m b ∧ g.accepts m = false) := by
  have plainGroup := isPlain_oneOf closed plainAlternatives
  obtain ⟨front, denotesFront, fronts⟩ := accepts_of_isPlain standard plainBefore readBefore
  obtain ⟨group, denotesGroup, groups⟩ := accepts_of_isPlain standard plainGroup readGroup
  obtain ⟨back, denotesBack, backs⟩ := accepts_of_isPlain standard plainAfter readAfter
  have denotesAny : DenotesFree ['.', '*'] [Regex.anyText] := ⟨.single reads_anyText, rfl⟩
  -- the two expressions differ in the middle only: any text, and one of the alternatives
  have first : expression true .anything (negated before alternatives after) =
      anchor (translate true .anything before ++ (['.', '*'] ++ translate true .anything after)) :=
    congrArg anchor (translate_negated_anything closed whole after)
  have second : expression true .alternative (negated before alternatives after) =
      anchor (translate true .anything before ++
        (translate true .anything (oneOf alternatives) ++ translate true .anything after)) := by
    rw [expression, translate_negated_alternative closed whole after,
      (plainPieces_of_isPlain plainBefore).translate_eq, (plainPieces_of_isPlain plainGroup).translate_eq,
      (plainPieces_of_isPlain plainAfter).translate_eq]
  obtain ⟨required, readRequired, requires⟩ :=
    exists_matcher standard denotesFront denotesAny denotesBack (first ▸ admitted .anything)
  obtain ⟨forbidden, readForbidden, forbids⟩ :=
    exists_matcher standard denotesFront denotesGroup denotesBack (second ▸ admitted .alternative)
  have matched (t : Text) : (⟨required, some forbidden⟩ : Pattern).accepts t = true ↔
      (∃ a m b, Cut p s t a m b) ∧ ∀ a m b, Cut p s t a m b → g.accepts m = false := by
    have any (m : Text) : m ∈ (Regex.sequence [Regex.anyText]).language := by
      rw [show Regex.sequence [Regex.anyText] = Regex.anyText from rfl, language_anyText]
      trivial
    have split : (⟨required, some forbidden⟩ : Pattern).accepts t = true ↔
        required t = true ∧ ¬ forbidden t = true := by
      simp [accepts]
    rw [split, requires, forbids, mem_mul_iff_cut fronts backs, mem_mul_iff_cut fronts backs]
    simp only [any, and_true, not_exists, not_and, ← Bool.not_eq_true, groups]
  refine ⟨⟨required, some forbidden⟩, ?_, matched, ?_⟩
  · unfold compile?
    rw [first, second, readRequired, readForbidden, excludes_negated whole]
    rfl
  · intro oneFront oneBack t
    rw [matched]
    constructor
    · rintro ⟨⟨a, m, b, cut⟩, none⟩
      exact ⟨a, m, b, cut, none a m b cut⟩
    · rintro ⟨a, m, b, cut, outside⟩
      refine ⟨⟨a, m, b, cut⟩, fun a' m' b' cut' => ?_⟩
      rwa [← cut.middle_unique oneFront oneBack cut']

/-- The pattern `a?`. -/
def Shape.twoChars : Shape :=
  .seq (.char 'a') .anyChar

/-- The pattern `@(\*|*c)`. -/
def Shape.starOrC : Shape :=
  .group .once (.more (.char '*') (.last (.seq .anyText (.char 'c'))))

/-- Behind two characters and in front of a third one, the group is the complement: `a?!(\*|*c)b` matches
`axdb` and does not match `ax*b`. -/
theorem accepts_twoChars_negated :
    ∃ pattern, ofText? true "a?!(\\*|*c)b".toList = some pattern ∧
      pattern.accepts "axdb".toList = true ∧ pattern.accepts "ax*b".toList = false := by
  have compiled (p : Shape) (shallow : p.depth ≤ 15) :
      ∃ pattern, compile? Regex.engine true p.render = some pattern ∧
        ∀ t, pattern.accepts t = true ↔ t ∈ p.language :=
    p.exists_compile? (.inl rfl) Regex.standard_engine (p.isWithinLimit_expression shallow)
  obtain ⟨p, readFront, front⟩ := compiled Shape.twoChars (by decide)
  obtain ⟨g, readGroup, group⟩ := compiled Shape.starOrC (by decide)
  obtain ⟨s, readBack, back⟩ := compiled (.char 'b') (by decide)
  have written : ∀ alternative ∈ [['\\', '*'], ['*', 'c']],
      Closed alternative ∧ isPlain alternative = true := by
    simp only [List.forall_mem_cons]
    exact ⟨⟨(Shape.char '*').closed_render, rfl⟩, ⟨(Shape.seq .anyText (.char 'c')).closed_render, rfl⟩, nofun⟩
  obtain ⟨pattern, read, matched, complement⟩ := accepts_negated_iff Regex.standard_engine
    Shape.twoChars.whole_render (fun alternative mem => (written alternative mem).1) Shape.twoChars.isPlain_render
    (fun alternative mem => (written alternative mem).2) (Shape.char 'b').isPlain_render readFront readGroup
    readBack (fun exclusion => by cases exclusion <;> decide +kernel)
  have inFront {a : Text} (h : p.accepts a = true) : a.length = 2 := by
    obtain ⟨_, rfl, _, ⟨c, rfl⟩, rfl⟩ := Language.mem_mul.1 ((front a).1 h)
    rfl
  have behind {b : Text} (h : s.accepts b = true) : b.length = 1 := by
    obtain rfl : b = ['b'] := (back b).1 h
    rfl
  have cut (m : Char) : Cut p s ['a', 'x', m, 'b'] ['a', 'x'] [m] ['b'] :=
    ⟨rfl, (front _).2 ⟨['a'], rfl, ['x'], ⟨'x', rfl⟩, rfl⟩, (back _).2 rfl⟩
  refine ⟨pattern, read, ?_, ?_⟩
  · refine (complement (fun a a' h h' => (inFront h).trans (inFront h').symm)
      (fun b b' h h' => (behind h).trans (behind h').symm) _).2 ⟨_, _, _, cut 'd', ?_⟩
    rw [← Bool.not_eq_true, group]
    rintro (star | ⟨a, -, _, rfl, joined⟩)
    · exact absurd (show ['d'] = ['*'] from star) (by decide)
    · exact absurd (List.append_inj' (show a ++ ['c'] = [] ++ ['d'] from joined) rfl).2 (by decide)
  · rw [← Bool.not_eq_true, matched]
    rintro ⟨-, outside⟩
    have inside : g.accepts ['*'] = true := (group _).2 (.inl rfl)
    rw [outside _ _ _ (cut '*')] at inside
    cases inside

/-- It is not enough that the text has one cut whose middle is none of the alternatives: `*!(a)` does not
match `a`. -/
theorem not_accepts_any_negated :
    ∃ p s g pattern : Pattern,
      ofText? true ['*'] = some p ∧ ofText? true [] = some s ∧ ofText? true (oneOf [['a']]) = some g ∧
      ofText? true (negated ['*'] [['a']] []) = some pattern ∧
      (∃ a m b, Cut p s ['a'] a m b ∧ g.accepts m = false) ∧ pattern.accepts ['a'] = false := by
  obtain ⟨p, readFront, front⟩ :=
    (Option.any_eq_true (·.accepts ['a']) (ofText? true ['*'])).1 (by decide +kernel)
  obtain ⟨s, readBack, back⟩ := (Option.any_eq_true (·.accepts []) (ofText? true [])).1 (by decide +kernel)
  obtain ⟨g, readGroup, group⟩ :=
    (Option.any_eq_true (!·.accepts []) (ofText? true (oneOf [['a']]))).1 (by decide +kernel)
  obtain ⟨pattern, read, missed⟩ :=
    (Option.any_eq_true (!·.accepts ['a']) (ofText? true (negated ['*'] [['a']] []))).1 (by decide +kernel)
  exact ⟨p, s, g, pattern, readFront, readBack, readGroup, read,
    ⟨['a'], [], [], ⟨rfl, front, back⟩, by simpa using group⟩, by simpa using missed⟩

end Pattern

end ShellWord
