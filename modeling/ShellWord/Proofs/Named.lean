import ShellWord.Proofs.Span
import ShellWord.Proofs.Written

/-!
# The parameters named in a word

Which parameters a word can look up, read off its structure alone, in the same way as `Proofs.Written`
does it for commands.  An expansion names the parameter that it expands, and those that stand in its
arithmetic text (`Dollar.Names`): there `${name}` names any text, and `$name` only an identifier or a
special parameter of one character.

Arithmetic text is looked through twice, first for parameters and then for substitutions whose bodies
are arithmetic text again.  The first look reads the parameters that the text names and no others
(`Dollar.names_of_mem_parameters`); for the bodies it is enough that they stand in the text
(`Dollar.Names.mono`).
-/

namespace ShellWord

namespace Dollar

/-- The names that need no braces: identifiers, and special parameters of one character. -/
def isBare (name : Text) : Bool :=
  Text.isName name || (name.length == 1 && name.all isSpecialName)

/-- A text names a parameter: between braces, or right behind a dollar sign. -/
def Names (t name : Text) : Prop :=
  braced name <:+: t ∨ isBare name = true ∧ '$' :: name <:+: t

instance (t name : Text) : Decidable (Names t name) :=
  inferInstanceAs (Decidable (_ ∨ _ ∧ _))

theorem Names.mono {s t name : Text} (h : Names s name) (within : s <:+: t) : Names t name :=
  h.imp (·.trans within) fun bare => ⟨bare.1, bare.2.trans within⟩

/-- The parameters that a text is cut into are named in it. -/
theorem names_of_mem_pieces {t name : Text} (h : .parameter name ∈ pieces t) : Names t name := by
  fun_induction pieces t with
  | case1 => simp at h
  | case2 c => simp at h
  | case3 c d rest notDollar ih =>
      have within : d :: rest <:+: c :: d :: rest := List.infix_cons List.infix_rfl
      exact (ih (by simpa using h)).mono within
  | case4 c d rest isDollar paren body after closed _ ih =>
      have within : after <:+: c :: d :: rest := by
        rw [(Paren.close?_eq_some_iff.1 closed).2]
        exact ⟨c :: '(' :: (body ++ [')']), [], by simp⟩
      exact (ih (by simpa using h)).mono within
  | case5 => simp at h
  | case6 c d rest isDollar notParen brace inner after closed _ ih =>
      obtain rfl : c = '$' := by simpa using isDollar
      obtain rfl : d = '\x7b' := by simpa using brace
      obtain ⟨close, isClose, rfl⟩ := exists_of_cutAt? closed
      obtain rfl : close = '\x7d' := by simpa using isClose
      rcases List.mem_cons.1 h with same | later
      · obtain rfl := Piece.parameter.inj same
        exact .inl ⟨[], after, by simp [braced]⟩
      · have within : after <:+: '$' :: '\x7b' :: (inner ++ '\x7d' :: after) :=
          ⟨braced inner, [], by simp [braced]⟩
        exact (ih later).mono within
  | case7 => simp at h
  | case8 c d rest isDollar notParen notBrace isName ih =>
      obtain rfl : c = '$' := by simpa using isDollar
      rcases List.mem_cons.1 h with same | later
      · obtain rfl := Piece.parameter.inj same
        have bare : isBare (d :: rest.takeWhile Text.isNameChar) = true := by
          simp [isBare, Text.isName_cons, isName, List.all_takeWhile]
        exact .inr ⟨bare, [], rest.dropWhile Text.isNameChar, by simp⟩
      · have within : rest.dropWhile Text.isNameChar <:+: '$' :: d :: rest :=
          ((List.dropWhile_suffix _).trans (List.suffix_append ['$', d] rest)).isInfix
        exact (ih later).mono within
  | case9 c d rest isDollar notParen notBrace notName special ih =>
      obtain rfl : c = '$' := by simpa using isDollar
      rcases List.mem_cons.1 h with same | later
      · obtain rfl := Piece.parameter.inj same
        exact .inr ⟨by simp [isBare, special], [], rest, by simp⟩
      · exact (ih later).mono (List.suffix_append ['$', d] rest).isInfix
  | case10 c d rest isDollar notParen notBrace notName notSpecial ih =>
      have within : d :: rest <:+: c :: d :: rest := List.infix_cons List.infix_rfl
      exact (ih (by simpa using h)).mono within

/-- **Only parameters that a text names are read for it.** -/
theorem names_of_mem_parameters {t name : Text} (h : name ∈ parameters t) : Names t name := by
  obtain ⟨piece, mem, same⟩ := List.mem_filterMap.1 h
  cases piece with
  | plain text => cases same
  | parameter other =>
      obtain rfl := Option.some.inj same
      exact names_of_mem_pieces mem

end Dollar

namespace Expansion

/-- The parameter that an expansion expands. -/
def parameter? : Expansion → Option Text
  | .variable name => some name
  | .parameter name _ _ => some name
  | _ => none

/-- An expansion names a parameter: it expands it, or it holds arithmetic text that names it. -/
def Names (expansion : Expansion) (name : Text) : Prop :=
  expansion.parameter? = some name ∨ ∃ text ∈ expansion.arithmeticTexts, Dollar.Names text name

instance (expansion : Expansion) (name : Text) : Decidable (expansion.Names name) :=
  inferInstanceAs (Decidable (_ ∨ ∃ text ∈ _, Dollar.Names text name))

/-- The expansions that can be evaluated: the parameter that they expand is one, and they are no process
substitutions. -/
def isWellFormed : Expansion → Bool
  | .variable name => isParameter name
  | .parameter name _ _ => isParameter name
  | .command _ _ => true
  | .arithmetic _ => true
  | .process _ _ => false

end Expansion

/-- Some word of a command names a parameter, at some depth. -/
def Command.Names (command : Command) (name : Text) : Prop :=
  ∃ word ∈ command.words, ∃ node ∈ word.nodes, node.Names name

instance (command : Command) (name : Text) : Decidable (command.Names name) :=
  inferInstanceAs (Decidable (∃ word ∈ _, ∃ node ∈ Word.nodes word, Expansion.Names node name))

end ShellWord
