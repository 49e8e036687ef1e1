import ShellWord.Arith.Span
import ShellWord.Expand.Command
import ShellWord.Word.Escape

/-!
# The commands written in a word

Which command texts a word spells out, read off its structure alone.  `Word.nodes` lists the expansions
of a word at every depth: those among its parts, in the operands of their operators and in the
replacements.  A node writes a command in one of two ways (`Expansion.Writes`): it is a command
substitution, or it holds arithmetic text in which `$(command)` stands.

Neither definition mentions a session; so a set of commands that is bounded by them is bounded for all
values of variables, all positional parameters and all outputs of other commands at once.
-/

namespace ShellWord

mutual

/-- The expansions of a word, at every depth. -/
def Word.nodes : Word → List Expansion
  | .mk parts _ => partsNodes parts

/-- The expansions of the parts of a word, at every depth. -/
def partsNodes : List Part → List Expansion
  | [] => []
  | part :: parts => part.nodes ++ partsNodes parts

/-- The expansions of a part, at every depth. -/
def Part.nodes : Part → List Expansion
  | .literal _ _ => []
  | .expansion expansion _ => expansion.nodes

/-- An expansion, and those in its operand and its replacement. -/
def Expansion.nodes : Expansion → List Expansion
  | .variable name => [.variable name]
  | .parameter name none word => .parameter name none word :: wordNodes word
  | .parameter name (some operator) word =>
    .parameter name (some operator) word :: (operator.nodes ++ wordNodes word)
  | .command command backtick => [.command command backtick]
  | .arithmetic expression => [.arithmetic expression]
  | .process flow command => [.process flow command]

/-- The expansions in the replacement of an operator. -/
def Operator.nodes : Operator → List Expansion
  | .replace _ _ replacement => wordNodes replacement
  | _ => []

/-- The expansions of an operand that may be absent. -/
def wordNodes : Option Word → List Expansion
  | none => []
  | some word => word.nodes

end

namespace Expansion

/-- An expansion is the first of its own nodes. -/
theorem mem_nodes : ∀ expansion : Expansion, expansion ∈ expansion.nodes
  | .variable _ => by simp [nodes]
  | .parameter _ none _ => by simp [nodes]
  | .parameter _ (some _) _ => by simp [nodes]
  | .command _ _ => by simp [nodes]
  | .arithmetic _ => by simp [nodes]
  | .process _ _ => by simp [nodes]

/-- The command of a command substitution, without the backslashes that backticks ask for. -/
def commandText? : Expansion → Option Text
  | .command text backtick => some (if backtick then unescapeBackticks text else text)
  | _ => none

/-- The arithmetic texts that an expansion itself holds: its expression, or the offset and the length
of a substring. -/
def arithmeticTexts : Expansion → List Text
  | .arithmetic expression => [expression]
  | .parameter _ (some (.substring offset length)) _ => offset :: length.toList
  | _ => []

/-- An expansion spells out a command: as a command substitution, or as `$(command)` in arithmetic
text. -/
def Writes (expansion : Expansion) (command : Text) : Prop :=
  expansion.commandText? = some command ∨
    ∃ text ∈ expansion.arithmeticTexts, '$' :: '(' :: (command ++ [')']) <:+: text

end Expansion

/-- Some word of a command spells out a command, at some depth. -/
def Command.Writes (command : Command) (text : Text) : Prop :=
  ∃ word ∈ command.words, ∃ node ∈ word.nodes, node.Writes text

/-- Every command that one of the expansions spells out is permitted. -/
def Permitted (Allowed : Text → Prop) (nodes : List Expansion) : Prop :=
  ∀ node ∈ nodes, ∀ command, node.Writes command → Allowed command

/-- Where process substitutions have been replaced, the words are those that were there before, and paths,
which have no expansions. -/
theorem mem_or_nodes_eq_nil_of_mem_replaceSubstitutions {paths : List Text} {words : List Word}
    {word : Word} (mem : word ∈ replaceSubstitutions paths words) :
    word ∈ words ∨ word.nodes = [] := by
  fun_induction replaceSubstitutions paths words with
  | case1 => simp at mem
  | case2 words => exact .inl mem
  | case3 path paths first words substitution found ih =>
      rcases List.mem_cons.1 mem with rfl | mem
      · exact .inr (by simp [Word.singleQuoted, Word.nodes, partsNodes, Part.nodes])
      · exact (ih mem).imp_left (List.mem_cons_of_mem _)
  | case4 path paths first words found ih =>
      rcases List.mem_cons.1 mem with rfl | mem
      · exact .inl List.mem_cons_self
      · exact (ih mem).imp_left (List.mem_cons_of_mem _)

/-- What holds of every expansion of some words still holds where process substitutions have been
replaced. -/
theorem forall_nodes_replaceSubstitutions {P : Expansion → Prop} {words : List Word}
    (h : ∀ word ∈ words, ∀ node ∈ word.nodes, P node) (paths : List Text) :
    ∀ word ∈ replaceSubstitutions paths words, ∀ node ∈ word.nodes, P node := by
  intro word mem node inWord
  rcases mem_or_nodes_eq_nil_of_mem_replaceSubstitutions mem with mem | none
  · exact h word mem node inWord
  · rw [none] at inWord
    cases inWord

end ShellWord
