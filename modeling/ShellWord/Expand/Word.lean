import ShellWord.Expand.Evaluate
import ShellWord.Field.Segment
import ShellWord.Files.Pathname
import ShellWord.Word.Form

/-!
# Expanding words

A word becomes a list of arguments.  Its parts are expanded into segments, the segments are split into
fields, and the fields are matched against files.  A word in single quotes is taken as it is, a word in
double quotes is neither split nor matched, and an assignment is not split.

## Main definitions

* `wordSegments`: the segments of a word
* `expandFields`: pathname expansion of fields
* `expandWord`: the arguments of a word
-/

namespace ShellWord

variable {World : Type}

/-- The positional list that an expansion stands for, and its parameters: the whole list, or a slice
of it. -/
def positionalValues? (host : Host World) (expansion : Expansion) :
    Expand World (Option (PositionalList × List Text)) :=
  match expansion.positionalList? with
  | some list => do
    let s ← get
    return some (list, s.shell.positional)
  | none => positionalSlice? host expansion

/-- The segments of a literal part of a word.  Unquoted text at the beginning may have a tilde prefix,
which is a segment of its own. -/
def literalSegments (host : Host World) (s : Session World) (text : Text) (quote : Option Quote)
    (leading continues : Bool) : List Segment :=
  match quote with
  | some quote =>
    if quote.isLiteral then [.quoted text] else [.quoted (unescapeDoubleQuoted text)]
  | none =>
    match (if leading then s.tildePrefix? host text continues else none) with
    | some (dir, rest) => [.quoted dir, .fixed (Literal.ofUnquoted rest) false]
    | none => [.fixed (Literal.ofUnquoted text) false]

/-- A segment of literal text is quoted, or it is unquoted text: all of it, or what follows a tilde. -/
theorem cases_of_mem_literalSegments {host : Host World} {s : Session World} {text : Text}
    {quote : Option Quote} {leading continues : Bool} {segment : Segment}
    (mem : segment ∈ literalSegments host s text quote leading continues) :
    (∃ inner, segment = .quoted inner) ∨ quote = none ∧ ∃ rest,
      segment = .fixed (Literal.ofUnquoted rest) false ∧
        (rest = text ∨ ∃ dir, s.tildePrefix? host text continues = some (dir, rest)) := by
  unfold literalSegments at mem
  split at mem
  · split at mem
    · exact .inl ⟨_, List.mem_singleton.1 mem⟩
    · exact .inl ⟨_, List.mem_singleton.1 mem⟩
  · split at mem
    · next dir rest found =>
      rcases List.mem_cons.1 mem with same | mem
      · exact .inl ⟨_, same⟩
      · refine .inr ⟨rfl, rest, List.mem_singleton.1 mem, .inr ⟨dir, ?_⟩⟩
        split at found
        · exact found
        · cases found
    · exact .inr ⟨rfl, text, List.mem_singleton.1 mem, .inl rfl⟩

/-- The segments of a part, with the quotes of the word around it. -/
def partSegments (host : Host World) (quote : Option Quote) (continues leading : Bool) :
    Part → Expand World (List Segment)
  | .literal text own => do
    let s ← get
    return literalSegments host s text (quote.or own) leading continues
  | .expansion expansion own => do
    let quoted := quote.isSome || own.isSome
    match ← positionalValues? host expansion with
    | some (list, params) =>
      let s ← get
      return positionalSegments list quoted s.shell.separator params
    | none =>
      let value ← evaluate host expansion
      return [if quoted then .quoted value else .splittable value]

/-- The segments of the parts of a word, from left to right. -/
def partsSegments (host : Host World) (quote : Option Quote) (continues leading : Bool) :
    List Part → Expand World (List Segment)
  | [] => return []
  | part :: parts => do
    let first ← partSegments host quote continues leading part
    let rest ← partsSegments host quote continues false parts
    return first ++ rest

/-- The segments of a word. -/
def wordSegments (host : Host World) (word : Word) : Expand World (List Segment) :=
  partsSegments host word.quote (word.parts.length > 1) true word.parts

/-! ### Pathname expansion of fields -/

/-- The arguments of one field.  A pattern without matches stays as it is, is dropped or is an error,
as the options say. -/
def expandField (globber : Globber) (globbing : Globbing) (field : Field) :
    Except ExpandError (List Text) :=
  if !Pattern.isActive globbing.extglob field.pattern then .ok [field.text]
  else
    match globber.expand field.pattern with
    | [] =>
      if globbing.failglob then .error (.noMatch field.text)
      else if globbing.nullglob then .ok []
      else .ok [field.text]
    | paths => .ok paths

/-- The arguments of fields, from left to right. -/
def expandFieldList (globber : Globber) (globbing : Globbing) :
    List Field → Except ExpandError (List Text)
  | [] => .ok []
  | field :: fields => do
    let first ← expandField globber globbing field
    let rest ← expandFieldList globber globbing fields
    return first ++ rest

/-- Where and how a session expands patterns. -/
def Session.globber (host : Host World) (s : Session World) : Globber where
  files := host.files s.world
  engine := host.engine
  cwd := s.shell.cwd
  dotglob := s.shell.globbing.dotglob
  extglob := s.shell.globbing.extglob

/-- The arguments of fields, in a session. -/
def expandFields (host : Host World) (fields : List Field) : Expand World (List Text) := do
  let s ← get
  if s.shell.options.noglob then
    return fields.map Literal.text
  else
    match expandFieldList (s.globber host) s.shell.globbing fields with
    | .ok args => return args
    | .error error => throw error

/-! ### Words -/

/-- A word in double quotes is one argument, unless `$@` is among its parts. -/
def expandDoubleQuoted (host : Host World) (word : Word) : Expand World (List Text) := do
  let segments ← wordSegments host word
  let fields := (splitSegments none segments).map Literal.text
  return if fields.isEmpty && !word.hasPositionalAt then [[]] else fields

/-- A word whose parts have quotes of their own is split, unless it is an assignment, and matched
against files. -/
def expandComposite (host : Host World) (word : Word) : Expand World (List Text) := do
  let segments ← wordSegments host word
  let s ← get
  let ifs := if word.isAssignment then none else some s.shell.ifs
  expandFields host (splitSegments ifs segments)

/-- The arguments of a word. -/
def expandWord (host : Host World) (word : Word) : Expand World (List Text) :=
  match word.quote with
  | some quote =>
    if quote.isLiteral then pure [word.source] else expandDoubleQuoted host word
  | none => expandComposite host word

/-- The arguments of words, from left to right. -/
def expandWords (host : Host World) : List Word → Expand World (List Text)
  | [] => return []
  | word :: words => do
    let first ← expandWord host word
    let rest ← expandWords host words
    return first ++ rest

end ShellWord
