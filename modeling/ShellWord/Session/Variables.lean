import ShellWord.Text.Basic

/-!
# Variables

The variables of a session, in the order in which they were first defined.  Giving a variable a new
value keeps its place; unsetting one closes the gap.

## Main definitions

* `Variables`: the table
* `Variables.get?`, `Variables.insert`, `Variables.erase`
-/

namespace ShellWord

/-- Names with their values, in the order of definition. -/
structure Variables where
  entries : List (Text × Text)
  deriving DecidableEq, Repr

namespace Variables

/-- No variables. -/
def empty : Variables := ⟨[]⟩

/-- The names in the order of definition. -/
def names (vars : Variables) : List Text :=
  vars.entries.map (·.1)

/-- The value of a variable that is set. -/
def get? (vars : Variables) (name : Text) : Option Text :=
  vars.entries.lookup name

/-- Replace the value of a name in a list of entries, or append the entry. -/
def insertEntry (name value : Text) : List (Text × Text) → List (Text × Text)
  | [] => [(name, value)]
  | entry :: entries =>
    if entry.1 == name then (name, value) :: entries
    else entry :: insertEntry name value entries

/-- Set a variable; a new one comes last. -/
def insert (vars : Variables) (name value : Text) : Variables :=
  ⟨insertEntry name value vars.entries⟩

/-- Unset a variable. -/
def erase (vars : Variables) (name : Text) : Variables :=
  ⟨vars.entries.filter fun entry => !(entry.1 == name)⟩

/-- Set one variable after the other. -/
def ofList (entries : List (Text × Text)) : Variables :=
  entries.foldl (fun vars entry => vars.insert entry.1 entry.2) .empty

end Variables

end ShellWord
