import ShellWord.Text.Basic

/-!
# TOML documents

A document is a table of values.  It is written as a sequence of statements: headers, which open a
table, and assignments to keys.  A key may have dots, and then leads through tables that it makes if
they are missing.  No key is given twice, and no table is opened twice; so every table remembers how
it came about:

* a table of a header can be opened only once, and its inner tables cannot be reached by dotted keys
  from outside;
* a table that a longer header implies can still be opened by a header of its own;
* a table made by a dotted key can only be extended by dotted keys;
* an inline table is complete.

## Main definitions

* `Toml`: the values
* `Toml.Origin`: how a table came about
* `Toml.Statement`: headers and assignments
* `Toml.ofStatements?`: the table that a sequence of statements builds
-/

namespace ShellWord

namespace Toml

/-- How a table came about. -/
inductive Origin where
  | header
  | implied
  | dotted
  | inline
  deriving DecidableEq, Repr

end Toml

/-- A value of a document.  Numbers and points in time are kept as they are written. -/
inductive Toml where
  | string (text : Text)
  | boolean (b : Bool)
  | number (text : Text)
  | moment (text : Text)
  | array (items : List Toml)
  /-- a table with its entries in the order of the document -/
  | table (origin : Toml.Origin) (entries : List (Text × Toml))
  /-- the tables under a header that may be repeated, the latest first -/
  | tables (items : List (List (Text × Toml)))

namespace Toml

/-- The entries of a table. -/
abbrev Entries := List (Text × Toml)

/-- A statement of a document. -/
inductive Statement where
  /-- `[path]` -/
  | header (path : List Text)
  /-- `[[path]]` -/
  | repeatable (path : List Text)
  /-- `path = value` -/
  | assign (path : List Text) (value : Toml)

/-- Change the entry of a key, or add one at the end. -/
def update (key : Text) (change : Option Toml → Option Toml) : Entries → Option Entries
  | [] => (change none).map fun value => [(key, value)]
  | entry :: entries =>
    if entry.1 == key then (change (some entry.2)).map fun value => (key, value) :: entries
    else (update key change entries).map (entry :: ·)

/-- Change the entries of what a header leads through: a table, or the latest of repeated tables.
What is missing is implied. -/
def through (change : Entries → Option Entries) : Option Toml → Option Toml
  | none => (change []).map (.table .implied)
  | some (.table .inline _) => none
  | some (.table origin entries) => (change entries).map (.table origin)
  | some (.tables (entries :: others)) => (change entries).map fun entries => .tables (entries :: others)
  | some _ => none

/-- Change the entries that a path of a header leads to. -/
def descend (change : Entries → Option Entries) : List Text → Entries → Option Entries
  | [], entries => change entries
  | key :: path, entries => update key (through (descend change path)) entries

/-- Open a table.  It must be new or implied. -/
def openTable : Option Toml → Option Toml
  | none => some (.table .header [])
  | some (.table .implied entries) => some (.table .header entries)
  | some _ => none

/-- Open the next of repeated tables. -/
def openNext : Option Toml → Option Toml
  | none => some (.tables [[]])
  | some (.tables items) => some (.tables ([] :: items))
  | some _ => none

/-- Change the last table of a path, which the keys before it lead to. -/
def atLast (change : Option Toml → Option Toml) : List Text → Entries → Option Entries
  | [], _ => none
  | [key], entries => update key change entries
  | key :: path, entries => update key (through (atLast change path)) entries

/-- Assign to a dotted key.  The tables on the way must not have been opened by headers, and the last
of them must have been made by dotted keys. -/
def assign (value : Toml) : List Text → Entries → Option Entries
  | [], _ => none
  | [key], entries =>
    update key (fun old => if old.isSome then none else some value) entries
  | key :: path, entries =>
    update key
      (fun
        | none => (assign value path []).map (.table .dotted)
        | some (.table .dotted inner) => (assign value path inner).map (.table .dotted)
        | some (.table .implied inner) =>
          if path.length ≤ 1 then none else (assign value path inner).map (.table .implied)
        | some _ => none)
      entries

/-- Change the entries of the table that the latest header opened. -/
def inCurrent (current : List Text) (change : Entries → Option Entries) (entries : Entries) :
    Option Entries :=
  descend change current entries

/-- Carry out the statements of a document, with the path of the latest header. -/
def build : List Text → List Statement → Entries → Option Entries
  | _, [], entries => some entries
  | _, .header path :: rest, entries => do
    let entries ← atLast openTable path entries
    build path rest entries
  | _, .repeatable path :: rest, entries => do
    let entries ← atLast openNext path entries
    build path rest entries
  | current, .assign path value :: rest, entries => do
    let entries ← inCurrent current (assign value path) entries
    build current rest entries

/-- The table that the statements of a document build. -/
def ofStatements? (statements : List Statement) : Option Entries :=
  build [] statements []

/-- The inline table that assignments build. -/
def inlineTable? (assignments : List (List Text × Toml)) : Option Toml :=
  (build [] (assignments.map fun (path, value) => .assign path value) []).map (.table .inline)

end Toml

end ShellWord
