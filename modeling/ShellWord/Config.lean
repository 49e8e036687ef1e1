import ShellWord.Session.Basic
import ShellWord.Toml.Reader

/-!
# Configurations

The state that a session begins with, as a document describes it.  Keys that have no meaning are
ignored; a value of the wrong kind is an error.

## Main definitions

* `Config`: the beginning of a session
* `Config.ofText?`: read a document
* `Config.inherit`: take over an environment
* `Config.shell`: the shell that a configuration describes
-/

namespace ShellWord

/-- The state that a session begins with. -/
structure Config where
  vars : Variables := .empty
  positional : List Text := []
  /-- `$0`; the shell has a name of its own when this is missing -/
  name : Option Text := none
  /-- the working directory; the one the program runs in when this is missing -/
  cwd : Option Text := none
  options : Options := {}
  globbing : Globbing := {}
  deriving DecidableEq, Repr

namespace Toml

/-- A text. -/
def text? : Toml → Option Text
  | .string text => some text
  | _ => none

/-- A truth value. -/
def bool? : Toml → Option Bool
  | .boolean b => some b
  | _ => none

/-- A list of texts. -/
def texts? : Toml → Option (List Text)
  | .array items => items.mapM text?
  | _ => none

/-- A table of texts, in the order of the document. -/
def variables? : Toml → Option Variables
  | .table _ entries => do
    let entries ← entries.mapM fun (name, value) => (text? value).map fun text => (name, text)
    return .ofList entries
  | _ => none

/-- The entry of a key, if there is one. -/
def field? {α : Type} (read? : Toml → Option α) (entries : Entries) (name : String) :
    Option (Option α) :=
  match entries.lookup name.toList with
  | none => some none
  | some value => (read? value).map some

/-- The switches of a record, by name; those that are missing are off.  A record is a table, or an
array of its values in order. -/
def switches? (names : List String) : Toml → Option (List Bool)
  | .table _ entries =>
    names.mapM fun name => (field? bool? entries name).map fun value => value.getD false
  | .array items => do
    let given ← (items.take names.length).mapM bool?
    return given ++ List.replicate (names.length - given.length) false
  | _ => none

end Toml

/-- The options of a record. -/
def Options.ofToml? (value : Toml) : Option Options :=
  match Toml.switches? ["noglob", "nounset", "debug"] value with
  | some [noglob, nounset, debug] => some { noglob, nounset, debug }
  | _ => none

/-- The ways of globbing of a record. -/
def Globbing.ofToml? (value : Toml) : Option Globbing :=
  match Toml.switches? ["nullglob", "extglob", "dotglob", "failglob"] value with
  | some [nullglob, extglob, dotglob, failglob] => some { nullglob, extglob, dotglob, failglob }
  | _ => none

namespace Config

/-- Read a configuration from the entries of a document. -/
def ofEntries? (entries : Toml.Entries) : Option Config := do
  let vars ← Toml.field? Toml.variables? entries "variables"
  let positional ← Toml.field? Toml.texts? entries "positional"
  let name ← Toml.field? Toml.text? entries "shell_name"
  let cwd ← Toml.field? Toml.text? entries "cwd"
  let options ← Toml.field? Options.ofToml? entries "options"
  let globbing ← Toml.field? Globbing.ofToml? entries "shopt_options"
  return {
    vars := vars.getD .empty
    positional := positional.getD []
    name := name
    cwd := cwd
    options := options.getD {}
    globbing := globbing.getD {} }

/-- Read a configuration. -/
def ofText? (t : Text) : Option Config :=
  (Toml.ofText? t).bind ofEntries?

/-- Take over an environment, as far as the configuration has no value of its own.  The variables of
the environment come first. -/
def inherit (environment : List (Text × Text)) (config : Config) : Config :=
  { config with vars := .ofList (environment ++ config.vars.entries) }

/-- The shell that a configuration describes, where `cwd` is the directory the program runs in.  `PWD`
is set if the configuration leaves it out. -/
def shell (cwd : Text) (pid : Nat) (config : Config) : Shell :=
  let cwd := config.cwd.getD cwd
  let pwd := "PWD".toList
  { vars :=
      if (config.vars.get? pwd).isSome then config.vars
      else config.vars.insert pwd cwd
    positional := config.positional
    name := config.name.getD "sh".toList
    options := config.options
    globbing := config.globbing
    cwd := cwd
    lastStatus := 0
    lastBackground := none
    pid := pid
    children := []
    pipes := [] }

end Config

end ShellWord
