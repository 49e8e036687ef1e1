import ShellWord.Expand.Arithmetic
import ShellWord.Proofs.Arith.Lexing

/-!
# Reading parameters

Reading a parameter gives its value and leaves the shell as it is.  The world may change, but only where the world
is asked: for a variable that changes by itself and that is not in the table.  What was set in the table is read
back as often as one likes.
-/

namespace ShellWord

/-- What has the form of a name is neither special nor positional. -/
theorem isSpecial_of_isName {name : Text} (h : Text.isName name = true) : isSpecial name = false := by
  cases name with
  | nil => cases h
  | cons c rest =>
      rw [Text.isName_cons, Bool.and_eq_true] at h
      have notDigit : Text.isDigit c = false := Arith.isDigit_of_isNameStart h.1
      cases rest with
      | nil =>
          -- none of the seven special characters begins a name
          have other : ∀ special, Text.isNameStart special = false → (c == special) = false := by
            intro special notStart
            rw [beq_eq_false_iff_ne]
            rintro rfl
            rw [notStart] at h
            cases h.1
          simp only [isSpecial, notDigit, Bool.or_false]
          rw [other '@' rfl, other '*' rfl, other '#' rfl, other '?' rfl, other '$' rfl, other '!' rfl,
            other '-' rfl]
          rfl
      | cons d rest => simp [isSpecial, Text.isDigits, notDigit]

theorem Variables.get?_insert_self (vars : Variables) (name value : Text) :
    (vars.insert name value).get? name = some value := by
  obtain ⟨entries⟩ := vars
  show (insertEntry name value entries).lookup name = some value
  induction entries with
  | nil => simp [insertEntry]
  | cons entry entries ih =>
      unfold insertEntry
      split
      · simp
      · next other =>
        have different : (name == entry.1) = false :=
          beq_eq_false_iff_ne.2 fun same => other (beq_iff_eq.2 same.symm)
        rw [List.lookup_cons, different]
        exact ih

namespace Session

variable {World : Type} (host : Host World) (s : Session World)

theorem lookup_of_isName {name : Text} (h : Text.isName name = true) :
    s.lookup host name = (s.shell.vars.get? name).or
      ((Dynamic.ofName? name).map fun which => Text.ofInt (host.dynamic s.world which)) := by
  rw [lookup, isSpecial_of_isName h, if_neg Bool.false_ne_true]

@[simp] theorem shell_afterRead (name : Text) : (s.afterRead host name).shell = s.shell := by
  unfold afterRead
  split <;> rfl

theorem afterRead_of_asked?_none {name : Text} (h : s.asked? name = none) : s.afterRead host name = s := by
  rw [afterRead, h]

/-- The world is not asked for what is in the table. -/
theorem afterRead_of_get? {name value : Text} (h : s.shell.vars.get? name = some value) :
    s.afterRead host name = s := by
  apply afterRead_of_asked?_none
  rw [asked?, h, Option.isSome_some, Bool.or_true, if_pos rfl]

/-- What a variable was set to is read back, and reading it changes nothing. -/
theorem store_read_write {name : Text} (h : Text.isName name = true) (value : Text) :
    (store host).read name ((store host).write name value s) =
      (some value, (store host).write name value s) := by
  have stored : ((store host).write name value s).shell.vars.get? name = some value :=
    Variables.get?_insert_self s.shell.vars name value
  have found : ((store host).write name value s).lookup host name = some value := by
    rw [lookup_of_isName host _ h, stored, Option.some_or]
  exact Prod.ext found (afterRead_of_get? host _ stored)

end Session

/-! ### The simplest host -/

/-- A host without files, whose commands write nothing. -/
def Host.idle : Host Unit where
  files _ := .none
  home _ _ := none
  dynamic _ _ := 0
  run _ _ world := (.ok ⟨[], 0⟩, world)
  start _ _ world := (.ok ⟨[], [], []⟩, world)
  close _ world := world
  wait _ world := (false, world)

/-- A session in which nothing is set and all options are off. -/
def Session.blank : Session Unit where
  shell :=
    { vars := .empty, positional := [], name := [], options := {}, globbing := {}, cwd := ['/']
      lastStatus := 0, lastBackground := none, pid := 0, children := [], pipes := [] }
  world := ()

/-- A session in which `x` is set, and nothing else. -/
def Session.holding (value : Text) : Session Unit :=
  Session.blank.onShell (Shell.define ['x'] value)

end ShellWord
