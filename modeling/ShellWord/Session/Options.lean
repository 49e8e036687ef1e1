import ShellWord.Text.Basic

/-!
# Options

## Main definitions

* `Options`: how commands are expanded
* `Globbing`: how patterns are matched against files
-/

namespace ShellWord

/-- How commands are expanded. -/
structure Options where
  /-- patterns are not matched against files -/
  noglob : Bool := false
  /-- unset parameters are errors -/
  nounset : Bool := false
  /-- expansions that are not well formed are reported -/
  debug : Bool := false
  deriving DecidableEq, Repr

/-- How patterns are matched against files. -/
structure Globbing where
  /-- a pattern without matches is dropped -/
  nullglob : Bool := false
  /-- extended groups are recognised -/
  extglob : Bool := false
  /-- hidden names are matched like any others -/
  dotglob : Bool := false
  /-- a pattern without matches is an error -/
  failglob : Bool := false
  deriving DecidableEq, Repr

/-- The letters of the options that are on, as `$-` shows them. -/
def Options.flags (options : Options) : Text :=
  (if options.noglob then ['f'] else []) ++ (if options.nounset then ['u'] else [])

end ShellWord
