import ShellWord.Files.System
import ShellWord.Pattern.Basic
import ShellWord.Pattern.Escape
import ShellWord.Regex.Reader

/-!
# Pathname expansion

A pattern is cut at its slashes, and every part is matched against the names in one directory.  Parts
without active characters are names.  The results are sorted, and keep the form of the pattern:
relative or absolute, and with a slash at the end if the pattern has one, which then matches
directories only.  A name that begins with a dot is matched only by a part that begins with a dot,
unless hidden names are asked for.

## Main definitions

* `Globber`: a file system and the directory and options to expand in
* `Globber.expand`: the paths that a pattern matches
-/

namespace ShellWord

/-- Where and how patterns are expanded. -/
structure Globber where
  files : FileSystem
  /-- what compiles the expressions of patterns -/
  engine : Engine := Regex.engine
  /-- the directory that relative patterns start from -/
  cwd : Text
  /-- hidden names are matched like any others -/
  dotglob : Bool
  /-- extended groups are recognised -/
  extglob : Bool

/-- The order of texts by code points. -/
def Text.le : Text → Text → Bool
  | [], _ => true
  | _ :: _, [] => false
  | a :: s, b :: t => if a == b then Text.le s t else a < b

namespace Globber

/-- The part of a pattern has active characters. -/
def isActive (g : Globber) (part : Text) : Bool :=
  Pattern.isActive g.extglob part

/-- A name after the path found so far. -/
def extend (path name : Text) : Text :=
  if path.isEmpty then name
  else if path == ['/'] then '/' :: name
  else path ++ '/' :: name

/-- The part of a pattern begins with a dot, so that it matches hidden names. -/
def beginsWithDot : Text → Bool
  | '.' :: _ => true
  | '\\' :: '.' :: _ => true
  | _ => false

/-- The names of a directory that a part of a pattern matches. -/
def matching (g : Globber) (dir part : Text) : List Text :=
  match Pattern.compile? g.engine g.extglob part, g.files.entries dir with
  | some pattern, some names =>
    names.filter fun name =>
      (name.head? != some '.' || beginsWithDot part || g.dotglob) && pattern.accepts name
  | _, _ => []

/-- The names below a directory that the first part of a pattern leads to. -/
def candidates (g : Globber) (dir part : Text) : List Text :=
  if g.isActive part then g.matching dir part else [Pattern.unescape part]

/-- The paths that the parts of a pattern match below the directory `dir`, which was found as `found`.
The last part matches what is there, directories only if asked for; the parts before it match
directories. -/
def expandParts (g : Globber) (dirsOnly : Bool) (dir found : Text) : List Text → List Text
  | [] => []
  | part :: parts =>
    (g.candidates dir part).flatMap fun name =>
      let path := Path.join dir name
      let result := extend found name
      if parts.isEmpty then
        if dirsOnly then
          if g.files.isDir path then [result ++ ['/']] else []
        else
          if g.files.present path then [result] else []
      else
        if g.files.isDir path then g.expandParts dirsOnly path result parts else []

/-- The parts of a pattern between its slashes. -/
def parts (pattern : Text) : List Text :=
  (Text.splitAt (· == '/') pattern).filter fun part => !part.isEmpty

/-- The paths that a pattern matches.  A pattern without active parts matches the path it denotes, if
that leads to something. -/
def expand (g : Globber) (pattern : Text) : List Text :=
  let parts := parts pattern
  let names := parts.takeWhile fun part => !g.isActive part
  match parts.dropWhile fun part => !g.isActive part with
  | [] =>
    let path := Pattern.unescape pattern
    if g.files.reachable (Path.join g.cwd path) then [path] else []
  | active =>
    let base := List.intercalate ['/'] (names.map Pattern.unescape)
    let found := if Path.isAbsolute pattern then '/' :: base else base
    let dir :=
      if Path.isAbsolute pattern then found
      else if base.isEmpty then g.cwd
      else Path.join g.cwd base
    let dirsOnly := pattern.length > 1 && Path.endsWithSlash pattern
    (g.expandParts dirsOnly dir found active).mergeSort Text.le

end Globber

end ShellWord
