import ShellWord.Text.Basic

/-!
# File systems

Pathname expansion asks four questions about files.  A path is a text; it is absolute, and its names
are separated by slashes.

## Main definitions

* `FileSystem`: the answers to the questions
* `Path.join`: a name below a directory
-/

namespace ShellWord

/-- What pathname expansion can ask about files. -/
structure FileSystem where
  /-- the names in a directory, without `.` and `..`; links on the way are followed -/
  entries : Text → Option (List Text)
  /-- the path leads to a directory; links are followed -/
  isDir : Text → Bool
  /-- the path leads to something; links are followed -/
  reachable : Text → Bool
  /-- there is something at the path, possibly a link that leads nowhere -/
  present : Text → Bool

/-- A file system without any files. -/
def FileSystem.none : FileSystem :=
  ⟨fun _ => Option.none, fun _ => false, fun _ => false, fun _ => false⟩

namespace Path

/-- The path begins at the root. -/
def isAbsolute (path : Text) : Bool :=
  path.head? == some '/'

/-- The path ends with a slash. -/
def endsWithSlash (path : Text) : Bool :=
  path.getLast? == some '/'

/-- A path below a directory; an absolute one is not changed. -/
def join (dir path : Text) : Text :=
  if isAbsolute path then path
  else if dir.isEmpty || endsWithSlash dir then dir ++ path
  else dir ++ '/' :: path

end Path

end ShellWord
