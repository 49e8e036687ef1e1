import ShellWord.Files.Tree
import ShellWord.Session.Basic
import ShellWord.Text.Utf8

/-!
# Machines

A machine is a world held in memory: files, the standard input and output of the process that runs on
it, and the pipes of process substitutions.  Input and output are bytes.

## Main definitions

* `SystemError`: why a program cannot be started
* `Pipe`: the pipe of a process substitution
* `Machine`: the world
* `Machine.readBytes?`, `Machine.writeBytes?`: files as bytes
* `Machine.directoryError?`: why a directory cannot be entered
* `Machine.readPipe`, `Machine.writePipe`: the descriptors of pipes
-/

namespace ShellWord

/-- Why a program cannot be started. -/
inductive SystemError where
  | noEntry
  | notDirectory
  | denied
  | nulByte
  deriving DecidableEq, Repr

/-- The wording of an error of the system. -/
def SystemError.message : SystemError → Text
  | .noEntry => "No such file or directory (os error 2)".toList
  | .notDirectory => "Not a directory (os error 20)".toList
  | .denied => "Permission denied (os error 13)".toList
  | .nulByte => "nul byte found in provided data".toList

/-- The pipe of a process substitution. -/
structure Pipe where
  /-- the descriptor that the shell holds -/
  descriptor : Nat
  /-- what was written and not read yet -/
  content : List UInt8
  /-- the shell and the command at the other end, which read what is written once the descriptor is
  closed; there are none when the command only writes -/
  reader : Option (Shell × Text)
  deriving DecidableEq, Repr

/-- A world held in memory. -/
structure Machine where
  files : FileTree
  /-- the directory that relative paths start from -/
  directory : Text
  /-- standard input that was not read yet -/
  input : List UInt8
  /-- what was written to standard output -/
  output : List UInt8
  /-- the processes that were started and not waited for -/
  children : List Nat
  pipes : List Pipe
  /-- how many processes were started -/
  started : Nat
  /-- seconds since the beginning of 1970 -/
  time : Nat
  /-- what the next random number is made of, below 2^31 -/
  seed : Nat
  deriving DecidableEq, Repr

/-- The file system whose relative paths start from a directory. -/
def FileSystem.startingAt (directory : Text) (files : FileSystem) : FileSystem where
  entries path := files.entries (Path.join directory path)
  isDir path := files.isDir (Path.join directory path)
  reachable path := files.reachable (Path.join directory path)
  present path := files.present (Path.join directory path)

/-- The absolute path of a place. -/
def FileTree.pathOf (place : Place) : Text :=
  if place.isEmpty then ['/'] else place.reverse.flatMap ('/' :: ·)

namespace Machine

/-- A machine at rest. -/
def ofFiles (files : FileTree) (directory : Text) (time : Nat) : Machine where
  files := files
  directory := directory
  input := []
  output := []
  children := []
  pipes := []
  started := 0
  time := time
  seed := time % 2147483648

/-- The files as pathname expansion sees them. -/
def system (m : Machine) : FileSystem :=
  m.files.system.startingAt m.directory

/-- The device that is always empty. -/
def nullDevice : Text := "/dev/null".toList

/-- The bytes of a file. -/
def readBytes? (m : Machine) (path : Text) : Option (List UInt8) :=
  if path == nullDevice then some []
  else (m.files.read? (Path.join m.directory path)).map Utf8.encode

/-- Give a file new bytes. -/
def writeBytes? (m : Machine) (path : Text) (bytes : List UInt8) : Option Machine :=
  if path == nullDevice then some m
  else
    (m.files.write? (Path.join m.directory path) (Utf8.decode bytes)).map fun files =>
      { m with files := files }

/-- Write to standard output. -/
def emit (m : Machine) (bytes : List UInt8) : Machine :=
  { m with output := m.output ++ bytes }

/-- Why a directory cannot be entered.  It is no directory if a path on the way to it leads to
something else. -/
def directoryError? (m : Machine) (path : Text) : Option SystemError :=
  let path' := Path.join m.directory path
  if path.isEmpty then some .noEntry
  else if m.files.system.isDir path' then none
  else
    let names := FileTree.names path'
    let ways := (List.range names.length).map fun n => List.intercalate ['/'] (names.take (n + 1))
    if ways.any fun way => m.files.system.reachable way && !m.files.system.isDir way then
      some .notDirectory
    else some .noEntry

/-- The path of a directory without links. -/
def physical (m : Machine) (path : Text) : Text :=
  match m.files.follow (Path.join m.directory path) with
  | some place => FileTree.pathOf place
  | none => path

/-! ### Pipes -/

/-- The lowest descriptors that are free; three are taken by the standard streams. -/
def freeDescriptors (m : Machine) : List Nat :=
  let taken := m.pipes.map Pipe.descriptor
  (List.range (taken.length + 6)).filter fun d => 3 ≤ d && !taken.contains d

/-- Read all that a pipe holds. -/
def readPipe (m : Machine) (descriptor : Nat) : List UInt8 × Machine :=
  ((m.pipes.filter (·.descriptor == descriptor)).flatMap (·.content),
    { m with
      pipes := m.pipes.map fun p =>
        if p.descriptor == descriptor then { p with content := [] } else p })

/-- Write to a pipe. -/
def writePipe (m : Machine) (descriptor : Nat) (bytes : List UInt8) : Machine :=
  { m with
    pipes := m.pipes.map fun p =>
      if p.descriptor == descriptor then { p with content := p.content ++ bytes } else p }

/-- The path of a descriptor. -/
def descriptorPath (descriptor : Nat) : Text :=
  "/dev/fd/".toList ++ Text.ofNat descriptor

end Machine

end ShellWord
