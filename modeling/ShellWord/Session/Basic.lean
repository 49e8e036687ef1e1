import ShellWord.Expand.Error
import ShellWord.Files.System
import ShellWord.Regex.Reader
import ShellWord.Run
import ShellWord.Session.Options
import ShellWord.Session.Variables
import ShellWord.Word.Basic

/-!
# Sessions

A session is the state of a shell between commands, together with the world around it.  What the shell
cannot do by itself is asked of a host: running commands, starting the processes of substitutions,
waiting for them, looking at files, users and clocks, drawing random numbers, and matching regular
expressions.  The host answers from the state of the world, and may change it; so two reads of a clock
or of a random number need not agree.

## Main definitions

* `Shell`: the state of a shell
* `Host`: what the world does for a shell
* `Session`: a shell in its world
* `Expand`: computations of a session that may fail
-/

namespace ShellWord

/-- The state of a shell. -/
structure Shell where
  vars : Variables
  /-- `$1`, `$2`, … -/
  positional : List Text
  /-- `$0` -/
  name : Text
  options : Options
  globbing : Globbing
  /-- the directory that patterns start from and commands run in -/
  cwd : Text
  /-- `$?` -/
  lastStatus : Int
  /-- `$!` -/
  lastBackground : Option Nat
  /-- `$$` -/
  pid : Nat
  /-- the processes of substitutions that have not been waited for -/
  children : List Nat
  /-- the descriptors that the paths of these substitutions name -/
  pipes : List Nat
  deriving DecidableEq, Repr

/-- What a command wrote, and its exit status. -/
structure Output where
  text : Text
  status : Int
  deriving DecidableEq, Repr

/-- The process substitutions of a command that were started: a path for each of them, in order, and
the processes and descriptors behind the paths. -/
structure Started where
  paths : List Text
  children : List Nat
  pipes : List Nat
  deriving DecidableEq, Repr

/-- The variables that have a value of their own while they are unset. -/
inductive Dynamic where
  | random
  | seconds
  | epochSeconds
  deriving DecidableEq, Repr

/-- What the world does for a shell. -/
structure Host (World : Type) where
  /-- the files that can be seen -/
  files : World → FileSystem
  /-- the home directory of a user, or of the user who runs the shell -/
  home : World → Option Text → Option Text
  /-- what compiles regular expressions -/
  engine : Engine := Regex.engine
  /-- the value that a variable that changes by itself is read with -/
  dynamic : World → Dynamic → Int
  /-- the world after such a variable was read -/
  advance : Dynamic → World → World := fun _ world => world
  /-- run a command and wait for its output -/
  run : Shell → Text → World → Except ExpandError Output × World
  /-- start the process substitutions of a command -/
  start : Shell → Command → World → Except ExpandError Started × World
  /-- close descriptors -/
  close : List Nat → World → World
  /-- wait for a process; it may be none of ours -/
  wait : Nat → World → Bool × World

/-- A shell in its world. -/
structure Session (World : Type) where
  shell : Shell
  world : World

/-- A computation of a session.  What happened before an error stays. -/
abbrev Expand (World : Type) := Run (Session World) ExpandError

end ShellWord
