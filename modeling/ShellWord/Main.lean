import ShellWord.CommandLine

/-!
# The program

The outermost layer: it takes a picture of the world, runs the command line on it, and puts back what
has changed.  The files that are seen are those below the working directory, to a certain depth, and
the files that the arguments name.

## Main definitions

* `Main.snapshot`: the files below a directory
* `Main.machine`: the world that the program runs in
* `main`: the program
-/

namespace ShellWord.Main

/-- How deep below the working directory files are seen. -/
def maxDepth : Nat := 6

/-- Files that have more bytes are seen as empty. -/
def maxSize : Nat := 1000000

/-- The text of a file, or nothing if it cannot be read. -/
def content? (path : String) : IO (Option Text) := do
  try
    let bytes ← IO.FS.readBinFile path
    return some (Utf8.decode bytes.toList)
  catch _ => return none

/-- Add the files below a directory to a tree. -/
def snapshot : Nat → String → FileTree → IO FileTree
  | 0, _, tree => return tree
  | depth + 1, path, tree => do
    let mut tree := tree
    for entry in ← (← IO.FS.realPath path).readDir do
      let name := entry.path.toString
      let place := FileTree.placeOf name.toList
      try
        let info ← entry.path.symlinkMetadata
        match info.type with
        | .dir => tree ← snapshot depth name (tree.addDirectory place)
        | .symlink =>
          tree := tree.add place (.link (← IO.FS.realPath entry.path).toString.toList)
        | _ =>
          let text ← if info.byteSize.toNat ≤ maxSize then content? name else pure none
          tree := tree.add place (.file (text.getD []))
      catch _ => tree := tree.add place (.file [])
    return tree

/-- Add a file that an argument names. -/
def addNamed (path : Option Text) (tree : FileTree) : IO FileTree := do
  match path with
  | none => return tree
  | some path =>
    let name := (← IO.FS.realPath (String.ofList path)).toString
    match ← content? name with
    | some text => return tree.add (FileTree.placeOf name.toList) (.file text)
    | none => return tree

/-- The environment of the program. -/
def environment : IO (List (Text × Text)) := do
  let text ← content? "/proc/self/environ"
  return (Text.splitAt (· == '\x00') (text.getD [])).filterMap (Text.cutAt? (· == '='))

/-- The process of the program. -/
def processId : IO Nat := do
  let text ← content? "/proc/self/stat"
  return (Numeral.natural? 10 ((text.getD []).takeWhile Text.isDigit)).getD 1

/-- The time at which the program was started. -/
def startTime : IO Nat := do
  let info ← (← IO.FS.realPath "/proc/self").metadata
  return info.modified.sec.toNat

/-- The world that the program runs in. -/
def machine (arguments : List Text) : IO Machine := do
  let directory := (← IO.currentDir).toString
  let tree ← snapshot maxDepth directory
    (FileTree.empty.addDirectory (FileTree.placeOf directory.toList))
  let (tree, reads) ← match CommandLine.ofArguments? arguments with
    | some (.expand line) =>
      pure (← addNamed line.command (← addNamed line.config tree), true)
    | _ => pure (tree, false)
  let input ← if reads then (← IO.getStdin).readBinToEnd else pure ByteArray.empty
  return { Machine.ofFiles tree directory.toList (← startTime) with input := input.toList }

/-- Write the files that have changed. -/
def putBack (before after : FileTree) : IO Unit := do
  for (place, node) in after.nodes do
    match node with
    | .file text =>
      unless before.node? place == some node do
        IO.FS.writeBinFile (String.ofList (FileTree.pathOf place))
          (ByteArray.mk (Utf8.encode text).toArray)
    | _ => pure ()

end ShellWord.Main

open ShellWord in
/-- The program. -/
def main (args : List String) : IO UInt32 := do
  let arguments := args.map String.toList
  let m ← Main.machine arguments
  let ending := CommandLine.run arguments (← Main.environment) (← Main.processId) m
  Main.putBack m.files ending.machine.files
  (← IO.getStdout).write (ByteArray.mk ending.machine.output.toArray)
  (← IO.getStderr).putStr (String.ofList ending.messages)
  return UInt32.ofNat ending.status
