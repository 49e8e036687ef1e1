import ShellWord.Files.System

/-!
# File trees

A file system held in memory: directories, files with their contents, and symbolic links.  A place in
the tree is given by the names that lead to it, the innermost first.

A path is followed name by name.  What a name is looked up in has to be a directory, `.` and empty
names stay where they are, `..` goes one directory up, and a link goes on with the names of its target.
A path that meets more than `maxLinks` links leads nowhere.

## Main definitions

* `FileTree`: the files
* `FileTree.follow`: the place that a path leads to
* `FileTree.system`: the tree as a file system
* `FileTree.add`, `FileTree.addDirectory`: building a tree
* `FileTree.read?`, `FileTree.write?`: contents of files
-/

namespace ShellWord

/-- What stands at a place of a tree. -/
inductive FileNode where
  | file (content : Text)
  | directory
  | link (target : Text)
  deriving DecidableEq, Repr

/-- A place in a tree: the names that lead to it from the root, the innermost first. -/
abbrev Place := List Text

/-- The files below the root. -/
structure FileTree where
  nodes : List (Place × FileNode)
  deriving DecidableEq, Repr

namespace FileTree

/-- Only the root. -/
def empty : FileTree := ⟨[]⟩

/-- What stands at a place. -/
def node? (tree : FileTree) (place : Place) : Option FileNode :=
  if place.isEmpty then some .directory else tree.nodes.lookup place

/-- There is a directory at the place. -/
def isDirectory (tree : FileTree) (place : Place) : Bool :=
  tree.node? place == some .directory

/-- The names in a directory. -/
def namesIn (tree : FileTree) (place : Place) : List Text :=
  tree.nodes.filterMap fun
    | (name :: parent, _) => if parent == place then some name else none
    | ([], _) => none

/-! ### Following paths -/

/-- The names of a path. -/
def names (path : Text) : List Text :=
  Text.splitAt (· == '/') path

/-- How many links a path may meet. -/
def maxLinks : Nat := 40

/-- Follow names from a place on.  With `last`, a link that the last name denotes is followed too. -/
def walk (tree : FileTree) (last : Bool) (links : Nat) (here : Place) (path : List Text) :
    Option Place :=
  match path with
  | [] => some here
  | name :: rest =>
    if !tree.isDirectory here then none
    else if name == [] || name == ['.'] then tree.walk last links here rest
    else if name == ['.', '.'] then tree.walk last links here.tail rest
    else
      match tree.node? (name :: here) with
      | none => none
      | some (.link target) =>
        if rest.isEmpty && !last then some (name :: here)
        else
          match links with
          | 0 => none
          | links + 1 =>
            if Path.isAbsolute target then tree.walk last links [] (names target ++ rest)
            else tree.walk last links here (names target ++ rest)
      | some _ => tree.walk last links (name :: here) rest
termination_by (links, path.length)
decreasing_by
  · exact Prod.Lex.right _ (Nat.lt_succ_self _)
  · exact Prod.Lex.right _ (Nat.lt_succ_self _)
  · exact Prod.Lex.left _ _ (Nat.lt_succ_self _)
  · exact Prod.Lex.left _ _ (Nat.lt_succ_self _)
  · exact Prod.Lex.right _ (Nat.lt_succ_self _)

/-- The place that an absolute path leads to. -/
def follow (tree : FileTree) (path : Text) : Option Place :=
  if Path.isAbsolute path then tree.walk true maxLinks [] (names path) else none

/-- The place of an absolute path itself, which may be a link. -/
def locate (tree : FileTree) (path : Text) : Option Place :=
  if Path.isAbsolute path then tree.walk false maxLinks [] (names path) else none

/-- The tree as a file system. -/
def system (tree : FileTree) : FileSystem where
  entries path :=
    match tree.follow path with
    | some place => if tree.isDirectory place then some (tree.namesIn place) else none
    | none => none
  isDir path := (tree.follow path).any tree.isDirectory
  reachable path := (tree.follow path).isSome
  present path := (tree.locate path).isSome

/-! ### Building and changing a tree -/

/-- Put a node at a place; what stood there is replaced. -/
def put (tree : FileTree) (place : Place) (node : FileNode) : FileTree :=
  ⟨(tree.nodes.filter fun entry => !(entry.1 == place)) ++ [(place, node)]⟩

/-- Make a directory at a place, with the directories around it; what is there already stays. -/
def addDirectory (tree : FileTree) : Place → FileTree
  | [] => tree
  | name :: parent =>
    let tree := tree.addDirectory parent
    if (tree.node? (name :: parent)).isSome then tree
    else tree.put (name :: parent) .directory

/-- Put a node at a place, with the directories around it. -/
def add (tree : FileTree) (place : Place) (node : FileNode) : FileTree :=
  (tree.addDirectory place.tail).put place node

/-- The place that an absolute path names, without following links. -/
def placeOf (path : Text) : Place :=
  ((names path).filter fun name => !(name == [])).reverse

/-- The content of the file that a path leads to. -/
def read? (tree : FileTree) (path : Text) : Option Text :=
  match (tree.follow path).bind tree.node? with
  | some (.file content) => some content
  | _ => none

/-- Give a file new content.  A file that is missing is made, in a directory that is there. -/
def write? (tree : FileTree) (path content : Text) : Option FileTree :=
  match tree.follow path with
  | some place =>
    match tree.node? place with
    | some (.file _) => some (tree.put place (.file content))
    | _ => none
  | none =>
    match (names path).reverse with
    | [] => none
    | name :: parents =>
      if name.isEmpty then none
      else
        match tree.walk true maxLinks [] parents.reverse with
        | some place =>
          if tree.isDirectory place && (tree.node? (name :: place)).isNone then
            some (tree.put (name :: place) (.file content))
          else none
        | none => none

end FileTree

end ShellWord
