import Lift6502.Files.Path
import Lift6502.Machine.Address

/-!
# Trees of files

A tree of files below one directory, kept in memory. Relative paths are followed component by component
as a file system does it: every component but the last has to be a directory that is there, and a pair
of dots goes one directory up but never out of the tree. Absolute paths lead out of it.
-/

namespace Lift6502

structure FileTree where
  /-- The content of each file, by its path below the root. -/
  files : NameMap ByteArray := ∅
  /-- The directories below the root. -/
  directories : NameSet := ∅

namespace FileTree

/-- A place below the root, its innermost component first. -/
abbrev Place := List (List Char)

/-- The path of a place below the root. -/
def Place.path (place : Place) : String :=
  String.intercalate "/" (place.reverse.map String.ofList)

def hasDirectory (tree : FileTree) (place : Place) : Bool :=
  place.isEmpty || tree.directories.contains place.path

/-- Follows components through directories that are there. -/
def follow? (tree : FileTree) (place : Place) : List (List Char) → Option Place
  | [] => some place
  | ['.', '.'] :: rest =>
    match place with
    | [] => none
    | _ :: parent => follow? tree parent rest
  | component :: rest =>
    if tree.hasDirectory (component :: place) then follow? tree (component :: place) rest else none

/-- The place that a path gives to a file. A path that ends in a slash or in dots names a directory. -/
def filePlace? (tree : FileTree) (path : String) : Option Place := do
  let chars := path.toList
  guard !Path.isAbsolute chars
  let name ← (chars.splitOn '/').getLast?
  guard (name != [] && name != ['.'] && name != ['.', '.'])
  let parent ← tree.follow? [] (Path.components chars).dropLast
  return name :: parent

/-- The content of a file. -/
def read? (tree : FileTree) (path : String) : Option ByteArray := do
  let place ← tree.filePlace? path
  tree.files[place.path]?

/-- The content of a file as text, if it is text. -/
def readText? (tree : FileTree) (path : String) : Option String := do
  String.fromUTF8? (← tree.read? path)

/-- Writes a file; fails if its directory is missing or if a directory has its path. -/
def write? (tree : FileTree) (path : String) (content : ByteArray) : Option FileTree := do
  let place ← tree.filePlace? path
  guard !tree.hasDirectory place
  return { tree with files := tree.files.insert place.path content }

/-- Follows components and makes the directories that are missing. -/
def makeAll? (tree : FileTree) (place : Place) : List (List Char) → Option FileTree
  | [] => some tree
  | ['.', '.'] :: rest =>
    match place with
    | [] => none
    | _ :: parent => makeAll? tree parent rest
  | component :: rest =>
    let inner := component :: place
    if tree.files.contains (Place.path inner) then none
    else makeAll? { tree with directories := tree.directories.insert (Place.path inner) } inner rest

/-- Makes a directory and all directories above it; fails if a file is in the way. -/
def makeDirectories? (tree : FileTree) (path : String) : Option FileTree :=
  if Path.isAbsolute path.toList then none else tree.makeAll? [] (Path.components path.toList)

/-- Adds a file and the directories above it. -/
def add (tree : FileTree) (path : String) (content : ByteArray) : FileTree :=
  let parent := (Path.components path.toList).dropLast
  let tree := (tree.makeAll? [] parent).getD tree
  (tree.write? path content).getD tree

/-- The files that are new or different, compared with an earlier tree. -/
def changedSince (tree earlier : FileTree) : List (String × ByteArray) :=
  tree.files.toList.filter fun (path, content) =>
    (earlier.files[path]?.map (·.data)) != some content.data

end FileTree

end Lift6502
