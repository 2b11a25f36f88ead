/-!
# Paths

A path is a text of components between slashes; it is absolute if a slash stands in front. Empty
components and single dots are passed over. The file name is the last component, unless that is a
pair of dots; its extension is what follows its last dot, and a dot in front of a name starts none.
-/

namespace Lift6502.Path

def isAbsolute (path : List Char) : Bool := path.head? == some '/'

/-- The components that are neither empty nor single dots. -/
def components (path : List Char) : List (List Char) :=
  (path.splitOn '/').filter fun component => component != [] && component != ['.']

/-- A path inside a directory; an absolute path stays as it is. -/
def joinChars (directory path : List Char) : List Char :=
  if isAbsolute path || directory.isEmpty then path
  else if directory.getLast? == some '/' then directory ++ path
  else directory ++ '/' :: path

/-- The file name at the end of a path. -/
def nameChars? (path : List Char) : Option (List Char) :=
  (components path).getLast?.filter (· != ['.', '.'])

/-- A file name without its extension. -/
def stemOfName (name : List Char) : List Char :=
  match (name.reverse.dropWhile (· != '.')).reverse with
  | [] | [_] => name
  | dotted => dotted.dropLast

/-- A path cut off right after the stem of its file name. -/
def cutAfterStem? (path : List Char) : Option (List Char) := do
  let name ← nameChars? path
  let trailing := trailingLength path.reverse
  let upToName := path.take (path.length - trailing)
  return upToName.take (upToName.length - (name.length - (stemOfName name).length))
where
  /-- How many characters of slashes and single dots stand after the file name. The path is given in
  reverse. -/
  trailingLength : List Char → Nat
  | '/' :: rest => trailingLength rest + 1
  | '.' :: '/' :: rest => trailingLength ('/' :: rest) + 1
  | _ => 0

/-- A path without the characters of its file name's extension. The dot in front of them stays. -/
def withoutExtensionChars (path : List Char) : List Char :=
  match nameChars? path with
  | none => path
  | some name => path.take (path.length - (name.length - (stemOfName name).length - 1))

/-- The path with its file name's extension replaced. The old extension is taken off first; if that leaves
no file name, as it leaves a pair of dots of `..x`, then no new extension is put on. -/
def withExtensionChars (path extension : List Char) : List Char :=
  let bare := withoutExtensionChars path
  match cutAfterStem? bare with
  | none => bare
  | some cut => if extension.isEmpty then cut else cut ++ '.' :: extension

def join (directory path : String) : String :=
  String.ofList (joinChars directory.toList path.toList)

/-- The file name at the end of a path, without its extension. -/
def stem? (path : String) : Option String :=
  (nameChars? path.toList).map fun name => String.ofList (stemOfName name)

def withExtension (path extension : String) : String :=
  String.ofList (withExtensionChars path.toList extension.toList)

end Lift6502.Path
