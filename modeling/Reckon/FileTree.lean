/-!
# File trees

The files and directories that a command can see, by their paths from the root of the tree, and the
working directory.  A path is a list of names.  A directory exists if it is listed, if something listed
lies in it, or if the working directory is it or lies in it.
-/

namespace Reckon

/-- The names on the way to a file or directory. -/
abbrev Path := List String

/-- Files with their texts, and directories. -/
structure FileTree where
  files : List (Path × String) := []
  directories : List Path := []
  /-- The working directory. -/
  here : Path := []

namespace FileTree

/-- The names in a text with slashes between them. -/
def names (text : String) : Path :=
  text.splitOn "/"

/-- One step along a path: `.` stays and `..` goes back, at the root to the root itself. -/
def step (path : Path) (name : String) : Path :=
  if name = "" ∨ name = "." then path
  else if name = ".." then path.dropLast
  else path ++ [name]

/-- Where a text starts from: the root if it begins with a slash, else the working directory. -/
def base (t : FileTree) (text : String) : Path :=
  if text.startsWith "/" then [] else t.here

/-- The path that a text means, without looking at what exists. -/
def resolve (t : FileTree) (text : String) : Path :=
  (names text).foldl step (t.base text)

/-- The text of a file. -/
def file? (t : FileTree) (p : Path) : Option String :=
  (t.files.find? fun f => f.1 == p).map Prod.snd

/-- There is a directory here. -/
def isDirectory (t : FileTree) (p : Path) : Bool :=
  p.isPrefixOf t.here || t.directories.any (fun d => p.isPrefixOf d)
    || t.files.any fun f => p.isPrefixOf f.1 && p != f.1

/-- There is something here. -/
def contains (t : FileTree) (p : Path) : Bool :=
  (t.file? p).isSome || t.isDirectory p

/-- The same tree with a file, in place of one that was there. -/
def write (t : FileTree) (p : Path) (text : String) : FileTree :=
  { t with files := (p, text) :: t.files.filter fun f => f.1 != p }

/-- Goes along names from a directory; every step has to start from one. -/
def walk? (t : FileTree) (dir : Path) : List String → Option Path
  | [] => some dir
  | name :: rest => if t.isDirectory dir then t.walk? (step dir name) rest else none

/-- The text of the file that a text names, if there is one; nothing may follow the file's name. -/
def read? (t : FileTree) (text : String) : Option String :=
  if text = "" then none else (t.walk? (t.base text) (names text)).bind t.file?

/-- The text of the file that a text names, whatever slashes and dots it has too many of. -/
def readTidy? (t : FileTree) (text : String) : Option String :=
  let kept := (names text).filter fun name => name != "" && name != "."
  (t.walk? (t.base text) kept).bind t.file?

/-- The nearest place with something called `name` in a directory, whose names are given the last one
first, or in those around it. -/
def findUpwardFrom? (t : FileTree) (name : String) : List String → Option Path
  | [] => if t.contains [name] then some [name] else none
  | d :: outer =>
    let p := outer.reverse ++ [d, name]
    if t.contains p then some p else t.findUpwardFrom? name outer

/-- The path of a file called `name` in a directory, or in the nearest directory around it that has
something of that name. -/
def findUpward? (t : FileTree) (name : String) (dir : Path) : Option Path :=
  t.findUpwardFrom? name dir.reverse

end FileTree

end Reckon
