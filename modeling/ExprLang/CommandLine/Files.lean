import ExprLang.Session

/-!
# Files

The files around the program lie in folders, and a path leads to one of them, name by name, from
the root or from the working folder (`FileTree.walk`). Each name is looked up in the folder that
the names before it lead to, so that the first name that fails decides the fault: a name of
nothing there, or any name below a file, an empty one at the end of the path included. What is
read of the place at the end are the lines of a file (`FileTree.lines`).
-/

namespace ExprLang

/-- The names on the way from the root to a file or a folder. -/
abbrev Place := List String

/-- The files there are, with their texts, and the working folder. Folders are what they lie in. -/
structure FileTree where
  files : List (Place × String)
  here : Place

namespace FileTree

/-- The text of the file at a place. -/
def file? (tree : FileTree) (place : Place) : Option String :=
  tree.files.lookup place

/-- Whether there is a file or a folder at a place. -/
def has (tree : FileTree) (place : Place) : Bool :=
  (tree.here :: tree.files.map (·.1)).any place.isPrefixOf

/-- The tree with a file put at a place, over any that was there. -/
def put (tree : FileTree) (place : Place) (text : String) : FileTree :=
  { tree with files := (place, text) :: tree.files }

/-- The longest name of a file, in bytes. -/
def maxName : Nat := 255

/-- The longest path, in bytes. -/
def maxPath : Nat := 4095

/-- The place that names lead to from a place. An empty name and a point stay where they are, and
two points lead to the folder around. -/
def walk (tree : FileTree) (place : Place) : List String → Except ReadFault Place
  | [] => .ok place
  | name :: names =>
    if (tree.file? place).isSome then .error .notFolder
    else if name = "" ∨ name = "." then tree.walk place names
    else if name = ".." then tree.walk place.dropLast names
    else if maxName < name.utf8ByteSize then .error .nameTooLong
    else if tree.has (place ++ [name]) then tree.walk (place ++ [name]) names
    else .error .missing

/-- The place that a path leads to. -/
def resolve (tree : FileTree) (path : String) : Except ReadFault Place :=
  if path.contains '\x00' then .error .nullInName
  else if path.isEmpty then .error .missing
  else if maxPath < path.utf8ByteSize then .error .nameTooLong
  else tree.walk (if path.startsWith "/" then [] else tree.here) (path.splitOn "/")

/-- The lines that can be read under a path. -/
def lines (tree : FileTree) (path : String) : LineSource :=
  match tree.resolve path with
  | .error fault => .unreadable fault
  | .ok place =>
    match tree.file? place with
    | none => .unreadable .isFolder
    | some text => .ofText text

end FileTree

end ExprLang
