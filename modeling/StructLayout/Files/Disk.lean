import StructLayout.Files.Tree
import StructLayout.Path

/-! File trees that are used by path. -/

namespace StructLayout

inductive FileError where
  | missing
  | notDirectory
  | isDirectory
  | nameTooLong
  | notText
  deriving DecidableEq, Repr

def FileError.message : FileError → String
  | .missing => "No such file or directory (os error 2)"
  | .notDirectory => "Not a directory (os error 20)"
  | .isDirectory => "Is a directory (os error 21)"
  | .nameTooLong => "File name too long (os error 36)"
  | .notText => "stream did not contain valid UTF-8"

/-- A tree, the path of its root, and the directory that relative paths start from. -/
structure Disk where
  root : String
  tree : FileTree
  current : List String := []
  deriving Repr

namespace Disk

/-- The path of a way down the tree. -/
def path (d : Disk) (way : List String) : String :=
  if way.isEmpty && d.root.isEmpty then "/"
  else d.root ++ String.join (way.map fun name => "/" ++ name)

/-- Where a path starts, and the names that it goes through. -/
def start? (d : Disk) (path : String) : Option (List String × List String) :=
  let top := d.root.toList ++ ['/']
  if top.isPrefixOf path.toList then
    some ([], Path.names (String.ofList (path.toList.drop d.root.toList.length)))
  else if path = d.root then some ([], [])
  else if Path.isAbsolute path then none
  else some (d.current, Path.names path)

/-- The number of bytes that a name can have. -/
def nameLimit : Nat := 255

/-- Goes through some names from a place; two dots go up. Only directories are known above the root,
and none if that is the root of all. -/
def walk (d : Disk) (here : List String) : List String → Except FileError (List String)
  | [] => if (d.tree.at? here).isSome then .ok here else .error .missing
  | name :: names =>
    match d.tree.at? here with
    | none => .error .missing
    | some (.file _) => .error .notDirectory
    | some (.directory _) =>
      if name = ".." then
        if here.isEmpty && !d.root.isEmpty then
          .error (if names.all (· == "..") then .isDirectory else .missing)
        else d.walk here.dropLast names
      else if name.utf8ByteSize > nameLimit then .error .nameTooLong
      else d.walk (here ++ [name]) names

/-- The way to a file or directory that is there. A file is not found under the path of a
directory. -/
def find (d : Disk) (path : String) : Except FileError (List String) := do
  match d.start? path with
  | some (here, names) =>
    let way ← d.walk here names
    match d.tree.at? way with
    | some (.file _) => if Path.isForDirectory path then throw .notDirectory else return way
    | _ => return way
  | none => throw .missing

/-- The text of a file. -/
def read (d : Disk) (path : String) : Except FileError String := do
  match d.tree.at? (← d.find path) with
  | some (.file (some text)) => return text
  | some (.file none) => throw .notText
  | some (.directory _) => throw .isDirectory
  | none => throw .missing

/-- Writes a file into a directory that is there. -/
def write (d : Disk) (path text : String) : Except FileError Disk := do
  match Path.fileName? path with
  | none => throw .isDirectory
  | some name =>
    let way := (← d.find ((Path.parent? path).getD "")) ++ [name]
    if name.utf8ByteSize > nameLimit then throw .nameTooLong
    match d.tree.at? way with
    | some (.directory _) => throw .isDirectory
    | _ => return { d with tree := FileTree.put (.file (some text)) way d.tree }

end Disk

end StructLayout
