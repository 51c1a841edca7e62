import StructLayout.OrderedMap

/-! Trees of files and directories. -/

namespace StructLayout

/-- A file has no text if its bytes are none. The entries of a directory are in the order of their
names. -/
inductive FileTree where
  | file (text : Option String)
  | directory (entries : List (String × FileTree))
  deriving Repr, Inhabited

namespace FileTree

def entries : FileTree → List (String × FileTree)
  | .file _ => []
  | .directory entries => entries

def isDirectory : FileTree → Bool
  | .file _ => false
  | .directory _ => true

/-- What stands at the end of a way down the tree. -/
def at? : List String → FileTree → Option FileTree
  | [], t => some t
  | name :: names, t => (t.entries.lookup name).bind (at? names)

/-- Puts a tree at the end of a way down, with the directories on the way. -/
def put (new : FileTree) : List String → FileTree → FileTree
  | [], _ => new
  | name :: names, t =>
    let inner := (t.entries.lookup name).getD (.directory [])
    .directory (OrderedMap.insert compare name (put new names inner) t.entries)

/-- Removes what stands at the end of a way down. -/
def erase : List String → FileTree → FileTree
  | [], t => t
  | [name], t => .directory (t.entries.filter fun e => e.1 != name)
  | name :: names, t =>
    .directory (t.entries.map fun e => if e.1 = name then (name, erase names e.2) else e)

mutual

/-- All files with the ways that lead to them, starting from `way`. -/
def filesFrom (way : List String) : FileTree → List (List String × Option String)
  | .file text => [(way, text)]
  | .directory entries => entriesFrom way entries

def entriesFrom (way : List String) :
    List (String × FileTree) → List (List String × Option String)
  | [] => []
  | (name, t) :: rest => filesFrom (way ++ [name]) t ++ entriesFrom way rest

end

def files (t : FileTree) : List (List String × Option String) :=
  t.filesFrom []

end FileTree

end StructLayout
