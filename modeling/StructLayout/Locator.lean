import StructLayout.Identity
import StructLayout.Path
import StructLayout.Source.Position

/-! Finding the declarations of a run: from positions to files, directories and identities. -/

namespace StructLayout

/-- The files of a package, and those of its sub-packages by directory. -/
structure Locator where
  root : FileSet
  children : List (String × FileSet)
  deriving DecidableEq, Repr

namespace Locator

def ofRoot (root : FileSet) : Locator :=
  { root, children := [] }

/-- Attaches the files of a directory, in place of others attached under it. -/
def attach (l : Locator) (location : String) (files : FileSet) : Locator :=
  if l.children.any fun c => c.1 == location then
    let put := fun c : String × FileSet => if c.1 == location then (location, files) else c
    { l with children := l.children.map put }
  else { l with children := l.children ++ [(location, files)] }

/-- A locator of a directory's own files. -/
def child? (l : Locator) (location : String) : Option Locator :=
  (l.children.lookup location).map ofRoot

def resolve? (l : Locator) (pos : Nat) : Option Position :=
  (l.root.position? pos).or (l.children.findSome? fun c => c.2.position? pos)

def identity (l : Locator) (pos : Nat) : Identity :=
  match l.resolve? pos with
  | none => .none
  | some p => if p.file.isEmpty then .ofLine p.line else .ofPlace p.file p.line p.column

/-- The directory of the file. -/
def location (l : Locator) (pos : Nat) : String :=
  ((l.resolve? pos).bind fun p => Path.parent? p.file).getD ""

def file (l : Locator) (pos : Nat) : String :=
  ((l.resolve? pos).map Position.file).getD ""

end Locator

end StructLayout
