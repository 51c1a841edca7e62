import StructLayout.Text.Blank

/-! Paths with slashes. Repeated slashes and single dots inside a path name nothing. -/

namespace StructLayout.Path

/-- A path is a root or a leading dot, and pieces between slashes. -/
structure Parts where
  head : List Char
  pieces : List (List Char)
  deriving DecidableEq, Repr

/-- A piece that names nothing. -/
def isVoid (piece : List Char) : Bool :=
  piece.isEmpty || piece == ['.']

/-- Pieces without the void ones at their end. -/
def trimPieces (pieces : List (List Char)) : List (List Char) :=
  (pieces.reverse.dropWhile isVoid).reverse

def parts (path : String) : Parts :=
  let pieces := fun cs => trimPieces (Text.split (· == '/') cs)
  match path.toList with
  | '/' :: rest => ⟨['/'], pieces rest⟩
  | ['.'] => ⟨['.'], []⟩
  | '.' :: '/' :: rest => ⟨['.'], pieces ('/' :: rest)⟩
  | cs => ⟨[], pieces cs⟩

def Parts.text (p : Parts) : String :=
  String.ofList (p.head ++ ['/'].intercalate p.pieces)

/-- The path without its last piece; none for a root and for the empty path. -/
def parent? (path : String) : Option String :=
  let p := parts path
  if p.pieces.isEmpty then if p.head = ['.'] then some "" else none
  else some { p with pieces := trimPieces p.pieces.dropLast }.text

/-- The last piece, unless it goes up. -/
def fileName? (path : String) : Option String :=
  ((parts path).pieces.getLast?.filter (· != ['.', '.'])).map String.ofList

/-- A name cut at its last dot; a name with no other dot than a leading one is not cut. -/
def cutExtension (name : List Char) : List Char × Option (List Char) :=
  let ending := (name.reverse.takeWhile (· != '.')).reverse
  let stem := name.take (name.length - ending.length - 1)
  if stem.isEmpty then (name, none) else (stem, some ending)

def stem? (path : String) : Option String :=
  (fileName? path).map fun name => String.ofList (cutExtension name.toList).1

def extension? (path : String) : Option String :=
  (fileName? path).bind fun name => (cutExtension name.toList).2.map String.ofList

def isAbsolute (path : String) : Bool :=
  path.toList.head? = some '/'

/-- A path below another; an absolute path stands for itself. -/
def join (base path : String) : String :=
  if isAbsolute path || base.isEmpty then path
  else if base.toList.getLast? = some '/' then base ++ path
  else base ++ "/" ++ path

/-- The path with another last piece. -/
def withFileName (path name : String) : String :=
  match fileName? path with
  | some _ => join ((parent? path).getD path) name
  | none => join path name

/-- The names that a path goes through. -/
def names (path : String) : List String :=
  ((parts path).pieces.filter fun piece => !isVoid piece).map String.ofList

/-- A path that ends in a slash or in a single dot stands for a directory. -/
def isForDirectory (path : String) : Bool :=
  (Text.split (· == '/') path.toList).getLast?.any isVoid

end StructLayout.Path
