import StructLayout.Text.Bytes

/-! Positions in a set of files. Each file takes one position more than it has bytes, and the files
of a set follow one another, so a position belongs to one file at most. Zero is no position. -/

namespace StructLayout

/-- A file, line and column; lines and columns count from one, columns in bytes. -/
structure Position where
  file : String
  offset : Nat
  line : Nat
  column : Nat
  deriving DecidableEq, Repr

def Position.render (p : Position) : String :=
  if p.file.isEmpty then s!"{p.line}:{p.column}" else s!"{p.file}:{p.line}:{p.column}"

/-- Where the lines behind the first one start in a text that starts at a byte. -/
def lineStartsFrom (offset : Nat) : List Char → List Nat
  | [] => []
  | c :: cs =>
    let next := offset + c.utf8Size
    if c = '\n' then next :: lineStartsFrom next cs else lineStartsFrom next cs

/-- A file of a set. -/
structure FileInfo where
  name : String
  base : Nat
  size : Nat
  lineStarts : List Nat
  deriving DecidableEq, Repr

namespace FileInfo

def ofText (name : String) (base : Nat) (text : List Char) : FileInfo where
  name := name
  base := base
  size := Text.byteLen text
  lineStarts := 0 :: lineStartsFrom 0 text

/-- The position of a byte of the file, of its end for bytes behind it. -/
def pos (f : FileInfo) (offset : Nat) : Nat :=
  f.base + min offset f.size

/-- The byte at a position, the nearest one for positions outside. -/
def offset (f : FileInfo) (pos : Nat) : Nat :=
  min (pos - f.base) f.size

def contains (f : FileInfo) (pos : Nat) : Bool :=
  f.base ≤ pos && pos ≤ f.base + f.size

/-- Line and column of a byte: the last line that starts at or before it. -/
def lineColumn (f : FileInfo) (offset : Nat) : Nat × Nat :=
  let starts := f.lineStarts.takeWhile (· ≤ offset)
  (starts.length, offset - starts.getLast?.getD 0 + 1)

def position (f : FileInfo) (pos : Nat) : Position :=
  let offset := f.offset pos
  let lineColumn := f.lineColumn offset
  { file := f.name, offset, line := lineColumn.1, column := lineColumn.2 }

end FileInfo

/-- Files in the order of their positions, and the next free position. -/
structure FileSet where
  next : Nat
  files : List FileInfo
  deriving DecidableEq, Repr

namespace FileSet

/-- A set without files whose positions start at `base`, or at one. -/
def startingAt (base : Nat) : FileSet :=
  { next := max base 1, files := [] }

def empty : FileSet :=
  startingAt 1

/-- The file that is added next. -/
def nextFile (fs : FileSet) (name : String) (text : List Char) : FileInfo :=
  .ofText name fs.next text

def add (fs : FileSet) (name : String) (text : List Char) : FileSet :=
  { next := fs.next + Text.byteLen text + 1, files := fs.files ++ [fs.nextFile name text] }

/-- The file that a position belongs to: the last one that starts at or before it, if it reaches
that far. -/
def file? (fs : FileSet) (pos : Nat) : Option FileInfo :=
  if pos = 0 then none
  else (fs.files.takeWhile fun f => f.base ≤ pos).getLast?.filter (·.contains pos)

def contains (fs : FileSet) (pos : Nat) : Bool :=
  (fs.file? pos).isSome

def position? (fs : FileSet) (pos : Nat) : Option Position :=
  (fs.file? pos).map (·.position pos)

end FileSet

end StructLayout
