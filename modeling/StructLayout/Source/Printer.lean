import StructLayout.Source.File

/-! Printing files. Changed struct declarations are laid out anew, all other text stays. -/

namespace StructLayout

/-- How lines are indented: by tabs, or by a number of spaces. -/
structure PrintOptions where
  indent : Nat := 4
  useTabs : Bool := true
  deriving DecidableEq, Repr

def PrintOptions.unit (o : PrintOptions) : String :=
  if o.useTabs then "\t" else "".pushn ' ' o.indent

namespace Columns

/-- The columns that some row has a cell in. -/
def kept (rows : List (List String)) : List Nat :=
  (List.range 4).filter fun col => rows.any fun row => !(row[col]?.getD "").isEmpty

/-- The cells of a row in some columns, without the empty ones behind the last that is not. -/
def cells (columns : List Nat) (row : List String) : List String :=
  match columns.map fun col => row[col]?.getD "" with
  | [] => []
  | first :: rest => first :: (rest.reverse.dropWhile String.isEmpty).reverse

/-- Tags are as wide as the widest of them also where they end a line. -/
def tagColumn : Nat := 2

/-- What a row asks of the width of each column; the last cell of a row asks for nothing. -/
def demands : List Nat → List String → List Nat
  | col :: cols, cell :: rest =>
    (if !rest.isEmpty || col == tagColumn then cell.length else 0) :: demands cols rest
  | _, _ => []

/-- The larger of two numbers at every place that has one. -/
def maxima : List Nat → List Nat → List Nat
  | [], ys => ys
  | xs, [] => xs
  | x :: xs, y :: ys => max x y :: maxima xs ys

/-- The cells of a row, each but the last filled up to its width and one space. -/
def line : List Nat → List String → String
  | w :: ws, cell :: next :: rest =>
    cell ++ "".pushn ' ' (w - cell.length + 1) ++ line ws (next :: rest)
  | _, [cell] => cell
  | _, _ => ""

/-- Rows of four cells as lines whose columns start at the same place. -/
def align (rows : List (List String)) : List String :=
  let columns := kept rows
  let rows := rows.map (cells columns)
  let widths := rows.foldl (fun ws row => maxima ws (demands columns row)) []
  rows.map (line widths)

end Columns

namespace FieldDecl

/-- Name, type, tag and comment. An embedded field has its type in place of a name. -/
def cells (d : FieldDecl) : List String :=
  let ends := [d.tag.getD "", " ".intercalate d.comment]
  if d.names.isEmpty then d.tyText :: "" :: ends
  else ", ".intercalate d.names :: d.tyText :: ends

/-- Fields whose columns are aligned with each other; a field with a doc starts a new run. -/
def runs : List FieldDecl → List (List FieldDecl)
  | [] => []
  | d :: ds =>
    if ds.head?.all fun e => e.doc.isEmpty then (d :: (runs ds).headD []) :: (runs ds).tail
    else [d] :: runs ds

/-- The lines of a run: docs, and one line for each field. -/
def lines (run : List FieldDecl) : List String :=
  (run.zip (Columns.align (run.map cells))).flatMap fun d => d.1.doc ++ [d.2]

end FieldDecl

namespace StructExpr

def isEmpty (body : StructExpr) : Bool :=
  body.fields.isEmpty && body.trailing.isEmpty

/-- The blanks in front of the lines of the body. -/
def bodyIndent (o : PrintOptions) (body : StructExpr) : String :=
  body.fieldIndent.getD (body.closeIndent ++ o.unit)

def bodyLines (body : StructExpr) : List String :=
  (FieldDecl.runs body.fields).flatMap FieldDecl.lines ++ body.trailing

/-- A struct type with each field on its own line. -/
def print (o : PrintOptions) (body : StructExpr) : String :=
  if body.isEmpty then "struct\x7b\x7d"
  else
    let indent := body.bodyIndent o
    let lines := body.bodyLines.map fun line => indent ++ line ++ "\n"
    "struct \x7b\n" ++ String.join lines ++ body.closeIndent ++ "\x7d"

end StructExpr

/-- A part of a text and what is written in its place. -/
structure Edit where
  span : Span
  text : String
  deriving DecidableEq, Repr

namespace Edit

def le (a b : Edit) : Bool :=
  decide (a.span.start < b.span.start) ||
    (a.span.start == b.span.start && decide (a.span.stop ≤ b.span.stop))

/-- The text from a byte on with edits made in order; one that starts before the end of an earlier
one is left out. -/
def applyFrom (chars : List Char) (start : Nat) : List Edit → List Char
  | [] => Text.dropBytes start chars
  | e :: es =>
    if e.span.start < start then applyFrom chars start es
    else
      Text.slice start e.span.start chars ++ e.text.toList ++ applyFrom chars e.span.stop es

end Edit

namespace TypeSpec

def printDoc (t : TypeSpec) : String :=
  String.join (t.doc.map fun line => t.indent ++ line ++ "\n")

def printComment (t : TypeSpec) : String :=
  if t.comment.isEmpty then "" else " " ++ " ".intercalate t.comment

/-- The edits of a declaration, if it is a changed struct. -/
def edits (o : PrintOptions) (t : TypeSpec) : List Edit :=
  match t.ty.struct? with
  | some body =>
    if t.modified then
      [⟨t.docSpan, t.printDoc⟩, ⟨t.tySpan, body.print o⟩, ⟨t.commentSpan, t.printComment⟩]
    else []
  | none => []

end TypeSpec

namespace SourceFile

def edits (o : PrintOptions) (f : SourceFile) : List Edit :=
  (f.specs.flatMap (TypeSpec.edits o)).mergeSort Edit.le

/-- The text of a file with its changed declarations. -/
def print (o : PrintOptions) (f : SourceFile) : String :=
  String.ofList (Edit.applyFrom f.text.chars 0 (f.edits o))

end SourceFile

end StructLayout
