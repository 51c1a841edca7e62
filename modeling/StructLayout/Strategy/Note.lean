import StructLayout.Layout.Struct
import StructLayout.Text.Blank

/-! Generated lines in docs and comments: sizes of fields and structures, and the stamp of a
structure that has been curated. -/

namespace StructLayout

/-- Marks every generated line. -/
def stamp : String := "layout-curator"

def isStamped (line : String) : Bool :=
  Text.occursIn stamp.toList line.toList

/-- Where a note is put. -/
inductive NotePlace where
  | doc
  | comment
  deriving DecidableEq, Repr

/-- Applies a change to the doc or to the comment. -/
def Field.onNotes (place : NotePlace) (change : List String → List String) (f : Field) : Field :=
  match place with
  | .doc => { f with doc := change f.doc }
  | .comment => { f with comment := change f.comment }

def Struct.onNotes (place : NotePlace) (change : List String → List String) (st : Struct) :
    Struct :=
  match place with
  | .doc => { st with doc := change st.doc }
  | .comment => { st with comment := change st.comment }

namespace Note

def fieldStart : String := "// field size:"

def structStart : String := "// struct size:"

def curatedStart : String := "// struct has been auto curated"

/-- A generated line of the kind that begins with `start`. -/
def isGenerated (start line : String) : Bool :=
  start.toList.isPrefixOf line.toList && isStamped line

/-- Puts a note in place of the first generated line of its kind, or last, and drops the others. -/
def renew (start note : String) (lines : List String) : List String :=
  let keep := fun line => !isGenerated start line
  lines.takeWhile keep ++ note :: (lines.dropWhile keep).filter keep

def ofField (f : Field) : String :=
  s!"{fieldStart} {f.size} bytes; field align: {f.align} bytes; - {stamp}"

def ofStruct (st : Struct) : String :=
  s!"{structStart} {st.fieldsSize} bytes; struct align: {st.align} bytes; " ++
    s!"struct aligned size: {st.size} bytes; - {stamp}"

def curated : String :=
  s!"{curatedStart} - {stamp}"

end Note

namespace Struct

open Note

/-- Notes the size and alignment of every field. -/
def annotateFields (place : NotePlace) (st : Struct) : Struct :=
  let annotate := fun f : Field => f.onNotes place (renew fieldStart (ofField f))
  { st with fields := st.fields.map annotate }

/-- Notes the sizes and the alignment of the structure. -/
def annotate (place : NotePlace) (st : Struct) : Struct :=
  st.onNotes place (renew structStart (ofStruct st))

/-- Notes that the structure has been curated. -/
def markCurated (place : NotePlace) (st : Struct) : Struct :=
  st.onNotes place (renew curatedStart curated)

end Struct

end StructLayout
