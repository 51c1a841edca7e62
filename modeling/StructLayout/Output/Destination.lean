import StructLayout.Path
import StructLayout.Text.Quoted

/-! Where documents are written. -/

namespace StructLayout

inductive Destination where
  /-- One stream for all documents. -/
  | stream
  /-- The file that the document was read from. -/
  | origin
  /-- A file beside it whose name has one more part in front of its extension. -/
  | beside (suffix : String)
  deriving DecidableEq, Repr

namespace Destination

def isStream (d : Destination) : Bool :=
  d == .stream

def describe : Destination → String
  | .stream => "Stream"
  | .origin => "Origin"
  | .beside suffix => "Suffix(" ++ Text.quoted suffix ++ ")"

/-- The name of a file with one more part. -/
def besideName (suffix stem : String) : Option String → String
  | some ext => s!"{stem}.{suffix}.{ext}"
  | none => s!"{stem}.{suffix}"

/-- The file that takes a document read from `path`. -/
def target? (d : Destination) (path : String) : Option String :=
  match d with
  | .stream => none
  | .origin => some path
  | .beside suffix =>
    (Path.stem? path).map fun stem =>
      Path.withFileName path (besideName suffix stem (Path.extension? path))

/-- A document as it stands in a stream: its last line is ended. -/
def streamed (content : String) : String :=
  if content.toList.getLast? = some '\n' then content else content ++ "\n"

end Destination

end StructLayout
