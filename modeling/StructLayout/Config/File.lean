import StructLayout.Config.Reader
import StructLayout.Files.Disk

/-! Configurations in files. -/

namespace StructLayout

inductive ConfigFileError where
  | unreadable (path : String) (cause : FileError)
  | malformed (path : String)
  deriving DecidableEq, Repr

namespace ConfigFileError

def message : ConfigFileError → String
  | .unreadable path _ => "can't read config file " ++ path
  | .malformed path => "can't parse config file " ++ path

/-- The texts of an error and of what caused it. -/
def chain (e : ConfigFileError) : List String :=
  match e with
  | .unreadable _ cause => [e.message, cause.message]
  | .malformed _ => [e.message]

end ConfigFileError

/-- The configuration in a file. -/
def Config.load (d : Disk) (path : String) : Except ConfigFileError Config :=
  match d.read path with
  | .error cause => .error (.unreadable path cause)
  | .ok text =>
    match Config.read? text with
    | some c => .ok c
    | none => .error (.malformed path)

end StructLayout
