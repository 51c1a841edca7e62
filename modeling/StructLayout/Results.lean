import StructLayout.Identity
import StructLayout.Json.Value
import StructLayout.Layout.Offsets
import StructLayout.OrderedMap

/-! Curated structures, by directory and identity. -/

namespace StructLayout

namespace PlacedField

def toJson (p : PlacedField) : JsonValue :=
  .object [("name", .string p.field.name), ("type", .string p.field.typeName),
    ("offset", .nat p.offset), ("size", .nat p.field.size), ("align", .nat p.field.align),
    ("tag", .string p.field.tag), ("exported", .bool p.field.exported),
    ("embedded", .bool p.field.embedded), ("doc", .strings p.field.doc),
    ("comment", .strings p.field.comment)]

end PlacedField

namespace Layout

def toJson (l : Layout) : JsonValue :=
  .object [("id", .string l.id), ("name", .string l.name), ("size", .nat l.size),
    ("align", .nat l.align), ("doc", .strings l.doc), ("comment", .strings l.comment),
    ("fields", .array (l.fields.map PlacedField.toJson))]

end Layout

/-- Directories in order, and in each of them the structures in the order of their identities. -/
abbrev Results := List (String × List (Identity × Struct))

namespace Results

/-- Adds a structure, in place of one with the same directory and identity. -/
def push (r : Results) (id : Identity) (location : String) (st : Struct) : Results :=
  OrderedMap.update compare location [] (OrderedMap.insert Identity.compare id st) r

/-- The structures of a directory. -/
def at? (r : Results) (location : String) : Option (List (Identity × Struct)) :=
  OrderedMap.find? compare location r

def locations (r : Results) : List String :=
  r.map (·.1)

/-- The structures of all directories. -/
def entries (r : Results) : List (Identity × Struct) :=
  r.flatMap (·.2)

/-- The structures by identity alone; of equal identities the one in the last directory counts. -/
def flat (r : Results) : List (Identity × Struct) :=
  OrderedMap.ofList Identity.compare r.entries

/-- The layouts of all structures as a text. -/
def render (r : Results) : String :=
  let layouts := r.entries.map fun e => (Layout.ofStruct e.1.text e.2).toJson
  (JsonValue.array layouts).render 0

end Results

end StructLayout
