import StructLayout.Layout.Align
import StructLayout.Text.Uppercase
import StructLayout.Total

/-! Structures as ordered lists of fields, and the gaps that alignment leaves between them. -/

namespace StructLayout

/-- The name shared by all padding fields. -/
def padName : String := "_"

/-- A field with the size and alignment of its type, in bytes. -/
structure Field where
  name : String := ""
  typeName : String := ""
  size : Nat := 0
  align : Nat := 0
  tag : String := ""
  exported : Bool := false
  embedded : Bool := false
  doc : List String := []
  comment : List String := []
  deriving DecidableEq, Repr, Inhabited

namespace Field

/-- A field whose alignment is at least one and whose name decides whether it is exported. -/
def ofType (name typeName : String) (size align : Nat) : Field :=
  { name, typeName, size, align := max align 1, exported := Text.isExportedName name }

/-- The type of a padding of `size` bytes. -/
def padType (size : Nat) : String :=
  "[" ++ toString size ++ "]byte"

/-- A padding of `size` bytes. -/
def pad (size : Nat) : Field :=
  { name := padName, typeName := padType size, size, align := 1 }

def isPadding (f : Field) : Bool :=
  f.name == padName

@[simp] theorem isPadding_pad (size : Nat) : (pad size).isPadding = true := rfl

/-- Name, type, size and alignment on one line. -/
def render (f : Field) : String :=
  s!"{f.name} {f.typeName} (size {f.size}, align {f.align})"

end Field

/-- A structure; the order of its fields is their order in memory. -/
structure Struct where
  name : String := ""
  doc : List String := []
  comment : List String := []
  fields : List Field := []
  deriving DecidableEq, Repr, Inhabited

/-- The bytes left free in front of a field, or behind the last one. -/
structure Gap where
  pad : Nat
  before : Option Field
  deriving DecidableEq, Repr

/-- Bytes of a gap and of the field behind it. -/
def Gap.width (g : Gap) : Nat :=
  g.pad + (g.before.map Field.size).getD 0

namespace Struct

/-- Fields are aligned by their own alignment, which a system alignment other than zero limits. -/
def alignIn (system : Nat) (f : Field) : Nat :=
  if system = 0 then f.align else min f.align system

/-- The gaps of fields placed from `offset` on, `align` being the largest alignment so far. The
tail is rounded up to the system alignment, or without one to the largest alignment. -/
def gapsFrom (system offset align : Nat) : List Field → List Gap
  | [] =>
    let tail := if system = 0 then align else system
    [⟨alignUp offset tail - offset, none⟩]
  | f :: fs =>
    let start := alignUp offset (max (alignIn system f) 1)
    ⟨start - offset, some f⟩ :: gapsFrom system (start + f.size) (max align (alignIn system f)) fs

/-- The gap in front of every field, in order, and then the tail. -/
def gaps (system : Nat) (st : Struct) : List Gap :=
  gapsFrom system 0 1 st.fields

/-- The sum of the field sizes. -/
def fieldsSize (st : Struct) : Nat :=
  total (st.fields.map Field.size)

/-- The largest alignment of a field, and at least one. -/
def align (st : Struct) : Nat :=
  st.fields.foldl (fun a f => max a f.align) 1

/-- The size in memory: every field at its own alignment, the tail rounded up. -/
def size (st : Struct) : Nat :=
  total ((st.gaps 0).map Gap.width)

def field? (st : Struct) (name : String) : Option Field :=
  st.fields.find? fun f => f.name == name

def paddings (st : Struct) : List Field :=
  st.fields.filter Field.isPadding

def render (st : Struct) : String :=
  let head := s!"struct {st.name} (size {st.size}, align {st.align}) \x7b\n"
  head ++ String.join (st.fields.map fun f => "    " ++ f.render ++ "\n") ++ "\x7d"

end Struct

end StructLayout
