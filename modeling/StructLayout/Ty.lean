import StructLayout.Text.Quoted
import StructLayout.Text.Uppercase

/-! Resolved types. Pointers and the like keep only the spelling of what they refer to, so a type
contains exactly the types that it holds by value. -/

namespace StructLayout

inductive BasicKind where
  | bool
  | int
  | int8
  | int16
  | int32
  | int64
  | uint
  | uint8
  | uint16
  | uint32
  | uint64
  | uintptr
  | byte
  | rune
  | float32
  | float64
  | complex64
  | complex128
  | string
  | unsafePointer
  deriving DecidableEq, Repr

namespace BasicKind

def name : BasicKind → String
  | .bool => "bool"
  | .int => "int"
  | .int8 => "int8"
  | .int16 => "int16"
  | .int32 => "int32"
  | .int64 => "int64"
  | .uint => "uint"
  | .uint8 => "uint8"
  | .uint16 => "uint16"
  | .uint32 => "uint32"
  | .uint64 => "uint64"
  | .uintptr => "uintptr"
  | .byte => "byte"
  | .rune => "rune"
  | .float32 => "float32"
  | .float64 => "float64"
  | .complex64 => "complex64"
  | .complex128 => "complex128"
  | .string => "string"
  | .unsafePointer => "unsafe.Pointer"

/-- The kinds that a plain name can mean. -/
def predeclared : List BasicKind :=
  [.bool, .int, .int8, .int16, .int32, .int64, .uint, .uint8, .uint16, .uint32, .uint64, .uintptr,
   .byte, .rune, .float32, .float64, .complex64, .complex128, .string]

def ofName? (name : String) : Option BasicKind :=
  predeclared.find? fun k => k.name == name

/-- The size in bytes where it is the same on every platform. -/
def fixedSize? : BasicKind → Option Nat
  | .bool | .int8 | .uint8 | .byte => some 1
  | .int16 | .uint16 => some 2
  | .int32 | .uint32 | .rune | .float32 => some 4
  | .int64 | .uint64 | .float64 | .complex64 => some 8
  | .complex128 => some 16
  | .int | .uint | .uintptr | .unsafePointer | .string => none

def isComplex : BasicKind → Bool
  | .complex64 | .complex128 => true
  | _ => false

theorem ofName?_name {k : BasicKind} (h : k ≠ .unsafePointer) : ofName? k.name = some k := by
  cases k <;> first | rfl | exact absurd rfl h

end BasicKind

mutual

/-- A type; a foreign one is declared in another package. -/
inductive Ty where
  | basic (kind : BasicKind)
  | pointer (elem : String)
  | slice (elem : String)
  | map (key value : String)
  | chan (text : String)
  | func (text : String)
  | interface (text : String)
  | array (len : Nat) (elem : Ty)
  | struct (fields : List TyField)
  | named (name : String) (pos : Nat) (underlying : Ty)
  | foreign (name : String)
  deriving Repr

/-- A field of a struct type. -/
structure TyField where
  name : String
  ty : Ty
  tag : String
  embedded : Bool
  exported : Bool
  deriving Repr

end

instance : Inhabited Ty := ⟨.struct []⟩

namespace Ty

/-- The type behind all names. -/
def underlying : Ty → Ty
  | .named _ _ u => u.underlying
  | t => t

/-- The fields of a struct type, also behind a name. -/
def fields? (t : Ty) : Option (List TyField) :=
  match t.underlying with
  | .struct fields => some fields
  | _ => none

def isNamed : Ty → Bool
  | .named .. => true
  | _ => false

mutual

/-- The spelling of a type. -/
def render : Ty → String
  | .basic kind => kind.name
  | .pointer elem => "*" ++ elem
  | .slice elem => "[]" ++ elem
  | .map key value => "map[" ++ key ++ "]" ++ value
  | .chan text | .func text | .interface text | .foreign text => text
  | .array len elem => "[" ++ toString len ++ "]" ++ elem.render
  | .struct fields => "struct\x7b" ++ "; ".intercalate (renderFields fields) ++ "\x7d"
  | .named name _ _ => name

def renderField : TyField → String
  | ⟨name, ty, tag, embedded, _⟩ =>
    let head := if embedded then ty.render else name ++ " " ++ ty.render
    if tag.isEmpty then head else head ++ " " ++ Text.quoted tag

def renderFields : List TyField → List String
  | [] => []
  | f :: fs => renderField f :: renderFields fs

end

end Ty

end StructLayout
