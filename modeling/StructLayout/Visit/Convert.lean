import StructLayout.Layout.Struct
import StructLayout.Platform.Extent

/-! The structure of a struct type on a platform. Fields that hold named structs by value may get
other sizes than their types. -/

namespace StructLayout

namespace Ty

/-- The declaration of the named struct that a value of this type is made of, also as elements of
arrays that have some. -/
def heldStruct? : Ty → Option Nat
  | .named _ pos u => if u.fields?.isSome then some pos else none
  | .array len elem => if len = 0 then none else elem.heldStruct?
  | _ => none

/-- The size of a type if the named struct in it has size `own`. -/
def sizeWith (p : Platform) (own : Nat) : Ty → Nat
  | .array 0 _ => 0
  | .array (n + 1) elem =>
    let size := elem.sizeWith p own
    alignUp size (p.typeAlign elem) * n + size
  | _ => own

end Ty

namespace TyField

/-- A field with the size of its type, or with a size that the struct in it has been given. -/
def toField (p : Platform) (own : Option Nat) (f : TyField) : Field :=
  let extent := p.extent f.ty
  let size := match own with
    | some own => f.ty.sizeWith p own
    | none => extent.size
  { Field.ofType f.name f.ty.render size extent.align with
    tag := f.tag, embedded := f.embedded, exported := f.exported }

end TyField

/-- The structure of a struct type, given the sizes of the structs that its fields hold. -/
def Struct.ofType (p : Platform) (name : String) (sizes : List (Option Nat))
    (fields : List TyField) : Struct :=
  { name, fields := fields.zipWith (fun f own => f.toField p own) sizes }

end StructLayout
