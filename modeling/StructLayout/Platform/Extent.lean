import StructLayout.Platform

/-! Size and alignment of a type in one pass. -/

namespace StructLayout

/-- The size and the alignment of something. -/
structure Extent where
  size : Nat
  align : Nat
  deriving DecidableEq, Repr

namespace Platform

mutual

/-- The size and the alignment of a type. -/
def extent (p : Platform) : Ty → Extent
  | .basic kind => ⟨p.basicSize kind, p.limit (p.basicAlign kind)⟩
  | .pointer _ | .map .. | .chan _ | .func _ | .foreign _ => ⟨p.sizes.word, p.limit p.sizes.word⟩
  | .interface _ => ⟨2 * p.sizes.word, p.limit p.sizes.word⟩
  | .slice _ => ⟨3 * p.sizes.word, p.limit p.sizes.word⟩
  | .array 0 elem => ⟨0, p.limit (extent p elem).align⟩
  | .array (n + 1) elem =>
    let e := extent p elem
    ⟨alignUp e.size e.align * n + e.size, p.limit e.align⟩
  | .struct fields =>
    let e := fieldsExtent p ⟨0, 0⟩ fields
    ⟨alignUp e.size (max e.align 1), p.limit e.align⟩
  | .named _ _ u =>
    let e := extent p u
    ⟨e.size, p.limit e.align⟩

/-- What fields take up to the end of one that is placed behind others. -/
def fieldExtent (p : Platform) (done : Extent) : TyField → Extent
  | ⟨_, ty, _, _, _⟩ =>
    let e := extent p ty
    ⟨alignUp done.size e.align + e.size, max done.align e.align⟩

def fieldsExtent (p : Platform) (done : Extent) : List TyField → Extent
  | [] => done
  | f :: fs => fieldsExtent p (fieldExtent p done f) fs

end

mutual

theorem extent_eq (p : Platform) : ∀ t, p.extent t = ⟨p.typeSize t, p.typeAlign t⟩
  | .basic _ | .pointer _ | .map .. | .chan _ | .func _ | .foreign _ | .interface _ | .slice _ => by
    simp [extent, typeSize, typeAlign]
  | .array 0 elem | .array (_ + 1) elem | .named _ _ elem => by
    simp [extent, typeSize, typeAlign, extent_eq p elem]
  | .struct fields => by
    simp [extent, typeSize, typeAlign, fieldsExtent_eq p ⟨0, 0⟩ fields]

theorem fieldExtent_eq (p : Platform) (done : Extent) :
    ∀ f, p.fieldExtent done f = ⟨p.fieldEnd done.size f, max done.align (p.fieldAlign f)⟩
  | ⟨_, ty, _, _, _⟩ => by
    simp [fieldExtent, fieldEnd, fieldAlign, extent_eq p ty]

theorem fieldsExtent_eq (p : Platform) (done : Extent) :
    ∀ fs, p.fieldsExtent done fs = ⟨p.fieldsEnd done.size fs, max done.align (p.fieldsAlign fs)⟩
  | [] => by simp [fieldsExtent, fieldsEnd, fieldsAlign]
  | f :: fs => by
    simp [fieldsExtent, fieldsEnd, fieldsAlign, fieldExtent_eq p done f,
      fieldsExtent_eq p _ fs, Nat.max_assoc]

end

end Platform

end StructLayout
