import StructLayout.Layout.Struct

/-! Strategies that put the fields of a structure into another order. -/

namespace StructLayout

/-- What fields are compared by. -/
inductive SortKey where
  | nameLexicographical
  | typeLexicographical
  | nameLength
  | typeLength
  | embedded
  | exported
  deriving DecidableEq, Repr

/-- The ascending order of a key; embedded and exported fields come first, lengths are in bytes. -/
def SortKey.le (key : SortKey) (a b : Field) : Bool :=
  match key with
  | .nameLexicographical => decide (a.name ≤ b.name)
  | .typeLexicographical => decide (a.typeName ≤ b.typeName)
  | .nameLength => decide (a.name.utf8ByteSize ≤ b.name.utf8ByteSize)
  | .typeLength => decide (a.typeName.utf8ByteSize ≤ b.typeName.utf8ByteSize)
  | .embedded => a.embedded || !b.embedded
  | .exported => a.exported || !b.exported

/-- Larger alignments first, and larger sizes first where the alignments are equal. -/
def packLe (a b : Field) : Bool :=
  decide (b.align < a.align) || (a.align == b.align && decide (b.size ≤ a.size))

/-- Members of the two lists in turn, from the first list first; `ys` is no longer than `xs`. -/
def interleave {α : Type} : List α → List α → List α
  | [], _ => []
  | x :: xs, [] => x :: interleave xs []
  | x :: xs, y :: ys => y :: x :: interleave xs ys

namespace Struct

/-- A stable sort. -/
def sortBy (key : SortKey) (ascending : Bool) (st : Struct) : Struct :=
  let le := if ascending then key.le else fun a b => key.le b a
  { st with fields := st.fields.mergeSort le }

/-- The order without avoidable gaps; equal fields keep their order. -/
def pack (st : Struct) : Struct :=
  { st with fields := st.fields.mergeSort packLe }

/-- The packed order taken from both ends in turn, the last field first. -/
def unpack (st : Struct) : Struct :=
  let packed := st.fields.mergeSort packLe
  let middle := (packed.length + 1) / 2
  { st with fields := interleave (packed.take middle) (packed.drop middle).reverse }

end Struct

end StructLayout
