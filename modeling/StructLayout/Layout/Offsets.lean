import StructLayout.Layout.Struct

/-! Structures with the offset of every field. -/

namespace StructLayout

/-- A field and the byte that it starts at. -/
structure PlacedField where
  offset : Nat
  field : Field
  deriving DecidableEq, Repr

/-- Places the fields of a list of gaps one behind the other. -/
def placeFrom (offset : Nat) : List Gap → List PlacedField
  | [] => []
  | ⟨pad, none⟩ :: gaps => placeFrom (offset + pad) gaps
  | ⟨pad, some f⟩ :: gaps => ⟨offset + pad, f⟩ :: placeFrom (offset + pad + f.size) gaps

/-- A structure laid out in memory. -/
structure Layout where
  id : String
  name : String
  size : Nat
  align : Nat
  doc : List String
  comment : List String
  fields : List PlacedField
  deriving DecidableEq, Repr

/-- Every field at its own alignment. -/
def Layout.ofStruct (id : String) (st : Struct) : Layout where
  id := id
  name := st.name
  size := st.size
  align := st.align
  doc := st.doc
  comment := st.comment
  fields := placeFrom 0 (st.gaps 0)

theorem placeFrom_map_field (offset : Nat) (gaps : List Gap) :
    (placeFrom offset gaps).map PlacedField.field = gaps.filterMap Gap.before := by
  induction gaps generalizing offset with
  | nil => rfl
  | cons g gs ih => rcases g with ⟨pad, _ | f⟩ <;> simp [placeFrom, ih]

end StructLayout
