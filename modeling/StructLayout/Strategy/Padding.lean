import StructLayout.Layout.Struct

/-! Strategies that add padding fields. -/

namespace StructLayout

/-- What is missing to the next multiple of a line, as a padding; a line of zero needs none. -/
def remainderPad (size line : Nat) : List Field :=
  if line = 0 ∨ size % line = 0 then [] else [.pad (signedBytes (line - size % line))]

/-- A gap as a padding, and the field behind it. -/
def Gap.explicit (g : Gap) : List Field :=
  (if g.pad = 0 then [] else [.pad (signedBytes g.pad)]) ++ g.before.toList

namespace Struct

/-- A padding for every gap. With a system alignment the fields are placed by it, otherwise at
their own alignment. -/
def padGaps (system : Option Nat) (st : Struct) : Struct :=
  if st.fields.isEmpty then st
  else { st with fields := (st.gaps (system.getD 0)).flatMap Gap.explicit }

/-- Rounds the sum of the field sizes up to a multiple of a cache line. -/
def roundToLine (line : Nat) (st : Struct) : Struct :=
  { st with fields := st.fields ++ remainderPad st.fieldsSize line }

/-- Rounds every field up to a multiple of a cache line. -/
def padFields (line : Nat) (st : Struct) : Struct :=
  { st with fields := st.fields.flatMap fun f => f :: remainderPad f.size line }

/-- A padding in front of the first field or behind the last one. -/
def separate (size : Nat) (top : Bool) (st : Struct) : Struct :=
  if st.fields.isEmpty || size == 0 then st
  else
    let pad := Field.pad (signedBytes size)
    { st with fields := if top then pad :: st.fields else st.fields ++ [pad] }

end Struct

end StructLayout
