import StructLayout.Strategy.Note
import StructLayout.Strategy.Order
import StructLayout.Strategy.Padding
import StructLayout.Strategy.Tagging

/-! The strategies that change a structure by themselves. -/

namespace StructLayout

/-- The fields that a filter drops. -/
inductive FilterKind where
  | pads
  | embedded
  | notEmbedded
  | exported
  | notExported
  deriving DecidableEq, Repr

def FilterKind.drops : FilterKind → Field → Bool
  | .pads, f => f.isPadding
  | .embedded, f => f.embedded
  | .notEmbedded, f => !f.embedded
  | .exported, f => f.exported
  | .notExported, f => !f.exported

inductive Transform where
  | pack
  | unpack
  | padGaps (system : Option Nat)
  | falseSharing (line : Nat)
  | cacheRounding (line : Nat)
  | separate (size : Nat) (top : Bool)
  | tagging (t : Tagging)
  | annotateFields (place : NotePlace)
  | annotate (place : NotePlace)
  | markCurated (place : NotePlace)
  | sortBy (key : SortKey) (ascending : Bool)
  | filter (kind : FilterKind)
  | ignore
  | void
  deriving DecidableEq, Repr

def Transform.apply : Transform → Struct → Struct
  | .pack, st => st.pack
  | .unpack, st => st.unpack
  | .padGaps system, st => st.padGaps system
  | .falseSharing line, st => st.padFields line
  | .cacheRounding line, st => st.roundToLine line
  | .separate size top, st => st.separate size top
  | .tagging t, st => st.retag t
  | .annotateFields place, st => st.annotateFields place
  | .annotate place, st => st.annotate place
  | .markCurated place, st => st.markCurated place
  | .sortBy key ascending, st => st.sortBy key ascending
  | .filter kind, st => { st with fields := st.fields.filter fun f => !kind.drops f }
  | .ignore, st => st
  | .void, st => { st with fields := [] }

/-- Applies transforms one after the other. -/
def Transform.applyAll (ts : List Transform) (st : Struct) : Struct :=
  ts.foldl (fun st t => t.apply st) st

@[simp] theorem Transform.applyAll_nil (st : Struct) : applyAll [] st = st := rfl

@[simp] theorem Transform.applyAll_cons (t : Transform) (ts : List Transform) (st : Struct) :
    applyAll (t :: ts) st = applyAll ts (t.apply st) := rfl

end StructLayout
