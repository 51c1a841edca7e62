import StructLayout.Results
import StructLayout.Visit.Run

/-! The outcomes of a visit in the order of directories and declarations. -/

namespace StructLayout

namespace Applied

def le (a b : Applied) : Bool :=
  match compare a.location b.location with
  | .lt => true
  | .eq => a.id.le b.id
  | .gt => false

def sort (outcomes : List Applied) : List Applied :=
  outcomes.mergeSort le

/-- The structure, if it has been curated. -/
def curated? (a : Applied) : Option Struct :=
  a.result.toOption

end Applied

namespace Results

/-- The structures that have been curated. -/
def ofApplied (outcomes : List Applied) : Results :=
  outcomes.foldl (fun r a => (a.curated?.map (r.push a.id a.location)).getD r) []

end Results

end StructLayout
