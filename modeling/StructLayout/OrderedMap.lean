/-! Maps as lists in the order of their keys. -/

namespace StructLayout.OrderedMap

/-- Puts a value in front of the first larger key, or in place of the value of an equal one. -/
def insert {κ α : Type} (compare : κ → κ → Ordering) (key : κ) (value : α) :
    List (κ × α) → List (κ × α)
  | [] => [(key, value)]
  | (k, v) :: rest =>
    match compare key k with
    | .lt => (key, value) :: (k, v) :: rest
    | .eq => (k, value) :: rest
    | .gt => (k, v) :: insert compare key value rest

/-- A map of some pairs; of equal keys the last one counts. -/
def ofList {κ α : Type} (compare : κ → κ → Ordering) (pairs : List (κ × α)) : List (κ × α) :=
  pairs.foldl (fun m p => insert compare p.1 p.2 m) []

def find? {κ α : Type} (compare : κ → κ → Ordering) (key : κ) (m : List (κ × α)) : Option α :=
  (m.find? fun p => compare key p.1 == .eq).map (·.2)

/-- Changes the value of a key, which starts as `start` if there is none. -/
def update {κ α : Type} (compare : κ → κ → Ordering) (key : κ) (start : α) (f : α → α)
    (m : List (κ × α)) : List (κ × α) :=
  insert compare key (f ((find? compare key m).getD start)) m

end StructLayout.OrderedMap
