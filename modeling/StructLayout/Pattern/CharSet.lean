import StructLayout.Text.CaseVariants

/-! Sets of characters, as patterns name them. -/

namespace StructLayout

/-- Ways to make one set of two. -/
inductive SetOperation where
  | union
  | intersection
  | difference
  | symmetricDifference
  deriving DecidableEq, Repr

/-- Whether the result holds something, by whether the first and the second set hold it. -/
def SetOperation.holds : SetOperation → Bool → Bool → Bool
  | .union, a, b => a || b
  | .intersection, a, b => a && b
  | .difference, a, b => a && !b
  | .symmetricDifference, a, b => a != b

/-- A range holds its ends. If case does not count it also holds what differs from a character
between them only in case. -/
inductive CharSet where
  | empty
  | range (low high : Char) (anyCase : Bool)
  | complement (s : CharSet)
  | combine (op : SetOperation) (s t : CharSet)
  deriving DecidableEq, Repr

namespace CharSet

def single (anyCase : Bool) (c : Char) : CharSet :=
  .range c c anyCase

def union (sets : List CharSet) : CharSet :=
  sets.foldl (.combine .union) .empty

/-- All characters but the end of a line. -/
def withinLine : CharSet :=
  .complement (.single false '\n')

def contains (c : Char) : CharSet → Bool
  | .empty => false
  | .range low high anyCase =>
    if anyCase then (Text.caseVariants c).any fun d => low ≤ d && d ≤ high
    else low ≤ c && c ≤ high
  | .complement s => !s.contains c
  | .combine op s t => op.holds (s.contains c) (t.contains c)

end CharSet

end StructLayout
