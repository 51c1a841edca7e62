import StructLayout.Pattern.Basic
import StructLayout.Pattern.SetReader

/-! Reading patterns. -/

namespace StructLayout.Pattern

open Text (Shorter NotLonger)

/-- What an opening parenthesis begins. -/
inductive Opening where
  /-- A group, and whether case counts in it. -/
  | group (anyCase : Bool)
  /-- Nothing; from there on case counts or not. -/
  | flag (anyCase : Bool)

/-- Marks behind an opening parenthesis and what they mean. -/
def openings (anyCase : Bool) : List (List Char × Opening) :=
  [("?i)".toList, .flag true), ("?-i)".toList, .flag false), ("?i:".toList, .group true),
   ("?-i:".toList, .group false), ("?:".toList, .group anyCase)]

/-- Reads what follows an opening parenthesis. -/
def readOpening (anyCase : Bool) (cs : List Char) : Option (Opening × NotLonger cs) :=
  if cs.head? = some '?' then
    (openings anyCase).findSome? fun m => (Text.dropWord? m.1 cs).map fun r => (m.2, r)
  else some (.group anyCase, .all cs)

/-- Operators that repeat what stands in front of them. -/
def repetition? : Char → Option (Pattern → Pattern)
  | '*' => some .star
  | '+' => some .rounds
  | '?' => some .optional
  | _ => none

/-- One character that is no operator of its own, or a set. -/
def readOne (anyCase : Bool) : (cs : List Char) → Option (Nested Pattern × Shorter cs)
  | [] => none
  | c :: rest =>
    let single := fun c => Nested.flat (Pattern.ofSet (.single anyCase c))
    if c = '^' then some (.flat .atStart, .tail c rest)
    else if c = '$' then some (.flat .atEnd, .tail c rest)
    else if c = '.' then some (.flat (.ofSet .withinLine), .tail c rest)
    else if c = '[' then (readSet anyCase rest).map fun r => (⟨.ofSet r.1.1, r.1.2⟩, r.2.behind c)
    else if c = '\\' then
      match rest with
      | d :: rest => if isMark d then some (single d, (Shorter.tail d rest).behind c) else none
      | [] => none
    else if c = '\x7b' then none
    else some (single c, .tail c rest)

/-- A branch of parts, the last one in front. -/
def ofParts (parts : List (Nested Pattern)) : Nested Pattern :=
  .gather (fun ps => ps.foldl (fun behind p => .seq p behind) .empty) parts

/-- A choice of branches, the last one in front. -/
def ofBranches (branches : List (Nested Pattern)) : Nested Pattern :=
  .gather (fun
    | [] => .empty
    | p :: ps => ps.foldl (fun behind p => .alt p behind) p) branches

/-- Reads a group up to its closing parenthesis or the end. `branches` holds the branches before the
last, `parts` the parts of the last one, both with the last in front. -/
def readGroup (anyCase : Bool) (branches parts : List (Nested Pattern)) (cs : List Char) :
    Option (Nested Pattern × NotLonger cs) :=
  match cs with
  | [] => some (ofBranches (ofParts parts :: branches), .all [])
  | c :: rest =>
    if c = ')' then some (ofBranches (ofParts parts :: branches), .all (c :: rest))
    else if c = '|' then do
      let (p, r) ← readGroup anyCase (ofParts parts :: branches) [] rest
      return (p, (r.behind c).notLonger)
    else if c = '(' then do
      let (opening, ⟨s, hs⟩) ← readOpening anyCase rest
      match opening with
      | .flag inner =>
        if (s.head?.bind repetition?).isSome then none
        else
          let (p, ⟨r, hr⟩) ← readGroup inner branches (.flat .empty :: parts) s
          return (p, ⟨r, by simp only [List.length_cons]; omega⟩)
      | .group inner =>
        let (group, ⟨t, ht⟩) ← readGroup inner [] [] s
        if t.head? = some ')' then
          let ⟨behind, hbehind⟩ := Text.dropOne ')' t
          let (p, ⟨r, hr⟩) ← readGroup anyCase branches (group.wrap id :: parts) behind
          return (p, ⟨r, by simp only [List.length_cons]; omega⟩)
        else none
    else
      match repetition? c with
      | some repeated =>
        match parts with
        | [] => none
        | p :: ps => do
          let ⟨behind, hbehind⟩ := Text.dropOne '?' rest
          let (p, ⟨r, hr⟩) ← readGroup anyCase branches (p.wrap repeated :: ps) behind
          return (p, ⟨r, by simp only [List.length_cons]; omega⟩)
      | none => do
        let (part, ⟨s, hs⟩) ← readOne anyCase (c :: rest)
        let (p, ⟨r, hr⟩) ← readGroup anyCase branches (part :: parts) s
        return (p, ⟨r, by omega⟩)
termination_by cs.length
decreasing_by all_goals (simp only [List.length_cons] at *; omega)

/-- The number of operators that can stand around a part of a pattern. -/
def depthLimit : Nat := 250

/-- The pattern that a text stands for, if it is well formed and not nested too deep. -/
def read? (text : String) : Option Pattern := do
  let (p, ⟨r, _⟩) ← readGroup false [] [] text.toList
  if r.isEmpty ∧ p.depth ≤ depthLimit then return p.value else none

end StructLayout.Pattern
