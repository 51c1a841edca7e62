import StructLayout.Pattern.CharSet
import StructLayout.Pattern.Nested
import StructLayout.Text.Rest

/-! Reading sets of characters, which stand in brackets. -/

namespace StructLayout.Pattern

open Text (Shorter NotLonger)

/-- Marks that stand for themselves behind a backslash. -/
def isMark (c : Char) : Bool :=
  0x20 < c.toNat && c.toNat < 0x7F && !c.isAlphanum && c != '<' && c != '>'

/-- Sets of ASCII characters that have a name. -/
def namedSets : List (String × List (Char × Char)) :=
  [("alnum", [('0', '9'), ('A', 'Z'), ('a', 'z')]), ("alpha", [('A', 'Z'), ('a', 'z')]),
   ("ascii", [('\x00', '\x7f')]), ("blank", [('\t', '\t'), (' ', ' ')]),
   ("cntrl", [('\x00', '\x1f'), ('\x7f', '\x7f')]), ("digit", [('0', '9')]),
   ("graph", [('!', '~')]), ("lower", [('a', 'z')]), ("print", [(' ', '~')]),
   ("punct", [('!', '/'), (':', '@'), ('[', '\x60'), ('\x7b', '~')]),
   ("space", [('\t', '\r'), (' ', ' ')]), ("upper", [('A', 'Z')]),
   ("word", [('0', '9'), ('A', 'Z'), ('_', '_'), ('a', 'z')]),
   ("xdigit", [('0', '9'), ('A', 'F'), ('a', 'f')])]

/-- Reads a named set behind the bracket that opens it: its name between colons, with a circumflex
in front for all characters outside, and the closing bracket. -/
def readNamed? (anyCase : Bool) (cs : List Char) : Option (CharSet × NotLonger cs) := do
  let colon ← Text.dropWord? [':'] cs
  let body := colon.trans (Text.dropOne '^' colon.1)
  let name := body.1.takeWhile (· != ':')
  let ranges ← namedSets.lookup (String.ofList name)
  let behind := body.trans (Text.dropLead (· != ':') body.1)
  let rest ← Text.dropWord? [':', ']'] behind.1
  let set := CharSet.union (ranges.map fun r => .range r.1 r.2 anyCase)
  return (if colon.1.head? = some '^' then .complement set else set, behind.trans rest)

/-- Reads a character of a set. -/
def readMember : (cs : List Char) → Option (Char × Shorter cs)
  | [] => none
  | c :: rest =>
    if c = '\\' then
      match rest with
      | [] => none
      | d :: rest => if isMark d then some (d, (Shorter.tail d rest).behind c) else none
    else some (c, .tail c rest)

/-- Reads a character, or a range up to a character behind a dash. A dash in front of the closing
bracket or of another dash begins no range. -/
def readRange (anyCase : Bool) (cs : List Char) : Option (CharSet × Shorter cs) := do
  let (low, s) ← readMember cs
  let behind := Text.dropOne '-' s.1
  let next := behind.1.head?
  if s.1.head? = some '-' ∧ next ≠ some ']' ∧ next ≠ some '-' then
    let (high, r) ← readMember behind.1
    if low ≤ high then return (.range low high anyCase, s.notLonger.shorter (behind.shorter r))
    else none
  else return (.single anyCase low, s)

/-- A set up to a place inside its brackets: all in front of its last operator with that operator,
and the members behind that. -/
structure OpenSet where
  negated : Bool
  before : Option (Nested CharSet × SetOperation)
  members : List (Nested CharSet)

namespace OpenSet

def add (s : OpenSet) (member : Nested CharSet) : OpenSet :=
  { s with members := member :: s.members }

/-- What has been read between the brackets. Operators apply from left to right. -/
def content (s : OpenSet) : Nested CharSet :=
  let behind := Nested.gather CharSet.union s.members
  match s.before with
  | none => behind
  | some (before, op) => before.combine (.combine op) behind

/-- Goes on behind an operator. -/
def operate (s : OpenSet) (op : SetOperation) : OpenSet :=
  { s with before := some (s.content, op), members := [] }

def close (s : OpenSet) : Nested CharSet :=
  s.content.wrap fun set => if s.negated then .complement set else set

end OpenSet

/-- The start of a set behind its opening bracket. There dashes stand for themselves, or one closing
bracket. -/
def beginSet (anyCase : Bool) (cs : List Char) : OpenSet × NotLonger cs :=
  let body := Text.dropOne '^' cs
  let dashes := body.1.takeWhile (· == '-')
  let first := if body.1.head? = some ']' then [']'] else dashes
  let inner := (Text.dropLead (· == '-') body.1).trans
    (if dashes.isEmpty then Text.dropOne ']' _ else .all _)
  let members := first.map fun c => Nested.flat (CharSet.single anyCase c)
  (⟨cs.head? == some '^', none, members⟩, body.trans inner)

/-- The operation that a character written twice stands for. -/
def setOperation? : Char → Option SetOperation
  | '&' => some .intersection
  | '-' => some .difference
  | '~' => some .symmetricDifference
  | _ => none

/-- Reads a set up to its closing bracket. -/
def readMembers (anyCase : Bool) (s : OpenSet) (cs : List Char) :
    Option (Nested CharSet × Shorter cs) :=
  match cs with
  | [] => none
  | c :: rest =>
    if c = ']' then some (s.close, .tail c rest)
    else if c = '[' then
      match readNamed? anyCase rest with
      | some (named, ⟨t, ht⟩) => do
        let (set, ⟨r, hr⟩) ← readMembers anyCase (s.add (.flat named)) t
        return (set, ⟨r, by simp only [List.length_cons]; omega⟩)
      | none => do
        let (inner, ⟨t, ht⟩) := beginSet anyCase rest
        let (member, ⟨u, hu⟩) ← readMembers anyCase inner t
        let (set, ⟨r, hr⟩) ← readMembers anyCase (s.add member) u
        return (set, ⟨r, by simp only [List.length_cons]; omega⟩)
    else
      match setOperation? c, Text.dropWord? [c] rest with
      | some op, some ⟨t, ht⟩ => do
        let (set, ⟨r, hr⟩) ← readMembers anyCase (s.operate op) t
        return (set, ⟨r, by simp only [List.length_cons]; omega⟩)
      | _, _ => do
        let (range, ⟨t, ht⟩) ← readRange anyCase (c :: rest)
        let (set, ⟨r, hr⟩) ← readMembers anyCase (s.add (.flat range)) t
        return (set, ⟨r, by omega⟩)
termination_by cs.length
decreasing_by all_goals (simp only [List.length_cons] at *; omega)

/-- Reads a set behind its opening bracket. -/
def readSet (anyCase : Bool) (cs : List Char) : Option (Nested CharSet × Shorter cs) := do
  let (start, r) := beginSet anyCase cs
  let (set, s) ← readMembers anyCase start r.1
  return (set, r.shorter s)

end StructLayout.Pattern
