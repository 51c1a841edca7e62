/-! What is left of a text that is being read. -/

namespace StructLayout.Text

/-- A rest that is shorter than the text. -/
abbrev Shorter (cs : List Char) :=
  { r : List Char // r.length < cs.length }

/-- A rest that may be all of the text. -/
abbrev NotLonger (cs : List Char) :=
  { r : List Char // r.length ≤ cs.length }

namespace NotLonger

def all (cs : List Char) : NotLonger cs :=
  ⟨cs, Nat.le_refl _⟩

/-- The rest behind one more character. -/
def behind (c : Char) {cs : List Char} (r : NotLonger cs) : Shorter (c :: cs) :=
  ⟨r.1, Nat.lt_succ_of_le r.2⟩

def trans {cs : List Char} (r : NotLonger cs) (s : NotLonger r.1) : NotLonger cs :=
  ⟨s.1, Nat.le_trans s.2 r.2⟩

def shorter {cs : List Char} (r : NotLonger cs) (s : Shorter r.1) : Shorter cs :=
  ⟨s.1, Nat.lt_of_lt_of_le s.2 r.2⟩

end NotLonger

namespace Shorter

/-- The text behind its first character. -/
def tail (c : Char) (cs : List Char) : Shorter (c :: cs) :=
  ⟨cs, Nat.lt_succ_self _⟩

/-- The rest behind one more character. -/
def behind (c : Char) {cs : List Char} (r : Shorter cs) : Shorter (c :: cs) :=
  ⟨r.1, Nat.lt_succ_of_lt r.2⟩

def notLonger {cs : List Char} (r : Shorter cs) : NotLonger cs :=
  ⟨r.1, Nat.le_of_lt r.2⟩

end Shorter

/-- The text without the characters at its start that pass a test. -/
def dropLead (p : Char → Bool) (cs : List Char) : NotLonger cs :=
  ⟨cs.dropWhile p, (List.dropWhile_suffix p).length_le⟩

/-- The text without `c` in front, if it stands there. -/
def dropOne (c : Char) : (cs : List Char) → NotLonger cs
  | [] => .all []
  | d :: cs => if c = d then (Shorter.tail d cs).notLonger else .all (d :: cs)

/-- What follows a word. -/
def dropWord? : List Char → (cs : List Char) → Option (NotLonger cs)
  | [], cs => some (.all cs)
  | w :: word, c :: cs =>
    if w = c then (dropWord? word cs).map fun r => (r.behind c).notLonger else none
  | _ :: _, [] => none

end StructLayout.Text
