import StructLayout.Pattern.CharSet

/-!
Patterns for names: regular expressions with anchors. A text is matched in one pass, in which marks
on the sets of characters of a pattern say how far matches have come.
-/

namespace StructLayout

/-- A marked set has just taken a character of the text in some match. -/
inductive Pattern where
  | empty
  | one (set : CharSet) (marked : Bool)
  | atStart
  | atEnd
  | seq (first second : Pattern)
  | alt (first second : Pattern)
  /-- One round or more. -/
  | rounds (p : Pattern)
  deriving DecidableEq, Repr

/-- A place between the characters of a text. -/
structure TextGap where
  isStart : Bool
  isEnd : Bool
  deriving DecidableEq, Repr

namespace Pattern

/-- A set of characters that no match has come to. -/
def ofSet (s : CharSet) : Pattern :=
  .one s false

def optional (p : Pattern) : Pattern :=
  .alt p .empty

def star (p : Pattern) : Pattern :=
  .optional (.rounds p)

/-- The pattern takes no character at the gap. -/
def skips (g : TextGap) : Pattern → Bool
  | .empty => true
  | .one _ _ => false
  | .atStart => g.isStart
  | .atEnd => g.isEnd
  | .seq p q => p.skips g && q.skips g
  | .alt p q => p.skips g || q.skips g
  | .rounds p => p.skips g

/-- A match of the pattern that is under way can end at the gap. -/
def ends (g : TextGap) : Pattern → Bool
  | .empty => false
  | .one _ marked => marked
  | .atStart => false
  | .atEnd => false
  | .seq p q => q.ends g || p.ends g && q.skips g
  | .alt p q => p.ends g || q.ends g
  | .rounds p => p.ends g

/-- The marks behind the character that follows the gap. `enter` says that a match of the pattern
can begin at the gap. -/
def step (g : TextGap) (c : Char) (enter : Bool) : Pattern → Pattern
  | .empty => .empty
  | .one set _ => .one set (enter && set.contains c)
  | .atStart => .atStart
  | .atEnd => .atEnd
  | .seq p q => .seq (p.step g c enter) (q.step g c (p.ends g || enter && p.skips g))
  | .alt p q => .alt (p.step g c enter) (q.step g c enter)
  | .rounds p => .rounds (p.step g c (enter || p.ends g))

/-- A match ends in front of what is left of a text, or behind that. -/
def matchesWithin (p : Pattern) (isStart : Bool) : List Char → Bool
  | [] =>
    let g := ⟨isStart, true⟩
    p.skips g || p.ends g
  | c :: cs =>
    let g := ⟨isStart, false⟩
    p.skips g || p.ends g || (p.step g c true).matchesWithin false cs

/-- Some part of the text matches. -/
def isMatch (p : Pattern) (text : String) : Bool :=
  p.matchesWithin true text.toList

end Pattern

end StructLayout
