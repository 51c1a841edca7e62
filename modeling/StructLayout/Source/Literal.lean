import StructLayout.Text.Numeral
import StructLayout.Text.Quoted

/-! The values of integer and string literals, and tags written as literals. -/

namespace StructLayout.Literal

/-- The base of a literal without separators, and its digits. -/
def baseOf : List Char → Nat × List Char
  | ['0'] => (10, ['0'])
  | '0' :: c :: cs =>
    if c = 'x' ∨ c = 'X' then (16, cs)
    else if c = 'b' ∨ c = 'B' then (2, cs)
    else if c = 'o' ∨ c = 'O' then (8, cs)
    else (8, c :: cs)
  | cs => (10, cs)

/-- The value of an integer literal below 2^64. Underscores separate digits. -/
def parseInt (cs : List Char) : Option Nat :=
  let literal := baseOf (cs.filter (· != '_'))
  Text.readNat literal.1 literal.2

/-- Text between quotes, with the escapes of quotes, backslashes and common controls. A backslash
in front of any other character stays, one at the end is refused. -/
def unescape : List Char → Option (List Char)
  | [] => some []
  | ['\\'] => none
  | '\\' :: c :: cs =>
    let out := match c with
      | 'n' => ['\n']
      | 't' => ['\t']
      | 'r' => ['\r']
      | '0' => ['\x00']
      | '\\' => ['\\']
      | '"' => ['"']
      | '\x27' => ['\x27']
      | other => ['\\', other]
    (unescape cs).map (out ++ ·)
  | c :: cs => (unescape cs).map (c :: ·)

/-- A text of two or more characters starts and ends with a mark. -/
def isBetween (mark : Char) (cs : List Char) : Bool :=
  2 ≤ cs.length && cs.head? = some mark && cs.getLast? = some mark

/-- The value of a string literal. Raw ones lose their carriage returns. -/
def unquote (cs : List Char) : Option (List Char) :=
  let inner := cs.tail.dropLast
  if isBetween '\x60' cs then some (inner.filter (· != '\r'))
  else if isBetween '"' cs then unescape inner
  else none

/-- A tag as a literal: raw unless it holds a backquote or a line break. -/
def quoteTag (cs : List Char) : List Char :=
  if cs.contains '\x60' || cs.contains '\n' then Text.quote cs else '\x60' :: cs ++ ['\x60']

end StructLayout.Literal
