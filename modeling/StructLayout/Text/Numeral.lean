/-! Reading whole numbers below 2^64 in a given base. -/

namespace StructLayout.Text

/-- Numbers are held in 64 bits. -/
def wordBound : Nat :=
  Nat.pow 2 64

/-- Numbers with a sign are held in 64 bits too, and are less than this. -/
def signedBound : Nat :=
  Nat.pow 2 63

/-- The value of a digit; letters count from ten in either case. -/
def digitValue (base : Nat) (c : Char) : Option Nat :=
  let value :=
    if '0' ≤ c ∧ c ≤ '9' then some (c.toNat - '0'.toNat)
    else if 'a' ≤ c ∧ c ≤ 'z' then some (c.toNat - 'a'.toNat + 10)
    else if 'A' ≤ c ∧ c ≤ 'Z' then some (c.toNat - 'A'.toNat + 10)
    else none
  value.filter (· < base)

/-- The digits read so far are worth `acc`. -/
def readDigits (base : Nat) : Nat → List Char → Option Nat
  | acc, [] => some acc
  | acc, c :: cs =>
    match digitValue base c with
    | some d => readDigits base (acc * base + d) cs
    | none => none

/-- One or more digits after at most one plus sign, worth less than 2^64. -/
def readNat (base : Nat) (cs : List Char) : Option Nat :=
  let digits := if cs.head? = some '+' then cs.tail else cs
  if digits.isEmpty then none else (readDigits base 0 digits).filter (· < wordBound)

end StructLayout.Text
