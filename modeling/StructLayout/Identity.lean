import StructLayout.Digest.Sha1
import StructLayout.Text.Numeral

/-! Stable keys of declarations. -/

namespace StructLayout

/-- A line number, and behind a dash a digest of the place. Files without a name give the line
alone. -/
structure Identity where
  text : String
  deriving DecidableEq, Repr, Inhabited

namespace Identity

def none : Identity :=
  ⟨""⟩

def ofLine (line : Nat) : Identity :=
  ⟨toString line⟩

def ofPlace (file : String) (line column : Nat) : Identity :=
  ⟨toString line ++ "-" ++ Sha1.digest s!"{file}/{line}:{column}"⟩

def isEmpty (id : Identity) : Bool :=
  id.text.isEmpty

/-- The number in front of the first dash. -/
def line? (id : Identity) : Option Nat :=
  Text.readNat 10 (id.text.toList.takeWhile (· != '-'))

/-- What follows the first dash. -/
def suffix (id : Identity) : String :=
  String.ofList (id.text.toList.dropWhile (· != '-')).tail

/-- Identities with lines are ordered by line, then by what follows, then as texts; others as
texts. -/
def compare (a b : Identity) : Ordering :=
  match a.line?, b.line? with
  | some m, some n =>
    (Ord.compare m n).then ((Ord.compare a.suffix b.suffix).then (Ord.compare a.text b.text))
  | _, _ => Ord.compare a.text b.text

def le (a b : Identity) : Bool :=
  (compare a b).isLE

end Identity

end StructLayout
