/-! How deep the operators of a pattern are nested. -/

namespace StructLayout

/-- Something that was read, with the number of operators around its innermost part. -/
structure Nested (α : Type) where
  value : α
  depth : Nat
  deriving DecidableEq, Repr

namespace Nested

/-- Something that no operator stands in. -/
def flat {α : Type} (a : α) : Nested α :=
  ⟨a, 0⟩

/-- Puts one operator around a part. -/
def wrap {α β : Type} (f : α → β) (p : Nested α) : Nested β :=
  ⟨f p.value, p.depth + 1⟩

def combine {α : Type} (f : α → α → α) (p q : Nested α) : Nested α :=
  ⟨f p.value q.value, max p.depth q.depth + 1⟩

/-- Puts one operator around all parts, unless there is only one or none. -/
def gather {α : Type} (f : List α → α) : List (Nested α) → Nested α
  | [] => flat (f [])
  | [p] => p
  | p :: ps => ⟨f (p.value :: ps.map value), ps.foldl (fun n q => max n q.depth) p.depth + 1⟩

end Nested

end StructLayout
