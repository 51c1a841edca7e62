import StructLayout.Identity

/-! Back references: the curated sizes of structures, each published at most once. -/

namespace StructLayout

/-- A place for one size; it is closed with the size, or without one. -/
inductive Slot where
  | empty
  | closed (value : Option Nat)
  deriving DecidableEq, Repr

namespace Slot

/-- Closes a slot. The first value stays. -/
def publish (value : Option Nat) : Slot → Slot
  | .empty => .closed value
  | .closed v => .closed v

def isClosed : Slot → Bool
  | .empty => false
  | .closed _ => true

end Slot

/-- Slots by key. A slot outlives its key, for those who have looked it up before. -/
structure Backrefs where
  enabled : Bool
  keys : List (Identity × Nat) := []
  slots : List Slot := []
  deriving DecidableEq, Repr

namespace Backrefs

/-- The slot of a key. -/
def slot? (b : Backrefs) (key : Identity) : Option Nat :=
  b.keys.lookup key

/-- Makes a slot for a key that has none. A disabled store has no slots. -/
def alloc (b : Backrefs) (key : Identity) : Backrefs :=
  if b.enabled && (b.slot? key).isNone then
    { b with keys := b.keys ++ [(key, b.slots.length)], slots := b.slots ++ [.empty] }
  else b

/-- Closes a slot that has been looked up. -/
def publishAt (b : Backrefs) (slot : Nat) (value : Option Nat) : Backrefs :=
  { b with slots := b.slots.modify slot (Slot.publish value) }

/-- Closes the slot of a key; a key without a slot changes nothing. -/
def publish (b : Backrefs) (key : Identity) (value : Option Nat) : Backrefs :=
  match b.slot? key with
  | some slot => b.publishAt slot value
  | none => b

def set (b : Backrefs) (key : Identity) (value : Nat) : Backrefs :=
  b.publish key (some value)

def release (b : Backrefs) (key : Identity) : Backrefs :=
  b.publish key none

/-- What a reader of a slot gets, or none while the slot is open. -/
def read? (b : Backrefs) (slot : Nat) : Option (Option Nat) :=
  match b.slots[slot]? with
  | some (.closed value) => some value
  | _ => none

/-- Closes all slots without a value and forgets the keys. -/
def prune (b : Backrefs) : Backrefs :=
  { b with keys := [], slots := b.slots.map (Slot.publish none) }

end Backrefs

end StructLayout
