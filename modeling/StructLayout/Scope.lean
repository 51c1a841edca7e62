import StructLayout.OrderedMap
import StructLayout.Ty

/-! Scopes: the declared types of a package or block, and the scopes inside. -/

namespace StructLayout

/-- A declared type. -/
structure TypeName where
  name : String
  pos : Nat
  isAlias : Bool
  ty : Ty
  deriving Repr, Inhabited

namespace TypeName

/-- A defined type whose fields can be put into another order; aliases are not. -/
def isStructDecl (t : TypeName) : Bool :=
  !t.isAlias && t.ty.isNamed && t.ty.fields?.isSome

def isExported (t : TypeName) : Bool :=
  Text.isExportedName t.name

end TypeName

inductive ScopeKind where
  | package (name path : String)
  | block
  deriving DecidableEq, Repr

/-- The types that a scope declares, in the order of their names, and the scopes inside of it. -/
structure Scope where
  kind : ScopeKind
  types : List (String × TypeName) := []
  children : List Scope := []
  deriving Repr

namespace Scope

/-- Declares a type, in place of one with the same name. -/
def declare (s : Scope) (t : TypeName) : Scope :=
  { s with types := OrderedMap.insert compare t.name t s.types }

def objects (s : Scope) : List TypeName :=
  s.types.map (·.2)

def isEmpty (s : Scope) : Bool :=
  s.types.isEmpty && s.children.isEmpty

mutual

/-- Struct declarations in the scope and in those inside of it. -/
def structCount : Scope → Nat
  | ⟨_, types, children⟩ => (types.filter fun t => t.2.isStructDecl).length + structCounts children

def structCounts : List Scope → Nat
  | [] => 0
  | s :: ss => s.structCount + structCounts ss

end

mutual

/-- The types declared in a scope and in those inside of it. -/
def allObjects : Scope → List TypeName
  | ⟨_, types, children⟩ => types.map (·.2) ++ allObjectsIn children

def allObjectsIn : List Scope → List TypeName
  | [] => []
  | s :: ss => s.allObjects ++ allObjectsIn ss

end

theorem allObjects_eq (s : Scope) : s.allObjects = s.objects ++ allObjectsIn s.children := by
  obtain ⟨kind, types, children⟩ := s
  rw [allObjects, objects]

theorem allObjectsIn_eq (scopes : List Scope) :
    allObjectsIn scopes = scopes.flatMap allObjects := by
  induction scopes with
  | nil => rfl
  | cons s ss ih => rw [allObjectsIn, ih, List.flatMap_cons]

end Scope

end StructLayout
