import StructLayout.Identity
import StructLayout.Scope
import StructLayout.Strategy.Error
import StructLayout.Total
import StructLayout.Visit.Backref
import StructLayout.Visit.Convert

/-! Visiting a tree of scopes. Tasks that go on independently of each other find the structures and
curate them; a state takes one step of one task at a time. -/

namespace StructLayout

/-- The outcome for one structure. -/
structure Applied where
  id : Identity
  location : String
  origin : Struct
  result : Except StrategyError Struct

namespace Visit

/-- What a visit is given: how declarations are found, which are wanted and how each is curated. -/
structure Setting where
  platform : Platform
  strategy : Option ContextError → Struct → Except StrategyError Struct
  wanted : String → Bool
  identity : Nat → Identity
  location : Nat → String
  deep : Bool

/-- A task with the rest of its work. -/
inductive Task where
  /-- Goes through the types of a scope; the structures claimed so far stand in the list. -/
  | scan (scope : Scope) (rest : List TypeName) (claimed : List (Identity × TypeName))
  /-- Has claimed a structure, and makes the slot for its size next. -/
  | alloc (id : Identity) (type : TypeName) (scope : Scope) (rest : List TypeName)
      (claimed : List (Identity × TypeName))
  /-- Starts on the scopes inside of a scope. -/
  | descend (scope : Scope)
  /-- Looks up the sizes of the structs that the fields hold. -/
  | lookup (id : Identity) (type : TypeName) (rest : List TyField) (sizes : List (Option Nat))
  /-- Waits for the size of the first field left. -/
  | await (id : Identity) (type : TypeName) (slot : Nat) (rest : List TyField)
      (sizes : List (Option Nat))
  /-- Publishes the size of a curated structure. -/
  | publish (applied : Applied)
  /-- Hands the outcome over. -/
  | send (applied : Applied)

structure State where
  visited : List Identity
  backrefs : Backrefs
  tasks : List Task
  results : List Applied

/-- One task, which goes through the outermost scope. -/
def State.start (backref : Bool) (scope : Scope) : State :=
  { visited := [], backrefs := { enabled := backref }, results := [],
    tasks := [.scan scope scope.objects []] }

/-- What one step of a task leaves: the shared state, the tasks in its place, the outcomes. -/
structure Effect where
  visited : List Identity
  backrefs : Backrefs
  tasks : List Task
  results : List Applied := []

def fieldsOf (type : TypeName) : List TyField :=
  type.ty.fields?.getD []

/-- The structure of a type, and its outcome under the strategy. -/
def apply (v : Setting) (status : Option ContextError) (id : Identity) (type : TypeName)
    (sizes : List (Option Nat)) : Applied :=
  let origin := Struct.ofType v.platform type.name sizes (fieldsOf type)
  { id, location := v.location type.pos, origin, result := v.strategy status origin }

/-- A step of a task, if it need not wait. -/
def Task.step (v : Setting) (status : Option ContextError) (visited : List Identity)
    (b : Backrefs) : Task → Option Effect
  | .scan scope [] claimed =>
    let curate := claimed.map fun c => .lookup c.1 c.2 (fieldsOf c.2) []
    some { visited, backrefs := b, tasks := curate ++ [.descend scope] }
  | .scan scope (t :: ts) claimed =>
    if status.isSome then some { visited, backrefs := b, tasks := [.scan scope [] claimed] }
    else if !t.isStructDecl || !v.wanted t.name then
      some { visited, backrefs := b, tasks := [.scan scope ts claimed] }
    else
      let id := v.identity t.pos
      if id ∈ visited then some { visited, backrefs := b, tasks := [.scan scope ts claimed] }
      else some { visited := id :: visited, backrefs := b, tasks := [.alloc id t scope ts claimed] }
  | .alloc id t scope ts claimed =>
    some { visited, backrefs := b.alloc id, tasks := [.scan scope ts (claimed ++ [(id, t)])] }
  | .descend scope =>
    let inner := scope.children.map fun s => .scan s s.objects []
    some { visited, backrefs := b, tasks := if v.deep && status.isNone then inner else [] }
  | .lookup id t [] sizes =>
    some { visited, backrefs := b, tasks := [.publish (apply v status id t sizes)] }
  | .lookup id t (f :: fs) sizes =>
    let slot := f.ty.heldStruct?.bind fun pos => b.slot? (v.identity pos)
    match slot with
    | some slot => some { visited, backrefs := b, tasks := [.await id t slot fs sizes] }
    | none => some { visited, backrefs := b, tasks := [.lookup id t fs (sizes ++ [none])] }
  | .await id t slot fs sizes =>
    (b.read? slot).map fun size =>
      { visited, backrefs := b, tasks := [.lookup id t fs (sizes ++ [size])] }
  | .publish a =>
    let size := match a.result with
      | .ok st => some st.fieldsSize
      | .error _ => none
    some { visited, backrefs := b.publish a.id size, tasks := [.send a] }
  | .send a => some { visited, backrefs := b, tasks := [], results := [a] }

namespace State

/-- A step of the task with an index. -/
def step (v : Setting) (status : Option ContextError) (s : State) (i : Nat) : Option State :=
  (s.tasks[i]?.bind fun t => t.step v status s.visited s.backrefs).map fun e =>
    { visited := e.visited, backrefs := e.backrefs, results := s.results ++ e.results,
      tasks := s.tasks.take i ++ e.tasks ++ s.tasks.drop (i + 1) }

end State

/-! The work that is left, which every step makes less. -/

/-- Steps to curate a structure of a type. -/
def curateWork (t : TypeName) : Nat :=
  2 * (fieldsOf t).length + 3

def scanWork (ts : List TypeName) : Nat :=
  total (ts.map fun t => curateWork t + 2)

def claimedWork (claimed : List (Identity × TypeName)) : Nat :=
  total (claimed.map fun c => curateWork c.2)

mutual

/-- Steps to visit a scope and the scopes inside of it. -/
def scopeWork : Scope → Nat
  | ⟨_, types, children⟩ => scanWork (types.map (·.2)) + scopesWork children + 2

def scopesWork : List Scope → Nat
  | [] => 0
  | s :: ss => scopeWork s + scopesWork ss

end

/-- Steps of a task and of those that come from it. -/
def Task.work : Task → Nat
  | .scan scope rest claimed => scanWork rest + claimedWork claimed + scopesWork scope.children + 2
  | .alloc _ t scope rest claimed =>
    scanWork rest + claimedWork claimed + curateWork t + scopesWork scope.children + 3
  | .descend scope => scopesWork scope.children + 1
  | .lookup _ _ rest _ => 2 * rest.length + 3
  | .await _ _ _ rest _ => 2 * rest.length + 4
  | .publish _ => 2
  | .send _ => 1

def tasksWork (tasks : List Task) : Nat :=
  total (tasks.map Task.work)

end Visit

end StructLayout
