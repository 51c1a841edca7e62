import StructLayout.Locator
import StructLayout.Strategy.Pipe
import StructLayout.Visit.State

/-! Every visit ends: each step leaves less work, whichever task takes it. -/

namespace StructLayout

namespace Visit

theorem tasksWork_append (xs ys : List Task) :
    tasksWork (xs ++ ys) = tasksWork xs + tasksWork ys := by
  simp [tasksWork]

theorem tasksWork_curate (claimed : List (Identity × TypeName)) :
    tasksWork (claimed.map fun c => .lookup c.1 c.2 (fieldsOf c.2) []) = claimedWork claimed := by
  simp [tasksWork, claimedWork, Task.work, curateWork, Function.comp_def]

theorem tasksWork_descend (scopes : List Scope) :
    tasksWork (scopes.map fun s => .scan s s.objects []) = scopesWork scopes := by
  induction scopes with
  | nil => rfl
  | cons s ss ih =>
    obtain ⟨kind, types, children⟩ := s
    have h : tasksWork ((Task.scan ⟨kind, types, children⟩ (types.map (·.2)) []) ::
        ss.map fun s => .scan s s.objects []) = _ := rfl
    simp only [List.map_cons, scopesWork, scopeWork, Scope.objects] at *
    simp only [tasksWork, List.map_cons, total_cons] at *
    rw [ih]
    simp [Task.work, claimedWork]

/-- A step of a task leaves less work than the task. -/
theorem Task.step_work {v : Setting} {status : Option ContextError} {visited : List Identity}
    {b : Backrefs} {t : Task} {e : Effect} (h : t.step v status visited b = some e) :
    tasksWork e.tasks < t.work := by
  unfold Task.step at h
  split at h
  · cases h
    have h1 := tasksWork_curate
    simp only [tasksWork_append, h1]
    simp only [tasksWork, Task.work, scanWork, List.map_cons, List.map_nil, total_cons,
      total_nil]
    omega
  · split at h
    · cases h
      simp only [tasksWork, Task.work, scanWork, List.map_cons, List.map_nil, total_cons,
        total_nil]
      omega
    · split at h
      · cases h
        simp [tasksWork, Task.work, scanWork]
      · dsimp only at h
        split at h
        · cases h
          simp [tasksWork, Task.work, scanWork]
        · cases h
          simp [tasksWork, Task.work, scanWork]; omega
  · cases h
    simp [tasksWork, Task.work, claimedWork]; omega
  · cases h
    dsimp only
    split
    · rw [tasksWork_descend]
      simp [Task.work]
    · simp [tasksWork, Task.work]
  · cases h
    simp [tasksWork, Task.work]
  · dsimp only at h
    split at h
    · cases h
      simp [tasksWork, Task.work]; omega
    · cases h
      simp [tasksWork, Task.work]
  · obtain ⟨size, _, rfl⟩ := Option.map_eq_some_iff.1 h
    simp [tasksWork, Task.work]
  · cases h
    simp [tasksWork, Task.work]
  · cases h
    simp [tasksWork, Task.work]

theorem State.step_work {v : Setting} {status : Option ContextError} {s t : State} {i : Nat}
    (h : s.step v status i = some t) : tasksWork t.tasks < tasksWork s.tasks := by
  obtain ⟨e, he, rfl⟩ := Option.map_eq_some_iff.1 h
  obtain ⟨task, ht, hs⟩ := Option.bind_eq_some_iff.1 he
  have hw := Task.step_work hs
  obtain ⟨hi, rfl⟩ := List.getElem?_eq_some_iff.1 ht
  have hsplit : s.tasks = s.tasks.take i ++ s.tasks[i] :: s.tasks.drop (i + 1) := by simp
  have hsum := congrArg tasksWork hsplit
  simp only [tasksWork_append] at hsum ⊢
  simp only [tasksWork, List.map_cons, total_cons] at *
  omega

namespace State

/-- The state after the first task that need not wait has taken a step. -/
def next? (v : Setting) (status : Option ContextError) (s : State) : Option State :=
  (List.range s.tasks.length).findSome? (s.step v status)

theorem next?_work {v : Setting} {status : Option ContextError} {s t : State}
    (h : s.next? v status = some t) : tasksWork t.tasks < tasksWork s.tasks := by
  obtain ⟨i, _, hi⟩ := List.exists_of_findSome?_eq_some h
  exact step_work hi

/-- Steps until no task can go on. -/
def run (v : Setting) (status : Option ContextError) (s : State) : State :=
  match _next : s.next? v status with
  | none => s
  | some t => run v status t
termination_by tasksWork s.tasks
decreasing_by exact next?_work _next

end State

end Visit

/-- Visits under a pipe, with the files that declarations are found in. -/
structure Visitor where
  platform : Platform
  pipe : Pipe
  wanted : String → Bool
  locator : Locator
  deep : Bool

namespace Visitor

def setting (v : Visitor) : Visit.Setting where
  platform := v.platform
  strategy := v.pipe.apply
  wanted := v.wanted
  identity := v.locator.identity
  location := v.locator.location
  deep := v.deep

/-- Curates the wanted structures of a scope, with those of the scopes inside of it if the visit is
deep. Each identity is curated once. -/
def visit (v : Visitor) (status : Option ContextError) (backref : Bool) (scope : Scope) :
    List Applied :=
  ((Visit.State.start backref scope).run v.setting status).results

end Visitor

end StructLayout
