import StructLayout.Visit.Run

/-!
Visits under any schedule: at each step any task may go on, and the context may be found in any
state. What a single step can do is said once, as a relation between a task and what it leaves.
-/

namespace StructLayout.Visit

variable {v : Setting} {status : Option ContextError}

/-- The structures that a visit is after. -/
def Setting.wants (v : Setting) (t : TypeName) : Bool :=
  t.isStructDecl && v.wanted t.name

/-- What is published for an outcome. -/
def outcomeSize (a : Applied) : Option Nat :=
  match a.result with
  | .ok st => some st.fieldsSize
  | .error _ => none

/-- The slot that a field is sized from, if there is one. -/
def slotOf (v : Setting) (b : Backrefs) (f : TyField) : Option Nat :=
  f.ty.heldStruct?.bind fun pos => b.slot? (v.identity pos)

/-- The steps of a task, where `visited` and `b` are what all tasks share. -/
inductive Moves (v : Setting) (status : Option ContextError) (visited : List Identity)
    (b : Backrefs) : Task → Effect → Prop
  | spawn {scope claimed} : Moves v status visited b (.scan scope [] claimed)
      ⟨visited, b, claimed.map (fun c => .lookup c.1 c.2 (fieldsOf c.2) []) ++ [.descend scope], []⟩
  | stop {scope t ts claimed} : status ≠ none → Moves v status visited b
      (.scan scope (t :: ts) claimed) ⟨visited, b, [.scan scope [] claimed], []⟩
  | pass {scope t ts claimed} : v.wants t = false → Moves v status visited b
      (.scan scope (t :: ts) claimed) ⟨visited, b, [.scan scope ts claimed], []⟩
  | leave {scope t ts claimed} : v.wants t = true → v.identity t.pos ∈ visited →
      Moves v status visited b (.scan scope (t :: ts) claimed)
        ⟨visited, b, [.scan scope ts claimed], []⟩
  | claim {scope t ts claimed} : v.wants t = true → v.identity t.pos ∉ visited →
      Moves v status visited b (.scan scope (t :: ts) claimed)
        ⟨v.identity t.pos :: visited, b, [.alloc (v.identity t.pos) t scope ts claimed], []⟩
  | alloc {id t scope ts claimed} : Moves v status visited b (.alloc id t scope ts claimed)
      ⟨visited, b.alloc id, [.scan scope ts (claimed ++ [(id, t)])], []⟩
  | descend {scope} : v.deep = true → status = none → Moves v status visited b (.descend scope)
      ⟨visited, b, scope.children.map fun s => .scan s s.objects [], []⟩
  | rest {scope} : v.deep = false ∨ status ≠ none → Moves v status visited b (.descend scope)
      ⟨visited, b, [], []⟩
  | curate {id t sizes} : Moves v status visited b (.lookup id t [] sizes)
      ⟨visited, b, [.publish (apply v status id t sizes)], []⟩
  | wait {id t f fs sizes slot} : slotOf v b f = some slot → Moves v status visited b
      (.lookup id t (f :: fs) sizes) ⟨visited, b, [.await id t slot fs sizes], []⟩
  | plain {id t f fs sizes} : slotOf v b f = none → Moves v status visited b
      (.lookup id t (f :: fs) sizes) ⟨visited, b, [.lookup id t fs (sizes ++ [none])], []⟩
  | read {id t slot fs sizes size} : b.read? slot = some size → Moves v status visited b
      (.await id t slot fs sizes) ⟨visited, b, [.lookup id t fs (sizes ++ [size])], []⟩
  | publish {a} : Moves v status visited b (.publish a)
      ⟨visited, b.publish a.id (outcomeSize a), [.send a], []⟩
  | send {a} : Moves v status visited b (.send a) ⟨visited, b, [], [a]⟩

theorem moves_of_step {visited : List Identity} {b : Backrefs} {task : Task} {e : Effect}
    (h : task.step v status visited b = some e) : Moves v status visited b task e := by
  unfold Task.step at h
  split at h
  · cases h
    exact .spawn
  · rename_i scope t ts claimed
    split at h
    · cases h
      exact .stop (Option.isSome_iff_ne_none.mp ‹_›)
    · split at h
      · cases h
        refine .pass ?_
        rw [Setting.wants]
        revert ‹(!t.isStructDecl || !v.wanted t.name) = true›
        cases t.isStructDecl <;> simp
      · have hw : v.wants t = true := by
          rw [Setting.wants]
          revert ‹¬(!t.isStructDecl || !v.wanted t.name) = true›
          cases t.isStructDecl <;> simp
        dsimp only at h
        split at h <;> cases h
        · exact .leave hw ‹_›
        · exact .claim hw ‹_›
  · cases h
    exact .alloc
  · cases h
    split
    · rename_i hd
      obtain ⟨hd, hs⟩ := Bool.and_eq_true_iff.mp hd
      exact .descend hd (Option.isNone_iff_eq_none.mp hs)
    · rename_i hd
      refine .rest ?_
      cases hv : v.deep
      · exact .inl rfl
      · exact .inr fun hs => hd (by rw [hv, hs]; rfl)
  · cases h
    exact .curate
  · dsimp only at h
    split at h <;> cases h
    · exact .wait ‹_›
    · exact .plain ‹_›
  · obtain ⟨size, hr, rfl⟩ := Option.map_eq_some_iff.mp h
    exact .read hr
  · cases h
    exact .publish
  · cases h
    exact .send

/-- Only a task that waits for an open slot cannot take a step. -/
theorem Task.step_eq_none {visited : List Identity} {b : Backrefs} {task : Task}
    (h : task.step v status visited b = none) :
    ∃ id t slot fs sizes, task = .await id t slot fs sizes ∧ b.read? slot = none := by
  unfold Task.step at h
  split at h
  · cases h
  · split at h
    · cases h
    · split at h
      · cases h
      · dsimp only at h
        split at h <;> cases h
  · cases h
  · cases h
  · cases h
  · dsimp only at h
    split at h <;> cases h
  · exact ⟨_, _, _, _, _, rfl, Option.map_eq_none_iff.mp h⟩
  · cases h
  · cases h

/-- A state in which no task can take a step: every task waits for an open slot. -/
theorem State.blocked {s : State} (h : ∀ i t, s.step v status i ≠ some t) :
    ∀ task ∈ s.tasks, ∃ id t slot fs sizes, task = .await id t slot fs sizes ∧
      s.backrefs.read? slot = none := by
  intro task ht
  obtain ⟨i, hi, rfl⟩ := List.getElem_of_mem ht
  refine Task.step_eq_none (?_ : s.tasks[i].step v status s.visited s.backrefs = none)
  cases he : s.tasks[i].step v status s.visited s.backrefs with
  | none => rfl
  | some e => exact absurd (by rw [State.step, List.getElem?_eq_getElem hi]; simp [he]; rfl) (h i _)

/-- A step of a state is one of a task, and the tasks in front of it and behind it stay. -/
theorem State.step_eq_some {s t : State} {i : Nat} (h : s.step v status i = some t) :
    ∃ front task back e, s.tasks = front ++ task :: back ∧
      Moves v status s.visited s.backrefs task e ∧
      t = ⟨e.visited, e.backrefs, front ++ e.tasks ++ back, s.results ++ e.results⟩ := by
  obtain ⟨e, he, rfl⟩ := Option.map_eq_some_iff.mp h
  obtain ⟨task, ht, hs⟩ := Option.bind_eq_some_iff.mp he
  obtain ⟨hi, rfl⟩ := List.getElem?_eq_some_iff.mp ht
  exact ⟨_, _, _, e, by simp, moves_of_step hs, rfl⟩

/-- The states that follow a state `s`. `seen` is how the steps have found the context, the last
step first. -/
inductive Reaches (v : Setting) (s : State) : List (Option ContextError) → State → Prop
  | start : Reaches v s [] s
  | step {seen status t u i} : Reaches v s seen t → t.step v status i = some u →
      Reaches v s (status :: seen) u

theorem Reaches.trans {s t u : State} {seen later : List (Option ContextError)}
    (h : Reaches v s seen t) (h' : Reaches v t later u) : Reaches v s (later ++ seen) u := by
  induction h' with
  | start => exact h
  | step _ hs ih => exact ih.step hs

/-- The state after steps of the tasks with the given indices, if none of them has to wait. -/
def State.follow (v : Setting) (s : State) : List (Option ContextError × Nat) → Option State
  | [] => some s
  | (status, i) :: steps => (s.step v status i).bind fun t => t.follow v steps

theorem reaches_of_follow {s t : State} {steps : List (Option ContextError × Nat)}
    (h : s.follow v steps = some t) : Reaches v s (steps.map Prod.fst).reverse t := by
  induction steps generalizing s with
  | nil =>
    cases h
    exact .start
  | cons step steps ih =>
    obtain ⟨u, hu, hut⟩ := Option.bind_eq_some_iff.mp h
    have := (Reaches.start.step hu).trans (ih hut)
    rwa [List.map_cons, List.reverse_cons]

/-- The schedule that always takes the first task that need not wait is one of all. -/
theorem reaches_run (v : Setting) (status : Option ContextError) (s : State) :
    ∃ n, Reaches v s (List.replicate n status) (s.run v status) := by
  unfold State.run
  split
  · exact ⟨0, .start⟩
  · rename_i t ht
    obtain ⟨i, -, hi⟩ := List.exists_of_findSome?_eq_some ht
    obtain ⟨n, hn⟩ := reaches_run v status t
    refine ⟨n + 1, ?_⟩
    have := (Reaches.start.step hi).trans hn
    rwa [← List.replicate_succ'] at this
termination_by tasksWork s.tasks
decreasing_by exact State.next?_work ‹_›

/-- A run ends only where no task can take a step. -/
theorem State.step_run (v : Setting) (status : Option ContextError) (s : State) (i : Nat) :
    (s.run v status).step v status i = none := by
  unfold State.run
  split
  · rename_i h
    by_cases hi : i < s.tasks.length
    · exact List.findSome?_eq_none_iff.mp h i (List.mem_range.mpr hi)
    · rw [State.step, List.getElem?_eq_none (Nat.le_of_not_lt hi)]
      rfl
  · exact State.step_run v status _ i
termination_by tasksWork s.tasks
decreasing_by exact State.next?_work ‹_›

end StructLayout.Visit
