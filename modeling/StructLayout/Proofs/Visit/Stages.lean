import StructLayout.Proofs.Check.Sight
import StructLayout.Proofs.Visit.Slots

/-!
The stages of a visit. Slots are made scope by scope from the outside in, and structures hold
nothing from the inside; so a structure is curated only when all slots that it needs are there.
-/

namespace StructLayout.Visit

variable {v : Setting} {status : Option ContextError} {visited : List Identity} {b : Backrefs}
  {task : Task} {e : Effect}

/-- The identities whose slots the fields of a declaration are looked up in. -/
def Setting.needs (v : Setting) (t : TypeName) : List Identity :=
  (fieldsOf t).filterMap fun f => f.ty.heldStruct?.map v.identity

/-- A declaration is sized by another one. -/
def Setting.Needs (v : Setting) (t u : TypeName) : Prop :=
  v.identity u.pos ∈ v.needs t

namespace Task

/-- The identity that has been claimed and has no slot yet. -/
def allocating : Task → List Identity
  | .alloc id _ _ _ _ => [id]
  | _ => []

/-- The identities whose slots a task, or one that comes from it, may still make. -/
def ahead (v : Setting) (task : Task) : List Identity :=
  task.allocating ++ (task.pending v).map fun t => v.identity t.pos

/-- The declarations that a task, or one that comes from it, may still curate. -/
def types (v : Setting) (task : Task) : List TypeName :=
  task.claims.map Prod.snd ++ task.pending v

/-- No declaration of one task needs a slot that another one makes. -/
def Separate (v : Setting) (a b : Task) : Prop :=
  ∀ t ∈ a.types v, ∀ id ∈ b.ahead v, id ∉ v.needs t

/-- No declaration of a scope that a task is at needs one from inside. -/
def Staged (v : Setting) : Task → Prop
  | .scan scope rest claimed =>
    (∀ t ∈ claimed.map Prod.snd ++ rest, ∀ u ∈ Scope.allObjectsIn scope.children, ¬ v.Needs t u) ∧
      Scope.LayeredIn v.Needs scope.children
  | .alloc _ t scope rest claimed =>
    (∀ u' ∈ claimed.map Prod.snd ++ t :: rest,
      ∀ u ∈ Scope.allObjectsIn scope.children, ¬ v.Needs u' u) ∧
      Scope.LayeredIn v.Needs scope.children
  | .descend scope => Scope.LayeredIn v.Needs scope.children
  | _ => True

end Task

/-- What comes from a task makes no other slots. -/
theorem Moves.ahead_sub (h : Moves v status visited b task e) :
    ∀ task' ∈ e.tasks, task'.ahead v ⊆ task.ahead v := by
  cases h with
  | spawn =>
    intro task' h
    rcases List.mem_append.mp h with h | h
    · obtain ⟨c, -, rfl⟩ := List.mem_map.mp h
      exact List.nil_subset _
    · rw [List.mem_singleton.mp h]
      exact List.Subset.refl _
  | @descend scope hd =>
    intro task' h
    obtain ⟨s, hs, rfl⟩ := List.mem_map.mp h
    exact List.map_subset _ (Setting.region_sub_inner hd hs)
  | _ => simp [Task.ahead, Task.allocating, Task.pending]

/-- What comes from a task curates nothing else. -/
theorem Moves.types_sub (h : Moves v status visited b task e) :
    ∀ task' ∈ e.tasks, task'.types v ⊆ task.types v := by
  cases h with
  | spawn =>
    intro task' h
    rcases List.mem_append.mp h with h | h
    · obtain ⟨c, hc, rfl⟩ := List.mem_map.mp h
      have hm := List.mem_map_of_mem (f := Prod.snd) hc
      exact List.cons_subset.mpr ⟨List.mem_append_left _ hm, List.nil_subset _⟩
    · rw [List.mem_singleton.mp h]
      exact List.subset_append_right _ _
  | @descend scope hd =>
    intro task' h
    obtain ⟨s, hs, rfl⟩ := List.mem_map.mp h
    exact Setting.region_sub_inner hd hs
  | _ => grind [Task.types, Task.claims, Task.pending]

/-- Scopes next to each other need nothing from each other. -/
theorem separate_descend {scopes : List Scope} (h : Scope.LayeredIn v.Needs scopes) :
    (scopes.map fun s => Task.scan s s.objects []).Pairwise fun a b =>
      Task.Separate v a b ∧ Task.Separate v b a := by
  induction scopes with
  | nil => exact .nil
  | cons s ss ih =>
    obtain ⟨-, hcross, hss⟩ := h
    refine List.pairwise_cons.mpr ⟨fun task ht => ?_, ih hss⟩
    obtain ⟨s', hs', rfl⟩ := List.mem_map.mp ht
    have other : v.region s' ⊆ Scope.allObjectsIn ss := by
      rw [Scope.allObjectsIn_eq]
      exact fun t ht => List.mem_flatMap.mpr ⟨s', hs', v.region_sub s' ht⟩
    constructor
    · intro t ht id hid
      obtain ⟨u, hu, rfl⟩ := List.mem_map.mp hid
      exact (hcross t (v.region_sub s ht) u (other hu)).1
    · intro t ht id hid
      obtain ⟨u, hu, rfl⟩ := List.mem_map.mp hid
      exact (hcross u (v.region_sub s hu) t (other ht)).2

/-- The tasks that come from one need nothing from each other. -/
theorem Moves.separate (h : Moves v status visited b task e) (hs : task.Staged v) :
    e.tasks.Pairwise fun a b => Task.Separate v a b ∧ Task.Separate v b a := by
  cases h with
  | @spawn scope claimed =>
    have ahead_nil (task : Task)
        (ht : task ∈ claimed.map fun c => Task.lookup c.1 c.2 (fieldsOf c.2) []) :
        task.ahead v = [] := by
      obtain ⟨c, -, rfl⟩ := List.mem_map.mp ht
      rfl
    have none_ahead {a task : Task} (h : task.ahead v = []) : Task.Separate v a task := by
      intro t _ id hid
      rw [h] at hid
      cases hid
    refine List.pairwise_append.mpr ⟨?_, List.pairwise_singleton _ _, fun task ht last hl => ?_⟩
    · exact List.pairwise_of_forall_mem_list fun a ha b hb =>
        ⟨none_ahead (ahead_nil b hb), none_ahead (ahead_nil a ha)⟩
    · refine ⟨?_, none_ahead (ahead_nil task ht)⟩
      rw [List.mem_singleton.mp hl]
      obtain ⟨c, hc, rfl⟩ := List.mem_map.mp ht
      intro t ht id hid
      obtain ⟨u, hu, rfl⟩ := List.mem_map.mp hid
      obtain rfl : t = c.2 := List.mem_singleton.mp ht
      exact hs.1 c.2 (List.mem_append_left _ (List.mem_map_of_mem hc)) u (v.inner_sub scope hu)
  | descend => exact separate_descend hs
  | rest | send => exact .nil
  | _ => exact List.pairwise_singleton _ _

theorem staged_descend {scopes : List Scope} (h : Scope.LayeredIn v.Needs scopes) :
    ∀ s ∈ scopes, (Task.scan s s.objects []).Staged v := by
  induction scopes with
  | nil => exact List.forall_mem_nil _
  | cons s ss ih =>
    obtain ⟨hs, -, hss⟩ := h
    refine List.forall_mem_cons.mpr ⟨?_, ih hss⟩
    obtain ⟨kind, types, children⟩ := s
    exact hs

theorem Moves.staged (h : Moves v status visited b task e) (hs : task.Staged v) :
    ∀ task' ∈ e.tasks, task'.Staged v := by
  cases h with
  | spawn =>
    intro task' h
    rcases List.mem_append.mp h with h | h
    · obtain ⟨c, -, rfl⟩ := List.mem_map.mp h
      trivial
    · rw [List.mem_singleton.mp h]
      exact hs.2
  | descend =>
    intro task' h
    obtain ⟨s, hm, rfl⟩ := List.mem_map.mp h
    exact staged_descend hs s hm
  | stop | pass | leave | claim | alloc =>
    refine List.forall_mem_singleton.mpr ⟨fun t ht => hs.1 t ?_, hs.2⟩
    simp only [List.map_append, List.map_cons, List.map_nil, List.mem_append, List.mem_cons] at ht ⊢
    tauto
  | rest | send => exact List.forall_mem_nil _
  | _ => exact List.forall_mem_singleton.mpr trivial

/-- No declaration of a task needs a slot that another task has yet to make. -/
structure Apart (v : Setting) (s : State) : Prop where
  staged : ∀ task ∈ s.tasks, task.Staged v
  separate : s.tasks.Pairwise fun a b => Task.Separate v a b ∧ Task.Separate v b a

theorem apart_start {root : Scope} (h : root.Layered v.Needs) (backref : Bool) :
    Apart v (.start backref root) := by
  have hroot : Scope.LayeredIn v.Needs [root] := ⟨h, fun _ _ _ h => absurd h List.not_mem_nil, trivial⟩
  exact ⟨List.forall_mem_singleton.mpr (staged_descend hroot root List.mem_cons_self),
    List.pairwise_singleton _ _⟩

theorem Apart.step {s t : State} {i : Nat} (ha : Apart v s) (h : s.step v status i = some t) :
    Apart v t := by
  obtain ⟨front, task, back, e, htasks, hm, rfl⟩ := State.step_eq_some h
  obtain ⟨hstaged, hsep⟩ := ha
  rw [htasks] at hstaged hsep
  rw [List.forall_mem_append, List.forall_mem_cons] at hstaged
  have left {a task' : Task} (h : Task.Separate v a task) (ht : task' ∈ e.tasks) :
      Task.Separate v a task' :=
    fun t hta id hid => h t hta id (hm.ahead_sub task' ht hid)
  have right {a task' : Task} (h : Task.Separate v task a) (ht : task' ∈ e.tasks) :
      Task.Separate v task' a :=
    fun t hta id hid => h t (hm.types_sub task' ht hta) id hid
  constructor <;> dsimp only
  case staged =>
    simp only [List.forall_mem_append]
    exact ⟨⟨hstaged.1, hm.staged hstaged.2.1⟩, hstaged.2.2⟩
  case separate =>
    exact pairwise_replace hsep (hm.separate hstaged.2.1)
      (fun a h task' ht => ⟨left h.1 ht, right h.2 ht⟩)
      (fun a h task' ht => ⟨right h.1 ht, left h.2 ht⟩)

/-- Every claimed identity has a slot, or is about to get one. -/
structure Keyed (s : State) : Prop where
  enabled : s.backrefs.enabled = true
  keys : ∀ id ∈ s.visited,
    (∃ slot, (id, slot) ∈ s.backrefs.keys) ∨ id ∈ s.tasks.flatMap Task.allocating

theorem keyed_start (root : Scope) : Keyed (.start true root) where
  enabled := rfl
  keys := List.forall_mem_nil _

/-- Claims get their slots at once. -/
theorem Moves.keys_kept (h : Moves v status visited b task e) (hb : b.enabled = true) :
    e.backrefs.enabled = true ∧
      (∀ id ∈ e.visited, id ∈ visited ∨ id ∈ e.tasks.flatMap Task.allocating) ∧
      ∀ id ∈ task.allocating, ∃ slot, (id, slot) ∈ e.backrefs.keys := by
  cases h with
  | claim =>
    refine ⟨hb, fun id hid => ?_, List.forall_mem_nil _⟩
    rcases List.mem_cons.mp hid with rfl | hid
    · exact .inr List.mem_cons_self
    · exact .inl hid
  | @alloc key =>
    refine ⟨by rw [Backrefs.enabled_alloc, hb], fun _ hid => .inl hid, ?_⟩
    exact List.forall_mem_singleton.mpr (b.mem_alloc key hb)
  | publish =>
    exact ⟨by rw [Backrefs.enabled_publish, hb], fun _ hid => .inl hid, List.forall_mem_nil _⟩
  | _ => exact ⟨hb, fun _ hid => .inl hid, List.forall_mem_nil _⟩

theorem Keyed.step {s t : State} {i : Nat} (hk : Keyed s) (h : s.step v status i = some t) :
    Keyed t := by
  obtain ⟨front, task, back, e, htasks, hm, rfl⟩ := State.step_eq_some h
  obtain ⟨henabled, hkeys⟩ := hk
  obtain ⟨henabled', hvisited, hown⟩ := hm.keys_kept henabled
  refine ⟨henabled', fun id hid => ?_⟩
  simp only [htasks, List.flatMap_append, List.flatMap_cons, List.mem_append] at hkeys ⊢
  rcases hvisited id hid with hid | hid
  · rcases hkeys id hid with ⟨slot, hs⟩ | hf | ht | hb
    · exact .inl ⟨slot, hm.keys_sub hs⟩
    · exact .inr (.inl (.inl hf))
    · exact .inl (hown id ht)
    · exact .inr (.inr hb)
  · exact .inr (.inl (.inr hid))

/-- While the context is not done, no structure is looked up in vain: a slot that its fields need
is there if it is ever made. -/
theorem slot_of_needs {root : Scope} {seen : List (Option ContextError)} {s : State}
    {front back : List Task} {id : Identity} {t u : TypeName} {rest : List TyField}
    {sizes : List (Option Nat)} (ha : Accounted v root seen s)
    (hseen : ∀ status ∈ seen, status = none) (hk : Keyed s) (hp : Apart v s)
    (htasks : s.tasks = front ++ .lookup id t rest sizes :: back) (hu : u ∈ v.targets root)
    (hn : v.Needs t u) : ∃ slot, (v.identity u.pos, slot) ∈ s.backrefs.keys := by
  have hsep := hp.separate
  rw [htasks] at hsep
  obtain ⟨-, hback, hfront⟩ := List.pairwise_append.mp hsep
  have others : ∀ task ∈ s.tasks, v.identity u.pos ∉ task.ahead v := by
    intro task htask hid
    rw [htasks, List.mem_append, List.mem_cons] at htask
    have apart (h : Task.Separate v (.lookup id t rest sizes) task) : False :=
      h t List.mem_cons_self _ hid hn
    rcases htask with hf | rfl | hb
    · exact apart (hfront task hf _ List.mem_cons_self).2
    · cases hid
    · exact apart ((List.pairwise_cons.mp hback).1 task hb).1
  rcases ha.missing hseen u hu with hv | hpend
  · refine (hk.keys _ hv).resolve_right fun hid => ?_
    obtain ⟨task, htask, hid⟩ := List.mem_flatMap.mp hid
    exact others task htask (List.mem_append_left _ hid)
  · obtain ⟨task, htask, hpend⟩ := List.mem_flatMap.mp hpend
    exact absurd (List.mem_append_right _ (List.mem_map_of_mem hpend)) (others task htask)

end StructLayout.Visit
