import StructLayout.Proofs.Check.Parts
import StructLayout.Proofs.Layout.Extents
import StructLayout.Proofs.Visit.Claims

/-!
Structures that are curated while no size is handed over. Each of their fields has the size of its
type, the structure takes what its type takes, and so does its layout.
-/

namespace StructLayout

/-! ## Stores without keys -/

namespace Backrefs

/-- The stores that come from a new one. -/
inductive Arises (enabled : Bool) : Backrefs → Prop
  | new : Arises enabled { enabled }
  | alloc {b} (key : Identity) : Arises enabled b → Arises enabled (b.alloc key)
  | publishAt {b} (slot : Nat) (value : Option Nat) :
      Arises enabled b → Arises enabled (b.publishAt slot value)
  | publish {b} (key : Identity) (value : Option Nat) :
      Arises enabled b → Arises enabled (b.publish key value)
  | prune {b} : Arises enabled b → Arises enabled b.prune

/-- A store that is off, in which nothing can be looked up. -/
def Off (b : Backrefs) : Prop :=
  b.enabled = false ∧ b.keys = []

variable {b : Backrefs}

theorem Off.alloc (h : b.Off) (key : Identity) : b.alloc key = b := by
  rw [Backrefs.alloc, h.1]
  rfl

theorem publish_of_keys_nil (h : b.keys = []) (key : Identity) (value : Option Nat) :
    b.publish key value = b := by
  rw [publish, slot?, h]
  rfl

theorem Arises.off (h : Arises false b) : b.Off := by
  induction h with
  | new => exact ⟨rfl, rfl⟩
  | alloc key _ ih => rwa [ih.alloc key]
  | publishAt _ _ _ ih => exact ih
  | publish key value _ ih => rwa [publish_of_keys_nil ih.2]
  | prune _ ih => exact ⟨ih.1, rfl⟩

end Backrefs

namespace Visit

variable {v : Setting} {status : Option ContextError} {visited : List Identity} {b : Backrefs}
  {task : Task} {e : Effect}

theorem slotOf_eq_none (h : b.keys = []) (f : TyField) : slotOf v b f = none := by
  unfold slotOf Backrefs.slot?
  rw [h]
  cases f.ty.heldStruct? <;> rfl

/-! ## A task that is alone -/

theorem State.run_of_step {rs : List Applied} (h : task.step v status visited b = some e) :
    State.run v status ⟨visited, b, [task], rs⟩ =
      State.run v status ⟨e.visited, e.backrefs, e.tasks, rs ++ e.results⟩ := by
  have hstep : State.step v status ⟨visited, b, [task], rs⟩ 0 =
      some ⟨e.visited, e.backrefs, e.tasks, rs ++ e.results⟩ := by
    simp [State.step, h]
  have hnext : State.next? v status ⟨visited, b, [task], rs⟩ =
      some ⟨e.visited, e.backrefs, e.tasks, rs ++ e.results⟩ := by
    simp [State.next?, List.range_succ, hstep]
  rw [State.run]
  split <;> simp_all

theorem State.run_nil {rs : List Applied} :
    State.run v status ⟨visited, b, [], rs⟩ = ⟨visited, b, [], rs⟩ := by
  rw [State.run]
  split
  · rfl
  · rename_i h
    cases h

/-- What has been curated is handed over. -/
theorem results_publish {a : Applied} :
    (State.run v status ⟨visited, b, [.publish a], []⟩).results = [a] := by
  rw [State.run_of_step rfl, State.run_of_step rfl, State.run_nil]
  rfl

/-- Without slots the fields that are left get the sizes of their types. -/
theorem results_lookup (h : b.keys = []) (id : Identity) (t : TypeName) (rest : List TyField)
    (sizes : List (Option Nat)) :
    (State.run v status ⟨visited, b, [.lookup id t rest sizes], []⟩).results =
      [apply v status id t (sizes ++ rest.map fun _ => none)] := by
  induction rest generalizing sizes with
  | nil =>
    rw [State.run_of_step rfl]
    simpa using results_publish
  | cons f fs ih =>
    have hslot : (f.ty.heldStruct?.bind fun pos => b.slot? (v.identity pos)) = none :=
      slotOf_eq_none h f
    have hstep : (Task.lookup id t (f :: fs) sizes).step v status visited b =
        some ⟨visited, b, [.lookup id t fs (sizes ++ [none])], []⟩ := by
      rw [Task.step, hslot]
    rw [State.run_of_step hstep, List.nil_append, ih, List.map_cons, List.append_assoc]
    rfl

/-! ## Visits that hand no sizes over -/

/-- An outcome whose origin is the structure of a type. -/
def Setting.Plain (v : Setting) (a : Applied) : Prop :=
  ∃ t, a.origin = Struct.plain v.platform t.name (fieldsOf t)

/-- All fields looked at so far have the sizes of their types. -/
def Task.Sizeless (v : Setting) : Task → Prop
  | .lookup _ t rest sizes => sizes ++ rest.map (fun _ => none) = (fieldsOf t).map fun _ => none
  | .await .. => False
  | .publish a | .send a => v.Plain a
  | _ => True

theorem Moves.off (h : Moves v status visited b task e) (hb : b.Off) : e.backrefs.Off := by
  cases h with
  | alloc => rwa [hb.alloc]
  | publish => rwa [Backrefs.publish_of_keys_nil hb.2]
  | _ => exact hb

theorem Moves.sizeless (h : Moves v status visited b task e) (hb : b.Off)
    (ht : task.Sizeless v) :
    (∀ task' ∈ e.tasks, task'.Sizeless v) ∧ ∀ a ∈ e.results, v.Plain a := by
  cases h with
  | @spawn scope claimed =>
    refine ⟨fun task' h => ?_, by simp⟩
    rcases List.mem_append.mp h with h | h
    · obtain ⟨c, -, rfl⟩ := List.mem_map.mp h
      exact List.nil_append _
    · rw [List.mem_singleton.mp h]
      trivial
  | descend => simp [Task.Sizeless]
  | @curate id t sizes =>
    have hs : sizes = (fieldsOf t).map fun _ => none := by simpa [Task.Sizeless] using ht
    have hplain : v.Plain (Visit.apply v status id t sizes) := ⟨t, by rw [hs]; rfl⟩
    exact ⟨List.forall_mem_singleton.mpr hplain, by simp⟩
  | wait hs => simp [slotOf_eq_none hb.2] at hs
  | plain => exact ⟨by simpa [Task.Sizeless] using ht, by simp⟩
  | read => cases ht
  | publish => exact ⟨List.forall_mem_singleton.mpr ht, by simp⟩
  | send => exact ⟨by simp, List.forall_mem_singleton.mpr ht⟩
  | _ => simp [Task.Sizeless]

/-- Under every schedule, a visit that hands no sizes over curates the structures of types. -/
theorem plain_of_reaches {root : Scope} {seen : List (Option ContextError)} {s : State}
    (h : Reaches v (.start false root) seen s) : ∀ a ∈ s.results, v.Plain a := by
  have hinv : s.backrefs.Off ∧ (∀ task ∈ s.tasks, task.Sizeless v) ∧
      ∀ a ∈ s.results, v.Plain a := by
    induction h with
    | start => exact ⟨⟨rfl, rfl⟩, by simp [State.start, Task.Sizeless], by simp [State.start]⟩
    | step _ hs ih =>
      obtain ⟨front, task, back, e, htasks, hm, rfl⟩ := State.step_eq_some hs
      obtain ⟨hoff, hall, hdone⟩ := ih
      rw [htasks, List.forall_mem_append, List.forall_mem_cons] at hall
      obtain ⟨hnew, hout⟩ := hm.sizeless hoff hall.2.1
      refine ⟨hm.off hoff, ?_, List.forall_mem_append.mpr ⟨hdone, hout⟩⟩
      simp only [List.forall_mem_append]
      exact ⟨⟨hall.1, hnew⟩, hall.2.2⟩
  exact hinv.2.2

/-! ## Extents -/

/-- Two structures in an array, and a byte behind them. -/
def paired : TypeName :=
  let field := fun name ty => { name, ty, tag := "", embedded := false, exported := false }
  let inner := Ty.named "S" 3 (.struct [field "x" (.basic .int64), field "y" (.basic .bool)])
  ⟨"T", 9, false, .named "T" 9 (.struct [field "a" (.array 2 inner), field "b" (.basic .int8)])⟩

end Visit

end StructLayout
