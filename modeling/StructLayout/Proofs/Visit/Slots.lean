import StructLayout.Proofs.Check.Parts
import StructLayout.Proofs.Visit.Claims

/-!
The slots of a visit. Each has one key, and as long as it is open a task answers for that key; a
task waits only for a slot of a struct that its structure holds.
-/

namespace StructLayout

namespace Ty

/-- The named struct that values of a type are made of, where sizes of fields come from. -/
def held? : Ty → Option Part
  | .named name pos u => if u.fields?.isSome then some ⟨name, pos, u⟩ else none
  | .array len elem => if len = 0 then none else elem.held?
  | _ => none

theorem heldStruct?_eq (t : Ty) : t.heldStruct? = t.held?.map Part.pos := by
  fun_induction heldStruct? t with
  | case1 name pos u h => rw [held?, if_pos h]; rfl
  | case2 name pos u h => rw [held?, if_neg h]; rfl
  | case3 => rfl
  | case4 len elem h ih => rw [held?, if_neg h, ih]
  | case5 t hn ha =>
    cases t <;> first | rfl | exact absurd rfl (hn _ _ _) | exact absurd rfl (ha _ _)

theorem mem_parts_of_held? {t : Ty} {x : Part} (h : t.held? = some x) : x ∈ t.parts := by
  fun_induction held? t with
  | case1 name pos u hu =>
    cases h
    exact List.mem_cons_self
  | case4 len elem hl ih => exact ih h
  | _ => cases h

end Ty

theorem Slot.publish_ne_empty (value : Option Nat) (slot : Slot) : slot.publish value ≠ .empty := by
  cases slot <;> exact Slot.noConfusion

namespace Backrefs

/-- Slots are numbered in the order of their keys, and no key has two. -/
structure Numbered (b : Backrefs) : Prop where
  slots : b.keys.map Prod.snd = List.range b.slots.length
  keys : (b.keys.map Prod.fst).Nodup

/-- A key has a slot that is open. -/
def Open (b : Backrefs) (key : Identity) : Prop :=
  ∃ slot, (key, slot) ∈ b.keys ∧ b.slots[slot]? = some .empty

variable {b : Backrefs} {key key' : Identity} {slot : Nat}

theorem numbered_start (enabled : Bool) : ({ enabled } : Backrefs).Numbered :=
  ⟨rfl, List.nodup_nil⟩

theorem Numbered.lt (h : b.Numbered) (hm : (key, slot) ∈ b.keys) : slot < b.slots.length := by
  have := List.mem_map_of_mem (f := Prod.snd) hm
  rwa [h.slots, List.mem_range] at this

theorem Numbered.key_eq (h : b.Numbered) (hm : (key, slot) ∈ b.keys)
    (hm' : (key', slot) ∈ b.keys) : key = key' := by
  have hn : (b.keys.map Prod.snd).Nodup := h.slots ▸ List.nodup_range
  exact (Prod.mk.inj (List.inj_on_of_nodup_map hn hm hm' rfl)).1

theorem Numbered.slot?_eq (h : b.Numbered) (hm : (key, slot) ∈ b.keys) :
    b.slot? key = some slot :=
  lookup_of_mem h.keys hm

/-- Only an open slot keeps its reader waiting. -/
theorem Numbered.open_of_read? (h : b.Numbered) (hm : (key, slot) ∈ b.keys)
    (hr : b.read? slot = none) : b.slots[slot]? = some .empty := by
  cases hs : b.slots[slot]? with
  | none => exact absurd (h.lt hm) (Nat.not_lt.mpr (List.getElem?_eq_none_iff.mp hs))
  | some x =>
    cases x with
    | empty => rfl
    | closed value =>
      rw [read?, hs] at hr
      cases hr

theorem keys_alloc (b : Backrefs) (key : Identity) : b.keys ⊆ (b.alloc key).keys := by
  unfold alloc
  split
  · exact List.subset_append_left _ _
  · exact List.Subset.refl _

theorem keys_publish (b : Backrefs) (key : Identity) (size : Option Nat) :
    (b.publish key size).keys = b.keys := by
  unfold publish
  split <;> rfl

@[simp]
theorem enabled_alloc (b : Backrefs) (key : Identity) : (b.alloc key).enabled = b.enabled := by
  unfold alloc
  split <;> rfl

@[simp]
theorem enabled_publish (b : Backrefs) (key : Identity) (size : Option Nat) :
    (b.publish key size).enabled = b.enabled := by
  unfold publish
  split <;> rfl

theorem mem_alloc (b : Backrefs) (key : Identity) (h : b.enabled = true) :
    ∃ slot, (key, slot) ∈ (b.alloc key).keys := by
  cases hs : b.slot? key with
  | none =>
    refine ⟨b.slots.length, ?_⟩
    rw [alloc, if_pos (by rw [h, hs]; rfl)]
    exact List.mem_append_right _ List.mem_cons_self
  | some slot => exact ⟨slot, b.keys_alloc key (mem_of_lookup hs)⟩

theorem Numbered.alloc (h : b.Numbered) (key : Identity) : (b.alloc key).Numbered := by
  unfold Backrefs.alloc
  split
  · rename_i hn
    have hnone := (Bool.and_eq_true_iff.mp hn).2
    refine ⟨?_, ?_⟩
    · simp [h.slots, List.range_succ]
    · rw [List.map_append, List.nodup_append]
      refine ⟨h.keys, List.nodup_singleton _, fun k hk k' hk' he => ?_⟩
      obtain ⟨⟨k, i⟩, hm, rfl⟩ := List.mem_map.mp hk
      rw [List.mem_singleton.mp hk'] at he
      subst he
      rw [h.slot?_eq hm] at hnone
      cases hnone
  · exact h

theorem Numbered.publish (h : b.Numbered) (key : Identity) (size : Option Nat) :
    (b.publish key size).Numbered := by
  unfold Backrefs.publish
  split
  · exact ⟨by simpa [publishAt] using h.slots, h.keys⟩
  · exact h

/-- Making a slot opens at most that slot. -/
theorem Numbered.open_alloc (h : b.Numbered) (ho : (b.alloc key).Open key') :
    key' = key ∨ b.Open key' := by
  obtain ⟨slot, hm, hs⟩ := ho
  unfold Backrefs.alloc at hm hs
  split at hm
  · rename_i hn
    rw [if_pos hn] at hs
    rcases List.mem_append.mp hm with hm | hm
    · rw [List.getElem?_append_left (h.lt hm)] at hs
      exact .inr ⟨slot, hm, hs⟩
    · exact .inl (Prod.mk.inj (List.mem_singleton.mp hm)).1
  · rename_i hn
    rw [if_neg hn] at hs
    exact .inr ⟨slot, hm, hs⟩

/-- A published slot is closed, and no other one changes. -/
theorem Numbered.open_publish {size : Option Nat} (h : b.Numbered)
    (ho : (b.publish key size).Open key') : key' ≠ key ∧ b.Open key' := by
  obtain ⟨slot, hm, hs⟩ := ho
  rw [keys_publish] at hm
  unfold Backrefs.publish at hs
  split at hs
  · rename_i i hi
    rw [publishAt, List.getElem?_modify] at hs
    obtain ⟨old, hold, he⟩ := Option.map_eq_some_iff.mp hs
    split at he
    · exact absurd he (old.publish_ne_empty size)
    · subst he
      refine ⟨?_, slot, hm, hold⟩
      rintro rfl
      rw [h.slot?_eq hm] at hi
      exact ‹¬i = slot› (Option.some.inj hi).symm
  · rename_i hn
    refine ⟨?_, slot, hm, hs⟩
    rintro rfl
    rw [h.slot?_eq hm] at hn
    cases hn

end Backrefs

namespace Visit

variable {v : Setting} {status : Option ContextError} {visited : List Identity} {b : Backrefs}
  {task : Task} {e : Effect}

theorem mem_fields {t : TypeName} {f : TyField} (h : f ∈ fieldsOf t) :
    ∃ fs, t.ty.fields? = some fs ∧ f ∈ fs := by
  unfold fieldsOf at h
  cases hfs : t.ty.fields? with
  | none =>
    rw [hfs] at h
    cases h
  | some fs =>
    rw [hfs] at h
    exact ⟨fs, rfl, h⟩

/-- The struct that a field holds is part of the type with the field. -/
theorem mem_parts_of_mem_fields {t : TypeName} {f : TyField} {x : Part} (hf : f ∈ fieldsOf t)
    (hx : f.ty.held? = some x) : x ∈ t.ty.parts := by
  obtain ⟨fs, hfs, hf⟩ := mem_fields hf
  exact Ty.parts_of_field hfs hf (Ty.mem_parts_of_held? hx)

/-! ## What tasks owe -/

/-- The identities whose slots a task has yet to close. -/
def Task.owed : Task → List Identity
  | .publish a => [a.id]
  | task => task.claims.map Prod.fst

/-- What a task looks up and waits for: sizes of the structs that its fields hold. -/
def Task.Follows (v : Setting) (b : Backrefs) : Task → Prop
  | .lookup _ t rest _ => rest <:+ fieldsOf t
  | .await _ t slot rest _ => ∃ f pos, f :: rest <:+ fieldsOf t ∧ f.ty.heldStruct? = some pos ∧
      (v.identity pos, slot) ∈ b.keys
  | _ => True

theorem Task.Follows.mono {b' : Backrefs} (h : task.Follows v b) (hk : b.keys ⊆ b'.keys) :
    task.Follows v b' := by
  cases task with
  | await =>
    obtain ⟨f, pos, hs, hp, hm⟩ := h
    exact ⟨f, pos, hs, hp, hk hm⟩
  | _ => exact h

theorem Moves.keys_sub (h : Moves v status visited b task e) : b.keys ⊆ e.backrefs.keys := by
  cases h with
  | alloc => exact b.keys_alloc _
  | publish => rw [Backrefs.keys_publish]; exact List.Subset.refl _
  | _ => exact List.Subset.refl _

theorem Moves.numbered (h : Moves v status visited b task e) (hb : b.Numbered) :
    e.backrefs.Numbered := by
  cases h with
  | alloc => exact hb.alloc _
  | publish => exact hb.publish _ _
  | _ => exact hb

theorem owed_curate (claimed : List (Identity × TypeName)) :
    (claimed.map fun c => Task.lookup c.1 c.2 (fieldsOf c.2) []).flatMap Task.owed =
      claimed.map Prod.fst := by
  induction claimed with
  | nil => rfl
  | cons c cs ih => rw [List.map_cons, List.flatMap_cons, ih]; rfl

/-- A step leaves all that the task owes to what comes after it, except what it publishes. -/
theorem Moves.owed_kept (h : Moves v status visited b task e) {key : Identity}
    (hk : key ∈ task.owed) :
    key ∈ e.tasks.flatMap Task.owed ∨ ∃ a, task = .publish a ∧ key = a.id := by
  cases h with
  | publish => exact .inr ⟨_, rfl, List.mem_singleton.mp hk⟩
  | spawn =>
    rw [List.flatMap_append, owed_curate]
    exact .inl (List.mem_append_left _ hk)
  | descend => cases hk
  | _ => exact .inl (by simp_all [Task.owed, Task.claims, Visit.apply])

theorem slot_mem {f : TyField} {slot : Nat} (h : slotOf v b f = some slot) :
    ∃ pos, f.ty.heldStruct? = some pos ∧ (v.identity pos, slot) ∈ b.keys := by
  obtain ⟨pos, hpos, hslot⟩ := Option.bind_eq_some_iff.mp h
  exact ⟨pos, hpos, mem_of_lookup hslot⟩

theorem Moves.follows (h : Moves v status visited b task e) (ht : task.Follows v b) :
    ∀ task' ∈ e.tasks, task'.Follows v e.backrefs := by
  cases h with
  | spawn =>
    intro task' h
    rcases List.mem_append.mp h with h | h
    · obtain ⟨c, -, rfl⟩ := List.mem_map.mp h
      exact List.suffix_refl _
    · rw [List.mem_singleton.mp h]
      trivial
  | descend =>
    intro task' h
    obtain ⟨s, -, rfl⟩ := List.mem_map.mp h
    trivial
  | wait hs =>
    obtain ⟨pos, hpos, hm⟩ := slot_mem hs
    exact List.forall_mem_singleton.mpr ⟨_, pos, ht, hpos, hm⟩
  | plain => exact List.forall_mem_singleton.mpr ((List.suffix_cons _ _).trans ht)
  | read =>
    obtain ⟨f, pos, hs, -, -⟩ := ht
    exact List.forall_mem_singleton.mpr ((List.suffix_cons _ _).trans hs)
  | _ => simp [Task.Follows]

/-- Every open slot is owed, and no task waits for anything else than what its structure holds. -/
structure Orderly (v : Setting) (s : State) : Prop where
  numbered : s.backrefs.Numbered
  owed : ∀ key, s.backrefs.Open key → key ∈ s.tasks.flatMap Task.owed
  follows : ∀ task ∈ s.tasks, task.Follows v s.backrefs

theorem orderly_start (v : Setting) (backref : Bool) (root : Scope) :
    Orderly v (.start backref root) where
  numbered := Backrefs.numbered_start backref
  owed := by
    rintro key ⟨slot, hm, -⟩
    cases hm
  follows := List.forall_mem_singleton.mpr trivial

theorem Orderly.step {s t : State} {i : Nat} (ho : Orderly v s) (h : s.step v status i = some t) :
    Orderly v t := by
  obtain ⟨front, task, back, e, htasks, hm, rfl⟩ := State.step_eq_some h
  obtain ⟨hnum, howed, hfollows⟩ := ho
  rw [htasks, List.forall_mem_append, List.forall_mem_cons] at hfollows
  constructor <;> dsimp only
  case numbered => exact hm.numbered hnum
  case owed =>
    intro key hopen
    -- what was owed before stays so, unless this step has published it
    have kept (hold : key ∈ s.tasks.flatMap Task.owed)
        (hne : ∀ a, task = .publish a → key ≠ a.id) :
        key ∈ (front ++ e.tasks ++ back).flatMap Task.owed := by
      rw [htasks] at hold
      simp only [List.flatMap_append, List.flatMap_cons, List.mem_append] at hold ⊢
      rcases hold with hf | ht | hb
      · exact .inl (.inl hf)
      · rcases hm.owed_kept ht with hk | ⟨a, ha, hk⟩
        · exact .inl (.inr hk)
        · exact absurd hk (hne a ha)
      · exact .inr hb
    cases hm with
    | alloc =>
      rcases hnum.open_alloc hopen with rfl | hold
      · simp [Task.owed, Task.claims]
      · exact kept (howed key hold) (by rintro a ⟨⟩)
    | publish =>
      obtain ⟨hne, hold⟩ := hnum.open_publish hopen
      refine kept (howed key hold) fun a ha => ?_
      cases ha
      exact hne
    | _ => exact kept (howed key hopen) (by rintro a ⟨⟩)
  case follows =>
    have old : ∀ task : Task, task.Follows v s.backrefs → task.Follows v e.backrefs :=
      fun _ h => h.mono hm.keys_sub
    simp only [List.forall_mem_append]
    exact ⟨⟨fun u hu => old u (hfollows.1 u hu), hm.follows hfollows.2.1⟩,
      fun u hu => old u (hfollows.2.2 u hu)⟩

theorem orderly_of_reaches {backref : Bool} {root : Scope} {seen : List (Option ContextError)}
    {s : State} (h : Reaches v (.start backref root) seen s) : Orderly v s := by
  induction h with
  | start => exact orderly_start v backref root
  | step _ hs ih => exact ih.step hs

end Visit

end StructLayout
