import StructLayout.Proofs.Visit.Nesting
import StructLayout.Proofs.Visit.Stages

/-!
What a visit comes to does not depend on its schedule: every slot is closed with the size that the
structure has by itself, and a field is given no size only if there is no such structure.
-/

namespace StructLayout

namespace Backrefs

variable {b : Backrefs} {key key' : Identity} {slot : Nat} {value size : Option Nat}

/-- A slot of some key is closed with a value. -/
def Closed (b : Backrefs) (key : Identity) (value : Option Nat) : Prop :=
  ∃ slot, (key, slot) ∈ b.keys ∧ b.slots[slot]? = some (.closed value)

theorem Numbered.closed_alloc (h : b.Numbered) (hc : (b.alloc key).Closed key' value) :
    b.Closed key' value := by
  obtain ⟨slot, hm, hs⟩ := hc
  unfold Backrefs.alloc at hm hs
  split at hm
  · rename_i hn
    rw [if_pos hn] at hs
    rcases List.mem_append.mp hm with hm | hm
    · rw [List.getElem?_append_left (h.lt hm)] at hs
      exact ⟨slot, hm, hs⟩
    · obtain rfl := (Prod.mk.inj (List.mem_singleton.mp hm)).2
      rw [List.getElem?_concat_length] at hs
      cases hs
  · rename_i hn
    rw [if_neg hn] at hs
    exact ⟨slot, hm, hs⟩

/-- Publishing closes the slot of the key, and changes no slot that is closed. -/
theorem Numbered.closed_publish (h : b.Numbered) (hc : (b.publish key size).Closed key' value) :
    b.Closed key' value ∨ key' = key ∧ value = size := by
  obtain ⟨slot, hm, hs⟩ := hc
  rw [keys_publish] at hm
  unfold Backrefs.publish at hs
  split at hs
  · rename_i i hi
    rw [publishAt, List.getElem?_modify] at hs
    obtain ⟨old, hold, he⟩ := Option.map_eq_some_iff.mp hs
    split at he
    · rename_i hslot
      cases old with
      | empty =>
        refine .inr ⟨?_, ?_⟩
        · exact h.key_eq hm (hslot ▸ mem_of_lookup hi)
        · exact (Slot.closed.inj he).symm
      | closed old =>
        cases he
        exact .inl ⟨slot, hm, hold⟩
    · cases he
      exact .inl ⟨slot, hm, hold⟩
  · exact .inl ⟨slot, hm, hs⟩

theorem closed_of_read? (h : b.read? slot = some value) :
    b.slots[slot]? = some (.closed value) := by
  unfold read? at h
  split at h
  · rename_i hs
    rw [hs, Option.some.inj h]
  · cases h

end Backrefs

namespace Visit

variable {v : Setting} {status : Option ContextError} {root : Scope} {s : State}
  {seen : List (Option ContextError)} {b : Backrefs} {visited : List Identity} {task : Task}
  {e : Effect}

/-- Identities tell which struct a field holds. -/
def Consistent (v : Setting) (root : Scope) : Prop :=
  ∀ t ∈ v.targets root, ∀ f ∈ fieldsOf t, ∀ x, f.ty.held? = some x →
    ∀ u ∈ v.targets root, v.identity u.pos = v.identity x.pos →
      u.pos = x.pos ∧ u.name = x.name ∧ u.ty = x.ty

/-- A held struct that the visit claims gives the size that it comes out with. -/
theorem given_eq {t : Ty} {x : Part} {u : TypeName} (hx : t.held? = some x)
    (hu : u ∈ v.targets root) (h : u.pos = x.pos ∧ u.name = x.name ∧ u.ty = x.ty) :
    given v (v.takes root) t = outcomeSize (v.outcome root u) := by
  obtain ⟨hpos, hname, hty⟩ := h
  have htakes : v.takes root x.pos = true :=
    List.any_eq_true.mpr ⟨u, hu, beq_iff_eq.mpr hpos⟩
  have hresult : (v.outcome root u).result =
      v.strategy none { name := x.name, fields := fieldsIn v (v.takes root) x.underlying } := by
    rw [Setting.outcome, hname, hty, Part.ty, fieldsIn]
  rw [given, hx, Option.bind_some, if_pos htakes, outcomeSize, hresult]
  cases v.strategy none _ <;> rfl

/-- A struct that the visit does not claim gives no size. -/
theorem given_eq_none {t : Ty} (h : ∀ pos, t.heldStruct? = some pos → v.takes root pos = false) :
    given v (v.takes root) t = none := by
  rw [given]
  cases hx : t.held? with
  | none => rfl
  | some x =>
    have := h x.pos (by rw [Ty.heldStruct?_eq, hx]; rfl)
    rw [Option.bind_some, if_neg (by rw [this]; exact Bool.false_ne_true)]

namespace Task

/-- The sizes that a task has found are those that its fields are to be given. -/
def Sized (v : Setting) (root : Scope) (b : Backrefs) : Task → Prop
  | .lookup _ t rest sizes =>
    sizes ++ rest.map (fun f => given v (v.takes root) f.ty) =
      (fieldsOf t).map fun f => given v (v.takes root) f.ty
  | .await _ t slot rest sizes => ∃ f ∈ fieldsOf t,
    (sizes ++ (f :: rest).map (fun f => given v (v.takes root) f.ty) =
      (fieldsOf t).map fun f => given v (v.takes root) f.ty) ∧
    ∃ pos, f.ty.heldStruct? = some pos ∧ (v.identity pos, slot) ∈ b.keys
  | .publish a | .send a => a ∈ v.outcomes root
  | _ => True

theorem Sized.mono {b' : Backrefs} (h : task.Sized v root b) (hk : b.keys ⊆ b'.keys) :
    task.Sized v root b' := by
  cases task with
  | await =>
    obtain ⟨f, hf, hs, pos, hp, hm⟩ := h
    exact ⟨f, hf, hs, pos, hp, hk hm⟩
  | _ => exact h

end Task

/-- A slot is closed with the size of a structure with its key. -/
def ClosedWell (v : Setting) (root : Scope) (b : Backrefs) : Prop :=
  ∀ key value, b.Closed key value →
    ∃ u ∈ v.targets root, v.identity u.pos = key ∧ value = outcomeSize (v.outcome root u)

/-- A step closes slots well. -/
theorem Moves.closedWell (h : Moves v status visited b task e) (hb : b.Numbered)
    (hc : ClosedWell v root b) (ht : task.Sized v root b) : ClosedWell v root e.backrefs := by
  intro key value hclosed
  cases h with
  | alloc => exact hc key value (hb.closed_alloc hclosed)
  | publish =>
    rcases hb.closed_publish hclosed with hclosed | ⟨rfl, rfl⟩
    · exact hc key value hclosed
    · obtain ⟨u, hu, rfl⟩ := List.mem_map.mp ht
      exact ⟨u, hu, rfl, rfl⟩
  | _ => exact hc key value hclosed

/-- A task finds the sizes that its fields are to be given, if slots are closed well and there is
one for each structure of the visit that a field holds. -/
theorem Moves.sized (h : Moves v none visited b task e) (hcons : Consistent v root)
    (hb : b.Numbered) (hc : ClosedWell v root b) (hfollows : task.Follows v b)
    (hclaims : ∀ c ∈ task.claims, c.2 ∈ v.targets root ∧ c.1 = v.identity c.2.pos)
    (hslot : ∀ id t rest sizes, task = .lookup id t rest sizes → ∀ u ∈ v.targets root,
      v.Needs t u → ∃ slot, (v.identity u.pos, slot) ∈ b.keys)
    (ht : task.Sized v root b) :
    (∀ task' ∈ e.tasks, task'.Sized v root b) ∧ ∀ a ∈ e.results, a ∈ v.outcomes root := by
  cases h with
  | spawn =>
    refine ⟨fun task' h => ?_, List.forall_mem_nil _⟩
    rcases List.mem_append.mp h with h | h
    · obtain ⟨c, -, rfl⟩ := List.mem_map.mp h
      exact List.nil_append _
    · rw [List.mem_singleton.mp h]
      trivial
  | descend =>
    refine ⟨fun task' h => ?_, List.forall_mem_nil _⟩
    obtain ⟨s, -, rfl⟩ := List.mem_map.mp h
    trivial
  | @curate id t sizes =>
    obtain ⟨htarget, hid⟩ := hclaims (id, t) (List.mem_singleton.mpr rfl)
    dsimp only at htarget hid
    subst hid
    have hs : sizes = (fieldsOf t).map fun f => given v (v.takes root) f.ty := by
      rw [Task.Sized, List.map_nil, List.append_nil] at ht
      exact ht
    refine ⟨List.forall_mem_singleton.mpr ?_, List.forall_mem_nil _⟩
    rw [hs, apply_given]
    exact List.mem_map_of_mem htarget
  | wait hs =>
    obtain ⟨pos, hpos, hm⟩ := slot_mem hs
    have hf := List.IsSuffix.subset hfollows List.mem_cons_self
    exact ⟨List.forall_mem_singleton.mpr ⟨_, hf, ht, pos, hpos, hm⟩, List.forall_mem_nil _⟩
  | @plain id t f fs sizes hs =>
    have hf : f ∈ fieldsOf t := List.IsSuffix.subset hfollows List.mem_cons_self
    have hg : given v (v.takes root) f.ty = none := by
      refine given_eq_none fun pos hpos => ?_
      by_contra htakes
      obtain ⟨u, hu, he⟩ := List.any_eq_true.mp (Bool.not_eq_false _ ▸ htakes)
      rw [beq_iff_eq] at he
      subst he
      have hn : v.Needs t u := List.mem_filterMap.mpr ⟨f, hf, by rw [hpos]; rfl⟩
      obtain ⟨slot, hm⟩ := hslot id t (f :: fs) sizes rfl u hu hn
      rw [slotOf, hpos, Option.bind_some, hb.slot?_eq hm] at hs
      cases hs
    refine ⟨List.forall_mem_singleton.mpr ?_, List.forall_mem_nil _⟩
    rw [Task.Sized, ← (ht : sizes ++ _ = _), List.map_cons, hg, List.append_assoc]
    rfl
  | @read id t slot fs sizes size hr =>
    obtain ⟨f, hf, hs, pos, hpos, hm⟩ := ht
    obtain ⟨u, hu, he, hsize⟩ := hc _ _ ⟨slot, hm, Backrefs.closed_of_read? hr⟩
    rw [Ty.heldStruct?_eq] at hpos
    obtain ⟨x, hx, rfl⟩ := Option.map_eq_some_iff.mp hpos
    have htarget := (hclaims (id, t) (List.mem_singleton.mpr rfl)).1
    have hg := given_eq hx hu (hcons t htarget f hf x hx u hu he)
    refine ⟨List.forall_mem_singleton.mpr ?_, List.forall_mem_nil _⟩
    rw [Task.Sized, ← hs, List.map_cons, hg, hsize, List.append_assoc]
    rfl
  | publish => exact ⟨List.forall_mem_singleton.mpr ht, List.forall_mem_nil _⟩
  | send => exact ⟨List.forall_mem_nil _, List.forall_mem_singleton.mpr ht⟩
  | _ => simp [Task.Sized]

/-- All sizes that are found, published or handed over are those that structures have by
themselves. -/
structure Settled (v : Setting) (root : Scope) (s : State) : Prop where
  slots : ClosedWell v root s.backrefs
  tasks : ∀ task ∈ s.tasks, task.Sized v root s.backrefs
  results : ∀ a ∈ s.results, a ∈ v.outcomes root

theorem settled_start (v : Setting) (backref : Bool) (root : Scope) :
    Settled v root (.start backref root) where
  slots := by
    rintro key value ⟨slot, hm, -⟩
    cases hm
  tasks := List.forall_mem_singleton.mpr trivial
  results := List.forall_mem_nil _

theorem Settled.step {t : State} {i : Nat} (hcons : Consistent v root)
    (ha : Accounted v root seen s) (hseen : ∀ status ∈ seen, status = none) (ho : Orderly v s)
    (hp : Apart v s) (hk : Keyed s) (hs : Settled v root s) (h : s.step v none i = some t) :
    Settled v root t := by
  obtain ⟨front, task, back, e, htasks, hm, rfl⟩ := State.step_eq_some h
  obtain ⟨hslots, htasks', hresults⟩ := hs
  have hmem : task ∈ s.tasks := htasks ▸ List.mem_append_right _ List.mem_cons_self
  have hclaims : ∀ c ∈ task.claims, c.2 ∈ v.targets root ∧ c.1 = v.identity c.2.pos :=
    fun c hc => ha.claims c (List.mem_flatMap.mpr ⟨task, hmem, hc⟩)
  obtain ⟨hown, hnew⟩ := hm.sized hcons ho.numbered hslots (ho.follows task hmem) hclaims
    (fun id t rest sizes he u hu hn => slot_of_needs ha hseen hk hp (he ▸ htasks) hu hn)
    (htasks' task hmem)
  have old : ∀ task : Task, task.Sized v root s.backrefs → task.Sized v root e.backrefs :=
    fun _ h => h.mono hm.keys_sub
  constructor <;> dsimp only
  case slots => exact hm.closedWell ho.numbered hslots (htasks' task hmem)
  case tasks =>
    rw [htasks, List.forall_mem_append, List.forall_mem_cons] at htasks'
    simp only [List.forall_mem_append]
    exact ⟨⟨fun u hu => old u (htasks'.1 u hu), fun u hu => old u (hown u hu)⟩,
      fun u hu => old u (htasks'.2.2 u hu)⟩
  case results => exact List.forall_mem_append.mpr ⟨hresults, hnew⟩

theorem settled_of_reaches (hcons : Consistent v root) (hlayers : root.Layered v.Needs)
    (h : Reaches v (.start true root) seen s) (hseen : ∀ status ∈ seen, status = none) :
    Settled v root s ∧ Apart v s ∧ Keyed s := by
  induction h with
  | start => exact ⟨settled_start v true root, apart_start hlayers true, keyed_start root⟩
  | step h hs ih =>
    obtain ⟨rfl, hbefore⟩ := List.forall_mem_cons.mp hseen
    obtain ⟨hsettled, hp, hk⟩ := ih hbefore
    exact ⟨hsettled.step hcons (accounted_of_reaches h) hbefore (orderly_of_reaches h) hp hk hs,
      hp.step hs, hk.step hs⟩

/-- A visit that ends under a context that is never done hands over the outcomes that structures
have by themselves, under every schedule. -/
theorem results_perm_outcomes (hcons : Consistent v root) (hlayers : root.Layered v.Needs)
    (hid : ((v.targets root).map fun t => v.identity t.pos).Nodup)
    (h : Reaches v (.start true root) seen s) (hseen : ∀ status ∈ seen, status = none)
    (hs : s.tasks = []) : s.results.Perm (v.outcomes root) := by
  have ha := accounted_of_reaches h
  have hperm := ha.results_perm hs
  have hsettled := (settled_of_reaches hcons hlayers h hseen).1
  have houtcomes : ((v.outcomes root).map Applied.id).Nodup := by
    rw [Setting.outcomes, List.map_map]
    exact hid
  refine (List.perm_ext_iff_of_nodup (hperm.nodup_iff.mpr ha.nodup).of_map
    houtcomes.of_map).mpr fun a => ⟨hsettled.results a, fun hout => ?_⟩
  obtain ⟨t, ht, rfl⟩ := List.mem_map.mp hout
  have hv : v.identity t.pos ∈ s.visited := by
    refine (ha.missing hseen t ht).resolve_right fun hp => ?_
    rw [hs] at hp
    cases hp
  obtain ⟨a, har, hae⟩ := List.mem_map.mp (hperm.mem_iff.mpr hv)
  rwa [← List.inj_on_of_nodup_map houtcomes (hsettled.results a har) hout hae]

end Visit

end StructLayout
