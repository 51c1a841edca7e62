import StructLayout.Proofs.Sequence
import StructLayout.Strategy.Replay

/-!
How replaying cuts a structure into groups: every field is a member of one group, and a group lists
the strategies of one of its members.
-/

namespace StructLayout

namespace Member

theorem ofField_field {f : Field} {m : Member} (h : ofField f = .ok m) : m.field = f := by
  unfold ofField at h
  split at h
  · cases h; rfl
  · split at h <;> cases h <;> rfl

theorem enlist_eq {seen out : List Member} {m : Member} (h : enlist seen m = .ok out) :
    out = seen ++ [m] := by
  unfold enlist at h
  dsimp only at h
  split at h
  · cases h
  · split at h
    · cases h
    · cases h; rfl

/-- Members stand in the order of their fields. -/
theorem ofFields_forall₂ {fields : List Field} {members : List Member}
    (h : ofFields fields = .ok members) :
    List.Forall₂ (fun f m => ofField f = .ok m) fields members := by
  have main : ∀ seen, fields.foldlM (fun seen f => do enlist seen (← ofField f)) seen = .ok members →
      ∃ new, members = seen ++ new ∧ List.Forall₂ (fun f m => ofField f = .ok m) fields new := by
    clear h
    induction fields with
    | nil => intro seen h; cases h; exact ⟨[], by simp, .nil⟩
    | cons f fs ih =>
        intro seen h
        obtain ⟨out, hout, h⟩ := bind_eq_ok.mp h
        obtain ⟨m, hm, hout⟩ := bind_eq_ok.mp hout
        obtain ⟨new, rfl, hnew⟩ := ih out h
        exact ⟨m :: new, by simp [enlist_eq hout], .cons hm hnew⟩
  obtain ⟨new, rfl, hnew⟩ := main [] h
  exact hnew

theorem ofFields_field {fields : List Field} {members : List Member}
    (h : ofFields fields = .ok members) : members.map field = fields := by
  have hm := ofFields_forall₂ h
  clear h
  induction hm with
  | nil => rfl
  | cons h _ ih => rw [List.map_cons, ofField_field h, ih]

end Member

namespace FieldGroup

/-- Grouping changes no more than the order of the fields. -/
theorem ofMembers_perm (members : List Member) :
    ((ofMembers members).flatMap fields).Perm (members.map Member.field) := by
  have hp := List.mergeSort_perm (members.map Member.key).eraseDups GroupKey.le
  have hn := hp.nodup_iff.mpr (nodup_eraseDups (members.map Member.key))
  have hc : ∀ m ∈ members, m.key ∈ (members.map Member.key).eraseDups.mergeSort GroupKey.le := by
    intro m hm
    rw [hp.mem_iff, List.mem_eraseDups]
    exact List.mem_map_of_mem hm
  have hall := (flatMap_filter_perm Member.key hn hc).map Member.field
  rw [List.map_flatMap] at hall
  rw [ofMembers, List.flatMap_map]
  exact hall

theorem mem_of_strategies {members : List Member} {g : FieldGroup} {names : List String}
    (hg : g ∈ ofMembers members) (h : g.strategies = some names) :
    ∃ m ∈ members, m.strategies = some names := by
  obtain ⟨key, -, rfl⟩ := List.mem_map.mp hg
  obtain ⟨m, hm, hs⟩ := Option.bind_eq_some_iff.mp h
  exact ⟨m, (List.mem_filter.mp (List.mem_of_mem_head? hm)).1, hs⟩

end FieldGroup

/-- The work of one group: the transforms that its list stands for. -/
def FieldGroup.HasJob (r : Registry) (g : FieldGroup) (job : FieldGroup × List Transform) : Prop :=
  job.1 = g ∧ g.transforms r = .ok job.2

theorem FieldGroup.jobs_of_mapM {r : Registry} {groups : List FieldGroup}
    {jobs : List (FieldGroup × List Transform)}
    (h : groups.mapM (fun g => do return (g, ← g.transforms r)) = .ok jobs) :
    List.Forall₂ (HasJob r) groups jobs := by
  refine (forall₂_of_mapM h).imp fun g job hg => ?_
  obtain ⟨ts, hts, hg⟩ := bind_eq_ok.mp hg
  cases hg
  exact ⟨rfl, hts⟩

/-- What a replay is made of. -/
theorem Struct.replay_ok {r : Registry} {st out : Struct} (h : st.replay r = .ok out) :
    ∃ members jobs, Member.ofFields st.fields = .ok members ∧
      List.Forall₂ (FieldGroup.HasJob r) (FieldGroup.ofMembers members) jobs ∧
      out.name = st.name ∧ out.fields = jobs.flatMap (fun job => (st.applyGroup job).fields) ∧
      ((out.doc, out.comment) = (st.doc, st.comment) ∨
        ∃ job ∈ jobs, (out.doc, out.comment) = ((st.applyGroup job).doc, (st.applyGroup job).comment)) := by
  obtain ⟨members, hm, h⟩ := bind_eq_ok.mp h
  obtain ⟨jobs, hj, h⟩ := bind_eq_ok.mp h
  refine ⟨members, jobs, hm, FieldGroup.jobs_of_mapM hj, ?_⟩
  dsimp only at h
  split at h
  · rename_i job hf
    cases h
    exact ⟨rfl, rfl, .inr ⟨job, List.mem_of_find?_eq_some hf, rfl⟩⟩
  · cases h
    exact ⟨rfl, rfl, .inl rfl⟩

end StructLayout
