import Mathlib
import StructLayout.Proofs.Strategy.Packing
import StructLayout.Proofs.Strategy.Recording

/-!
Replaying what has been recorded. If all fields carry one annotation, a replay does what the pipe of its
strategies does. If every field has a group of its own, a replay of a pack puts the fields into the order
of the texts of their numbers.
-/

namespace StructLayout

/-! ## Fields with annotations -/

/-- The tag of a field holds an annotation. -/
def Field.Carries (f : Field) (a : Annotation) : Prop :=
  ∃ value, Tag.curator? f.tag = some value ∧ Annotation.parse value = .ok (some a)

namespace Field.Carries

variable {f : Field} {a : Annotation}

theorem annotation? (h : f.Carries a) : f.annotation? = some a := by
  obtain ⟨value, hv, ha⟩ := h
  simp [Field.annotation?, hv, ha]

theorem parses (h : f.Carries a) : f.Parses := by
  obtain ⟨value, hv, ha⟩ := h
  intro other ho
  cases hv.symm.trans ho
  exact ⟨some a, ha⟩

theorem group (h : f.Carries a) : f.group = a.key := by
  rw [Field.group, h.annotation?]
  rfl

theorem strategies? (h : f.Carries a) : f.strategies? = some a.strategies := by
  rw [Field.strategies?, h.annotation?]
  rfl

end Field.Carries

/-! ## The parts of a replay -/

namespace GroupKey.Before

variable {a b : GroupKey}

theorem asymm (h : a.Before b) : ¬b.Before a := by
  intro h'
  cases h with
  | named hab =>
    cases h' with
    | named hba => exact lt_asymm hab hba
  | _ => cases h'

theorem ne (h : a.Before b) : a ≠ b := by
  rintro rfl
  exact h.asymm h

end GroupKey.Before

theorem Struct.parts_of_replay {r : Registry} {st out : Struct} (h : st.replay r = .ok out) :
    ∃ parts, st.Parts r parts ∧ out = st.joined parts := by
  simp only [replay_eq, bind_eq_ok, Member.ofFields_eq_ok] at h
  obtain ⟨_, ⟨-, hagree, rfl⟩, jobs, hj, h⟩ := h
  cases h
  exact ⟨_, parts_of_jobs hagree (FieldGroup.jobs_of_mapM hj), rfl⟩

/-- The groups of the parts are known from the fields, and so is their order. -/
theorem Struct.Parts.keys_eq {r : Registry} {st : Struct} {parts : List (GroupKey × Struct)}
    {keys : List GroupKey} (h : st.Parts r parts) (hs : keys.Pairwise GroupKey.Before)
    (hc : ∀ key, key ∈ keys ↔ ∃ f ∈ st.fields, f.group = key) : parts.map Prod.fst = keys := by
  have hperm : (parts.map Prod.fst).Perm keys := by
    refine (List.perm_ext_iff_of_nodup ?_ ?_).mpr fun key => (h.covers key).trans (hc key).symm
    · exact h.ordered.imp GroupKey.Before.ne
    · exact hs.imp GroupKey.Before.ne
  exact hperm.eq_of_pairwise (fun a b _ _ hab hba => absurd hba hab.asymm) h.ordered hs

/-- Fields that list the same strategies can be replayed, if no real name is in two groups. -/
theorem Struct.replayable_of_carries {r : Registry} {st : Struct} {names : List String}
    (hc : ∀ f ∈ st.fields, ∃ a, f.Carries a ∧ a.strategies = names) (hl : r.Lists names)
    (hapart : ∀ f ∈ st.fields, ∀ g ∈ st.fields, f.isPadding = false → g.isPadding = false →
      f.name = g.name → f.group = g.group) : st.Replayable r := by
  have hlist : ∀ f ∈ st.fields, f.strategies? = some names := by
    intro f hf
    obtain ⟨a, ha, rfl⟩ := hc f hf
    exact ha.strategies?
  refine ⟨fun f hf => ?_, hapart, fun f hf g hg _ => (hlist f hf).trans (hlist g hg).symm, ?_⟩
  · obtain ⟨a, ha, -⟩ := hc f hf
    exact ha.parses
  · intro f hf other ho
    cases (hlist f hf).symm.trans ho
    exact hl

/-! ## One annotation for all fields -/

theorem Registry.lists_of_pipe {r : Registry} {names : List String} {p : Pipe}
    (h : r.pipe names = .ok p) (hn : replayName ∉ names) : r.Lists names := by
  rw [pipe_eq hn] at h
  obtain ⟨ts, hts, -⟩ := map_eq_ok.mp h
  exact ⟨hn, (exists_transforms hn).mp ⟨ts, hts⟩⟩

/-- What has been recorded stands for a pipe, as the names did that it has been recorded from. -/
theorem Registry.exists_pipe_recorded {r : Registry} {names : List String} {p : Pipe}
    (h : r.pipe names = .ok p) : ∃ q, r.pipe (recorded names) = .ok q := by
  have hsame : recorded (recorded names) = recorded names := by simp [recorded]
  rw [pipe, exists_mapM, hsame]
  exact fun name hname => exists_mapM.mp ⟨p, h⟩ name (List.mem_of_mem_filter hname)

/-- A replay of one group does to the fields what a pipe does, and to the whole structure if the group
is the default one. -/
def Struct.ReplaysAs (r : Registry) (st : Struct) (group : Option String) (p : Pipe) : Prop :=
  ∃ out own, Pipe.apply [.replay r] none st = .ok out ∧ p.apply none st = .ok own ∧
    out.fields = own.fields ∧ (group = none → out = own)

theorem Struct.replaysAs {r : Registry} {st : Struct} {a : Annotation} {p : Pipe}
    (hne : st.fields ≠ []) (hc : ∀ f ∈ st.fields, f.Carries a) (hp : r.pipe a.strategies = .ok p)
    (hn : replayName ∉ a.strategies) : st.ReplaysAs r a.group p := by
  have hreplayable : st.Replayable r :=
    replayable_of_carries (fun f hf => ⟨a, hc f hf, rfl⟩) (Registry.lists_of_pipe hp hn)
      fun f hf g hg _ _ _ => (hc f hf).group.trans (hc g hg).group.symm
  obtain ⟨out, hout⟩ := exists_replay.mpr hreplayable
  obtain ⟨parts, hparts, rfl⟩ := parts_of_replay hout
  -- all fields are of one group, so there is one part
  obtain ⟨f, fs, hf⟩ := List.exists_cons_of_ne_nil hne
  have hmem : f ∈ st.fields := hf ▸ List.mem_cons_self
  have hkeys : parts.map Prod.fst = [a.key] := by
    refine hparts.keys_eq (List.pairwise_singleton _ _) fun key => ?_
    rw [List.mem_singleton]
    constructor
    · rintro rfl
      exact ⟨f, hmem, (hc f hmem).group⟩
    · rintro ⟨g, hg, rfl⟩
      exact (hc g hg).group
  obtain ⟨⟨key, own⟩, rfl, hkey⟩ := List.map_eq_singleton_iff.mp hkeys
  obtain rfl : key = a.key := hkey
  have honly : st.only a.key = st := by
    have hall : (st.fields.filter fun f => f.group == a.key) = st.fields :=
      List.filter_eq_self.mpr fun g hg => beq_iff_eq.mpr (hc g hg).group
    rw [only, hall]
  obtain ⟨p', hp', hown⟩ := hparts.applied _ (List.mem_singleton_self _) f hmem (hc f hmem).group
  rw [(hc f hmem).strategies?, Option.getD_some, hp] at hp'
  cases hp'
  rw [honly] at hown
  refine ⟨_, own, (bind_pure _).trans hout, hown, by simp [joined], fun hg => ?_⟩
  have hkey : a.key = .default := by
    unfold Annotation.key
    rw [hg]
  have hname : own.name = st.name := (Pipe.run_signatures hown).1
  simp [joined, hkey, ← hname]

/-- If all fields carry one annotation, a replay does what the pipe of its strategies does: always to the
fields, and to the whole structure if the annotation names no group. So replaying what a run of tagging
strategies has recorded is running the recorded strategies again. -/
theorem Pipe.apply_replay_uniform {r : Registry} {st : Struct} {a : Annotation}
    (hne : st.fields ≠ []) (hc : ∀ f ∈ st.fields, f.Carries a) :
    (∀ p, r.pipe a.strategies = .ok p → replayName ∉ a.strategies → st.ReplaysAs r a.group p) ∧
      ∀ names run, r.pipe names = .ok run → a.strategies = Registry.recorded names →
        ∃ p, r.pipe a.strategies = .ok p ∧ st.ReplaysAs r a.group p := by
  refine ⟨fun p hp hn => Struct.replaysAs hne hc hp hn, fun names run hrun hs => ?_⟩
  have hn : replayName ∉ a.strategies := by
    rw [hs]
    intro hm
    cases (List.mem_filter.mp hm).2
  obtain ⟨p, hp⟩ := Registry.exists_pipe_recorded hrun
  rw [← hs] at hp
  exact ⟨p, hp, Struct.replaysAs hne hc hp hn⟩

/-- Fields of the default group. -/
def Struct.repeated : Struct where
  name := "S"
  fields := [.tagged "curator:\"memory_pack,struct_annotate_doc\"" "a" "bool" 1 1,
    .tagged "json:\"x\" curator:\"memory_pack,struct_annotate_doc\"" "b" "int64" 8 8]

theorem Pipe.apply_replay_uniform_repeated :
    ∃ p out, Registry.amd64.pipe ["memory_pack", "struct_annotate_doc"] = .ok p ∧
      p.apply none .repeated = .ok out ∧ Pipe.apply [.replay .amd64] none .repeated = .ok out := by
  have hfields : ∀ f ∈ Struct.repeated.fields,
      f.Carries ⟨none, ["memory_pack", "struct_annotate_doc"]⟩ := by
    have hcurator : Struct.repeated.fields.map (fun f => Tag.curator? f.tag) =
        List.replicate 2 (some "memory_pack,struct_annotate_doc".toList) := by
      cbv
    intro f hf
    refine ⟨"memory_pack,struct_annotate_doc".toList, ?_, by cbv⟩
    exact List.eq_of_mem_replicate (hcurator ▸ List.mem_map_of_mem hf)
  obtain ⟨p, hp, out, own, hout, hown, -, hsame⟩ :=
    (Pipe.apply_replay_uniform (List.cons_ne_nil _ _) hfields).2
      ["memory_pack", "struct_annotate_doc", "add_tag_group_force"] _ rfl (by decide)
  exact ⟨p, own, hp, hown, hsame rfl ▸ hout⟩

/-! ## A group for every field -/

/-- The numbers below `n` in the order of the texts of their successors. -/
def textOrder (n : Nat) : List (Fin n) :=
  (List.finRange n).mergeSort fun i j => decide (toString (i.val + 1) ≤ toString (j.val + 1))

theorem textOrder_perm (n : Nat) : (textOrder n).Perm (List.finRange n) :=
  List.mergeSort_perm _ _

theorem textOrder_pairwise (n : Nat) :
    (textOrder n).Pairwise fun i j => toString (i.val + 1) < toString (j.val + 1) := by
  have hsorted : (textOrder n).Pairwise fun i j =>
      decide (toString (i.val + 1) ≤ toString (j.val + 1)) = true := by
    refine List.pairwise_mergeSort (fun i j k hij hjk => ?_) (fun i j => ?_) _
    · exact decide_eq_true ((of_decide_eq_true hij).trans (of_decide_eq_true hjk))
    · rw [Bool.or_eq_true, decide_eq_true_iff, decide_eq_true_iff]
      exact le_total _ _
  have hnodup : (textOrder n).Nodup := (textOrder_perm n).nodup_iff.mpr (List.nodup_finRange n)
  refine (hsorted.and hnodup).imp fun {i j} h => ?_
  refine lt_of_le_of_ne (of_decide_eq_true h.1) fun he => h.2 (Fin.ext ?_)
  have := Nat.repr_inj.mp he
  omega

example : (textOrder 11).map Fin.val = [0, 9, 10, 1, 2, 3, 4, 5, 6, 7, 8] := by cbv

/-- Numbers of one digit are in their own order. -/
theorem textOrder_eq_finRange {n : Nat} (h : n ≤ 9) : textOrder n = List.finRange n := by
  have hdigits : ∀ i < 9, ∀ j < 9, i < j → toString (i + 1) ≤ toString (j + 1) := by decide
  refine List.mergeSort_of_pairwise ?_
  refine (List.sortedLT_finRange n).pairwise.imp fun {i j} hij => decide_eq_true ?_
  exact hdigits i (by omega) j (by omega) hij

/-- Every field has a group of its own, which its place numbers, and lists nothing but a pack. -/
def Struct.Numbered (st : Struct) (base : String) : Prop :=
  ∀ i : Fin st.fields.length,
    (st.fields.get i).Carries ⟨some (base ++ toString (i.val + 1)), ["memory_pack"]⟩

theorem GroupKey.before_append {base s t : String} (h : s < t) :
    (GroupKey.named (base ++ s)).Before (.named (base ++ t)) := by
  refine .named ?_
  rw [String.lt_iff, String.toList_append, String.toList_append]
  exact List.append_left_lt (String.lt_iff.mp h)

namespace Struct.Numbered

variable {r : Registry} {st : Struct} {base : String}

theorem group (h : st.Numbered base) (i : Fin st.fields.length) :
    (st.fields.get i).group = .named (base ++ toString (i.val + 1)) :=
  (h i).group

theorem group_injective (h : st.Numbered base) {i j : Fin st.fields.length}
    (hg : (st.fields.get i).group = (st.fields.get j).group) : i = j := by
  rw [h.group, h.group, GroupKey.named.injEq, String.append_right_inj] at hg
  have := Nat.repr_inj.mp hg
  exact Fin.ext (by omega)

theorem forall_fields {P : Field → Prop} (h : ∀ i, P (st.fields.get i)) : ∀ f ∈ st.fields, P f := by
  intro f hf
  obtain ⟨i, rfl⟩ := List.get_of_mem hf
  exact h i

theorem only_group (h : st.Numbered base) (i : Fin st.fields.length) :
    st.only (st.fields.get i).group = { st with fields := [st.fields.get i] } := by
  have hindex : ((List.finRange st.fields.length).filter
      fun j => (st.fields.get j).group == (st.fields.get i).group) = [i] := by
    have hsame : ∀ j ∈ List.finRange st.fields.length,
        ((st.fields.get j).group == (st.fields.get i).group) = (j == i) := by
      intro j _
      rw [Bool.eq_iff_iff, beq_iff_eq, beq_iff_eq]
      exact ⟨h.group_injective, fun hj => hj ▸ rfl⟩
    rw [List.filter_congr hsame, List.filter_beq,
      List.count_eq_one_of_mem (List.nodup_finRange _) (List.mem_finRange i), List.replicate_one]
  have hfilter : ((List.finRange st.fields.length).map st.fields.get).filter
      (fun f => f.group == (st.fields.get i).group) = [st.fields.get i] := by
    rw [List.filter_map]
    exact congrArg (List.map st.fields.get) hindex
  rw [List.map_get_finRange] at hfilter
  rw [only, hfilter]

theorem replayable (h : st.Numbered base)
    (hd : ((st.fields.map Field.name).filter (· != padName)).Nodup) : st.Replayable r := by
  have hlists : r.Lists ["memory_pack"] :=
    Registry.lists_of_pipe (p := [.transform .pack]) rfl (by decide)
  have hreal : ((st.fields.filter fun f => !f.isPadding).map Field.name).Nodup := by
    rw [List.filter_map] at hd
    exact hd
  refine replayable_of_carries (forall_fields fun i => ⟨_, h i, rfl⟩) hlists ?_
  intro f hf g hg hfp hgp hn
  have hkept : ∀ e ∈ st.fields, e.isPadding = false → e ∈ st.fields.filter fun f => !f.isPadding :=
    fun e he hp => List.mem_filter.mpr ⟨he, by simp [hp]⟩
  exact congrArg Field.group (List.inj_on_of_nodup_map hreal (hkept f hf hfp) (hkept g hg hgp) hn)

theorem before_textOrder (h : st.Numbered base) : (textOrder st.fields.length).Pairwise fun i j =>
    (st.fields.get i).group.Before (st.fields.get j).group := by
  refine (textOrder_pairwise _).imp fun {i j} hij => ?_
  rw [h.group, h.group]
  exact GroupKey.before_append hij

/-- A replay puts the fields into the order of the texts of their numbers. -/
theorem replay (h : st.Numbered base)
    (hd : ((st.fields.map Field.name).filter (· != padName)).Nodup) :
    st.replay r = .ok { st with fields := (textOrder st.fields.length).map st.fields.get } := by
  obtain ⟨out, hout⟩ := exists_replay.mpr (h.replayable (r := r) hd)
  obtain ⟨parts, hparts, rfl⟩ := parts_of_replay hout
  have hkeys : parts.map Prod.fst =
      (textOrder st.fields.length).map fun i => (st.fields.get i).group := by
    refine hparts.keys_eq (List.pairwise_map.mpr h.before_textOrder) fun key => ?_
    simp [(textOrder_perm _).mem_iff, List.exists_mem_iff_get]
  -- a pack of a lone field is that field
  have hpart : ∀ part ∈ parts, part.1 ≠ .default ∧ part.2 = st.only part.1 := by
    intro part hmem
    have hkey : part.1 ∈ parts.map Prod.fst := List.mem_map_of_mem hmem
    rw [hkeys] at hkey
    obtain ⟨i, -, hi⟩ := List.mem_map.mp hkey
    obtain ⟨p, hp, happly⟩ := hparts.applied part hmem _ (List.get_mem _ i) hi
    rw [(h i).strategies?] at hp
    cases hp
    rw [← hi, h.only_group] at happly ⊢
    refine ⟨by rw [h.group]; exact GroupKey.noConfusion, ?_⟩
    refine (Except.ok.inj happly).symm.trans ?_
    simp [Transform.apply, pack]
  have hfields : parts.flatMap (fun part => part.2.fields) =
      (textOrder st.fields.length).map st.fields.get := by
    have hsame : parts.flatMap (fun part => part.2.fields) =
        (parts.map Prod.fst).flatMap fun key => (st.only key).fields := by
      rw [List.flatMap_map]
      exact List.flatMap_congr fun part hmem => by rw [(hpart part hmem).2]
    rw [hsame, hkeys, List.flatMap_map]
    simp only [h.only_group]
    exact List.map_eq_flatMap.symm
  have hnoted : parts.lookup .default = none := by
    refine List.lookup_eq_none_iff.mpr fun part hmem => ?_
    simpa using (hpart part hmem).1.symm
  rw [hout, joined, hfields, hnoted]
  rfl

/-- That is their own order up to nine fields: the tenth goes in front of the ninth. -/
theorem textOrder_eq_iff (h : st.Numbered base) :
    { st with fields := (textOrder st.fields.length).map st.fields.get } = st ↔
      st.fields.length ≤ 9 := by
  constructor
  · intro hsame
    by_contra hlen
    have hpair : st.fields.Pairwise fun f g => f.group.Before g.group := by
      rw [← congrArg Struct.fields hsame]
      exact List.pairwise_map.mpr h.before_textOrder
    have hninth := List.pairwise_iff_get.mp hpair ⟨8, by omega⟩ ⟨9, by omega⟩ (Fin.mk_lt_mk.mpr (by decide))
    rw [h.group, h.group] at hninth
    have htexts : toString (9 + 1) < toString (8 + 1) := by decide
    exact hninth.asymm (GroupKey.before_append htexts)
  · intro hlen
    rw [textOrder_eq_finRange hlen, List.map_get_finRange]

end Struct.Numbered

theorem Struct.numbered_retag {st : Struct} {group : String} (hg : ';' ∉ group.toList)
    (hst : ∀ f ∈ st.fields, Tag.WellFormed f.tag.toList) :
    (st.retag ⟨.forceDiscrete, ["memory_pack"], group⟩).Numbered
      ((if group.isEmpty then "default" else group) ++ "-") := by
  intro i
  let t : Tagging := ⟨.forceDiscrete, ["memory_pack"], group⟩
  have hi : i.val < st.fields.length := by
    have := i.isLt
    simpa [retag] using this
  have hget : (st.retag t).fields.get i =
      { st.fields[i.val] with tag := t.retag i.val st.fields[i.val].tag } :=
    List.getElem_mapIdx
  have hlabel : ∀ name ∈ t.names, IsLabel name.toList :=
    List.forall_mem_singleton.mpr (Registry.isLabel_fixedNames (by decide))
  rw [hget]
  refine ⟨(t.annotationAt i.val).render.toList, ?_, ?_⟩
  · exact Tagging.curator?_retag _ TagMode.noConfusion (fun hk => by cases hk) (hst _ (List.getElem_mem hi))
  · exact Annotation.parse_annotationAt hlabel i.val |>.mpr ⟨List.cons_ne_nil _ _, hg⟩

theorem Struct.length_retag_pack (t : Tagging) (st : Struct) :
    (st.pack.retag t).fields.length = st.fields.length := by
  simp [retag, st.pack_perm.length_eq]

/-- Replaying a pack that has been recorded with a group for every field keeps up to nine fields as they
are, and puts more of them into the order of the texts of their numbers. -/
theorem Struct.replay_retag {r : Registry} {st : Struct} (hg : ';' ∉ r.tagGroup.toList)
    (hst : ∀ f ∈ st.fields, Tag.WellFormed f.tag.toList)
    (hd : ((st.fields.map Field.name).filter (· != padName)).Nodup) :
    let tagged := st.pack.retag ⟨.forceDiscrete, ["memory_pack"], r.tagGroup⟩
    tagged.replay r =
        .ok { tagged with fields := (textOrder tagged.fields.length).map tagged.fields.get } ∧
      (tagged.replay r = .ok tagged ↔ tagged.fields.length ≤ 9) := by
  intro tagged
  have hnumbered : tagged.Numbered ((if r.tagGroup.isEmpty then "default" else r.tagGroup) ++ "-") :=
    numbered_retag hg fun f hf => hst f (st.pack_perm.mem_iff.mp hf)
  have hsignatures : StructLayout.signatures tagged.fields = StructLayout.signatures st.fields :=
    (Transform.apply_signatures_eq (t := .tagging _) rfl _).trans
      (Transform.apply_signatures_eq (t := .pack) rfl _)
  have hnames : ((tagged.fields.map Field.name).filter (· != padName)).Nodup := by
    rw [← Multiset.coe_nodup, ← map_name_signatures] at hd ⊢
    rwa [hsignatures]
  have hreplay := hnumbered.replay (r := r) hnames
  refine ⟨hreplay, ?_⟩
  rw [← hnumbered.textOrder_eq_iff, hreplay, Except.ok.injEq]

/-- Replaying a pack that has been recorded with a group for every field succeeds, and puts the fields
into the order of the texts of their numbers. So the packed order stays as it is exactly if there are at
most nine fields. -/
theorem Pipe.apply_replay_numbered {r : Registry} {p : Pipe} {st tagged : Struct}
    (hg : ';' ∉ r.tagGroup.toList) (hst : ∀ f ∈ st.fields, Tag.WellFormed f.tag.toList)
    (hd : ((st.fields.map Field.name).filter (· != padName)).Nodup)
    (hp : r.pipe ["memory_pack", "add_tag_group_force_discrete"] = .ok p)
    (ht : p.apply none st = .ok tagged) :
    Pipe.apply [.replay r] none tagged =
        .ok { tagged with fields := (textOrder tagged.fields.length).map tagged.fields.get } ∧
      (Pipe.apply [.replay r] none tagged = .ok tagged ↔ tagged.fields.length ≤ 9) := by
  have hrun : Pipe.apply [.replay r] none tagged = tagged.replay r := bind_pure _
  cases hp
  obtain rfl : st.pack.retag ⟨.forceDiscrete, ["memory_pack"], r.tagGroup⟩ = tagged :=
    Except.ok.inj ht
  rw [hrun]
  exact Struct.replay_retag hg hst hd

theorem Pipe.apply_replay_numbered_mixed :
    ∃ p tagged, Registry.amd64.pipe ["memory_pack", "add_tag_group_force_discrete"] = .ok p ∧
      p.apply none .mixed = .ok tagged ∧ Pipe.apply [.replay .amd64] none tagged = .ok tagged := by
  have hst : ∀ f ∈ Struct.mixed.fields, Tag.WellFormed f.tag.toList := by
    have htags : ∀ f ∈ Struct.mixed.fields, f.tag.toList = [] := by decide
    exact fun f hf => htags f hf ▸ Tag.wellFormed_nil
  refine ⟨_, _, rfl, rfl, ?_⟩
  refine (Pipe.apply_replay_numbered (by decide) hst (by decide) rfl rfl).2.mpr ?_
  exact (Struct.length_retag_pack _ _).trans_le (by decide)

/-- Ten fields in packed order. -/
def Struct.ten : Struct where
  name := "S"
  fields := ["a", "b", "c", "d", "e", "f", "g", "h", "i", "j"].map (.tagged "" · "int64" 8 8)

/-- The tenth of them goes behind the first. -/
theorem Pipe.apply_replay_ten :
    (∀ f ∈ Struct.ten.fields, Tag.WellFormed f.tag.toList) ∧ (Struct.ten.fields.map Field.name).Nodup ∧
      ∃ p tagged, Registry.amd64.pipe ["memory_pack", "add_tag_group_force_discrete"] = .ok p ∧
        p.apply none .ten = .ok tagged ∧ Pipe.apply [.replay .amd64] none tagged ≠ .ok tagged := by
  have hst : ∀ f ∈ Struct.ten.fields, Tag.WellFormed f.tag.toList := by
    have htags : ∀ f ∈ Struct.ten.fields, f.tag.toList = [] := by decide
    exact fun f hf => htags f hf ▸ Tag.wellFormed_nil
  refine ⟨hst, by decide, _, _, rfl, rfl, fun hsame => ?_⟩
  have hreplay : Struct.replay .amd64 (Struct.ten.pack.retag ⟨.forceDiscrete, ["memory_pack"], "g"⟩) =
      .ok (Struct.ten.pack.retag ⟨.forceDiscrete, ["memory_pack"], "g"⟩) := (bind_pure _).symm.trans hsame
  have hlength := (Struct.replay_retag (by decide) hst (by decide)).2.mp hreplay
  rw [Struct.length_retag_pack] at hlength
  revert hlength
  decide

end StructLayout
