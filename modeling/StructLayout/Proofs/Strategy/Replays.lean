import Mathlib
import StructLayout.Proofs.Strategy.RealFields

/-!
What replaying annotations does. It succeeds exactly for the structures whose annotations can be read,
claim no name for two groups, agree within each group and list strategies that exist. The result puts
the groups together in their order, each changed by the pipe that its fields list.
-/

namespace StructLayout

/-! ## The annotations of fields -/

namespace Field

/-- The annotation of a field, if it has one that says something. -/
def annotation? (f : Field) : Option Annotation :=
  match (Tag.curator? f.tag).map Annotation.parse with
  | some (.ok a) => a
  | _ => none

/-- The group that the annotation of a field names. -/
def group (f : Field) : GroupKey :=
  f.annotation?.elim .untagged Annotation.key

def strategies? (f : Field) : Option (List String) :=
  f.annotation?.map Annotation.strategies

/-- What the tag of a field says about it can be read. -/
def Parses (f : Field) : Prop :=
  ∀ value, Tag.curator? f.tag = some value → ∃ a, Annotation.parse value = .ok a

def member (f : Field) : Member :=
  ⟨f, f.group, f.strategies?⟩

end Field

namespace Member

theorem ofField_eq_ok {f : Field} {m : Member} : ofField f = .ok m ↔ f.Parses ∧ m = f.member := by
  unfold ofField Field.Parses Field.member Field.group Field.strategies? Field.annotation?
  cases hv : Tag.curator? f.tag with
  | none => simp [eq_comm]
  | some value =>
    cases ha : Annotation.parse value with
    | error reason => simp [ha]
    | ok a => cases a <;> simp [ha, eq_comm]

/-- Two members can be in one structure: a real name is in one group, a group has one list. -/
def Agrees (m o : Member) : Prop :=
  (m.field.isPadding = false → o.field.isPadding = false → m.field.name = o.field.name →
      m.key = o.key) ∧
    (m.key = o.key → m.strategies = o.strategies)

theorem Agrees.refl (m : Member) : m.Agrees m :=
  ⟨fun _ _ _ => rfl, fun _ => rfl⟩

theorem Agrees.symm {m o : Member} (h : m.Agrees o) : o.Agrees m :=
  ⟨fun ho hm hn => (h.1 hm ho hn.symm).symm, fun hk => (h.2 hk.symm).symm⟩

theorem agrees_of_mem {members : List Member} (h : members.Pairwise Agrees) {m o : Member}
    (hm : m ∈ members) (ho : o ∈ members) : m.Agrees o := by
  have : Std.Symm Agrees := ⟨fun _ _ => Agrees.symm⟩
  exact h.forall_of_forall (fun m _ => .refl m) hm ho

theorem pairwise_agrees {fields : List Field} : (fields.map Field.member).Pairwise Agrees ↔
    ∀ f ∈ fields, ∀ g ∈ fields, f.member.Agrees g.member := by
  constructor
  · intro h f hf g hg
    exact agrees_of_mem h (List.mem_map_of_mem hf) (List.mem_map_of_mem hg)
  · intro h
    exact List.pairwise_map.mpr (List.pairwise_of_forall_mem_list h)

theorem enlist_eq_ok {seen out : List Member} {m : Member} :
    enlist seen m = .ok out ↔ (∀ o ∈ seen, o.Agrees m) ∧ out = seen ++ [m] := by
  unfold enlist
  dsimp only
  split
  · rename_i o ho
    have hr := List.find?_some ho
    simp only [Bool.and_eq_true, Bool.not_eq_true', beq_iff_eq, bne_iff_ne] at hr
    obtain ⟨⟨⟨hm, hp⟩, hn⟩, hk⟩ := hr
    refine iff_of_false (by simp) fun h => hk ?_
    exact (h.1 o (List.mem_of_find?_eq_some ho)).1 hp hm hn
  · rename_i hnone
    have apart : ∀ o ∈ seen, o.field.isPadding = false → m.field.isPadding = false →
        o.field.name = m.field.name → o.key = m.key := by
      intro o ho hp hm hn
      have hr := List.find?_eq_none.mp hnone o ho
      simpa [hp, hm, hn] using hr
    split
    · rename_i hany
      obtain ⟨o, ho, hr⟩ := List.any_eq_true.mp hany
      simp only [Bool.and_eq_true, beq_iff_eq, bne_iff_ne] at hr
      exact iff_of_false (by simp) fun h => hr.2 ((h.1 o ho).2 hr.1)
    · rename_i hall
      have agree : ∀ o ∈ seen, o.key = m.key → o.strategies = m.strategies := by
        intro o ho hk
        by_contra hne
        exact hall (List.any_eq_true.mpr ⟨o, ho, by simp [hk, hne]⟩)
      constructor
      · intro h
        cases h
        exact ⟨fun o ho => ⟨apart o ho, agree o ho⟩, rfl⟩
      · rintro ⟨-, rfl⟩
        rfl

/-- The members of a structure are those of its fields, if any two of them agree. -/
theorem ofFields_eq_ok {fields : List Field} {members : List Member} :
    ofFields fields = .ok members ↔ (∀ f ∈ fields, f.Parses) ∧
      (fields.map Field.member).Pairwise Agrees ∧ members = fields.map Field.member := by
  -- Behind members seen already, the new ones have to agree with those, too.
  have main : ∀ seen, fields.foldlM (fun seen f => do enlist seen (← ofField f)) seen = .ok members ↔
      (∀ f ∈ fields, f.Parses) ∧ (∀ o ∈ seen, ∀ m ∈ fields.map Field.member, o.Agrees m) ∧
        (fields.map Field.member).Pairwise Agrees ∧ members = seen ++ fields.map Field.member := by
    induction fields with
    | nil => intro seen; simp [pure, Except.pure, eq_comm]
    | cons f fs ih =>
      intro seen
      rw [List.foldlM_cons, bind_eq_ok]
      simp only [bind_eq_ok, ofField_eq_ok, enlist_eq_ok, ih, List.map_cons, List.forall_mem_cons,
        List.pairwise_cons]
      constructor
      · rintro ⟨_, ⟨_, ⟨hf, rfl⟩, hnew, rfl⟩, hfs, hseen, hpair, rfl⟩
        exact ⟨⟨hf, hfs⟩, fun o ho => ⟨hnew o ho, hseen o (List.mem_append_left _ ho)⟩,
          ⟨hseen f.member (by simp), hpair⟩, by simp⟩
      · rintro ⟨⟨hf, hfs⟩, hseen, ⟨hnew, hpair⟩, rfl⟩
        refine ⟨_, ⟨_, ⟨hf, rfl⟩, fun o ho => (hseen o ho).1, rfl⟩, hfs, ?_, hpair, by simp⟩
        intro o ho
        rcases List.mem_append.mp ho with ho | ho
        · exact (hseen o ho).2
        · rw [List.mem_singleton.mp ho]
          exact hnew
  simpa [ofFields] using main []

end Member

/-! ## The order of groups -/

namespace GroupKey

/-- A group stands in front of another: first the default group, then the fields of no group, then
the named groups in the order of their names. -/
inductive Before : GroupKey → GroupKey → Prop where
  | default_untagged : Before .default .untagged
  | default_named (name : String) : Before .default (.named name)
  | untagged_named (name : String) : Before .untagged (.named name)
  | named {a b : String} (h : a < b) : Before (.named a) (.named b)

theorem before_of_le {a b : GroupKey} (h : le a b = true) (hne : a ≠ b) : a.Before b := by
  cases a with
  | default =>
    cases b with
    | default => exact absurd rfl hne
    | untagged => exact .default_untagged
    | named name => exact .default_named name
  | untagged =>
    cases b with
    | default => cases h
    | untagged => exact absurd rfl hne
    | named name => exact .untagged_named name
  | named a =>
    cases b with
    | default => cases h
    | untagged => cases h
    | named b => exact .named (lt_of_le_of_ne (of_decide_eq_true h) fun he => hne (he ▸ rfl))

theorem le_trans (a b c : GroupKey) (hab : le a b = true) (hbc : le b c = true) :
    le a c = true := by
  cases a <;> cases b <;> cases c <;> simp_all [le]
  exact hab.trans hbc

theorem le_total (a b : GroupKey) : (le a b || le b a) = true := by
  cases a <;> cases b <;> simp [le]
  exact String.le_total _ _

/-- Keys without their repetitions, in order. -/
theorem pairwise_before (keys : List GroupKey) :
    (keys.eraseDups.mergeSort le).Pairwise Before := by
  have hsorted := List.pairwise_mergeSort le_trans le_total keys.eraseDups
  have hdistinct := (List.mergeSort_perm keys.eraseDups le).nodup_iff.mpr (nodup_eraseDups keys)
  exact (hsorted.and hdistinct).imp fun h => before_of_le h.1 h.2

end GroupKey

/-! ## The pipe of a group -/

namespace Registry

/-- Names that the annotations of a group may list: each stands for a strategy by itself, and none
replays annotations again. -/
def Lists (r : Registry) (names : List String) : Prop :=
  replayName ∉ names ∧ ∀ name ∈ names, ∃ p, r.pipe [name] = .ok p

theorem fixed_map_fst (r : Registry) (recorded others : List String) :
    (r.fixed recorded).map Prod.fst = (r.fixed others).map Prod.fst := rfl

/-- Whether a name stands for a transform does not depend on the other names of its pipe. -/
theorem exists_transform {r : Registry} {name : String} {recorded : List String}
    (others : List String) (h : ∃ t, r.transform recorded name = .ok t) :
    ∃ t, r.transform others name = .ok t := by
  have hiff (names : List String) : (∃ t, r.transform names name = .ok t) ↔
      (sized? name).isSome ∨ name ∈ (r.fixed names).map Prod.fst := by
    have hl : ((r.fixed names).lookup name).isSome ↔ name ∈ (r.fixed names).map Prod.fst := by
      rw [List.lookup_isSome_iff, List.mem_map]
      exact exists_congr fun e => and_congr_right fun _ => by rw [beq_iff_eq, eq_comm]
    rw [← hl, ← Bool.or_eq_true, ← Option.isSome_or, transform]
    cases (sized? name).or ((r.fixed names).lookup name) <;> simp
  rw [hiff] at h ⊢
  rwa [r.fixed_map_fst others recorded]

theorem exists_pipe_singleton {r : Registry} {name : String} (h : name ≠ replayName)
    (recorded : List String) :
    (∃ p, r.pipe [name] = .ok p) ↔ ∃ t, r.transform recorded name = .ok t := by
  simp only [pipe, List.mapM_cons, List.mapM_nil, stage, h, if_false, bind_eq_ok, map_eq_ok]
  constructor
  · rintro ⟨_, _, ⟨t, ht, -⟩, -⟩
    exact exists_transform recorded ⟨t, ht⟩
  · intro ht
    obtain ⟨t, ht⟩ := exists_transform (Registry.recorded [name]) ht
    exact ⟨_, _, ⟨t, ht, rfl⟩, _, rfl, rfl⟩

theorem exists_transforms {r : Registry} {names : List String} (h : replayName ∉ names) :
    (∃ ts, r.transforms names = .ok ts) ↔ ∀ name ∈ names, ∃ p, r.pipe [name] = .ok p := by
  rw [transforms, exists_mapM]
  refine forall₂_congr fun name hname => ?_
  exact (exists_pipe_singleton (fun he => h (he ▸ hname)) _).symm

/-- Without replays, the stages of a pipe are transforms. -/
theorem pipe_eq {r : Registry} {names : List String} (h : replayName ∉ names) :
    r.pipe names = (r.transforms names).map (List.map Stage.transform) := by
  unfold pipe transforms
  generalize Registry.recorded names = others
  induction names with
  | nil => rfl
  | cons name names ih =>
    obtain ⟨hname, hnames⟩ := List.ne_and_not_mem_of_not_mem_cons h
    rw [List.mapM_cons, List.mapM_cons, ih hnames, stage, if_neg (Ne.symm hname)]
    cases r.transform others name with
    | error e => rfl
    | ok t => cases names.mapM (r.transform others) <;> rfl

end Registry

theorem Pipe.apply_transforms (ts : List Transform) (st : Struct) :
    Pipe.apply (ts.map .transform) none st = .ok (Transform.applyAll ts st) := by
  induction ts generalizing st with
  | nil => rfl
  | cons t ts ih => exact ih (t.apply st)

namespace FieldGroup

theorem exists_transforms {r : Registry} {g : FieldGroup} :
    (∃ ts, g.transforms r = .ok ts) ↔ ∀ names, g.strategies = some names → r.Lists names := by
  unfold transforms Registry.Lists
  cases g.strategies with
  | none => simp
  | some names =>
    by_cases hn : replayName ∈ names
    · simp [hn]
    · simp [hn, Registry.exists_transforms hn]

/-- The transforms of a group do what the pipe of its list does; fields of no group are left as they
are. -/
theorem pipe_of_transforms {r : Registry} {g : FieldGroup} {ts : List Transform}
    (h : g.transforms r = .ok ts) :
    r.pipe (g.strategies.getD ["ignore"]) = .ok (ts.map .transform) := by
  unfold transforms at h
  split at h
  · rename_i hs
    cases h
    rw [hs]
    rfl
  · rename_i names hs
    split at h
    · cases h
    · rename_i hn
      rw [hs, Option.getD_some, Registry.pipe_eq hn, h]
      rfl

theorem exists_jobs {r : Registry} {groups : List FieldGroup} :
    (∃ jobs, groups.mapM (fun g => do return (g, ← g.transforms r)) = .ok jobs) ↔
      ∀ g ∈ groups, ∃ ts, g.transforms r = .ok ts := by
  rw [exists_mapM]
  refine forall₂_congr fun g _ => ?_
  simp only [bind_eq_ok]
  constructor
  · rintro ⟨_, ts, hts, -⟩
    exact ⟨ts, hts⟩
  · rintro ⟨ts, hts⟩
    exact ⟨_, ts, hts, rfl⟩

theorem map_fst_of_jobs {r : Registry} {groups : List FieldGroup}
    {jobs : List (FieldGroup × List Transform)} (h : List.Forall₂ (HasJob r) groups jobs) :
    jobs.map Prod.fst = groups := by
  induction h with
  | nil => rfl
  | cons hjob _ ih => rw [List.map_cons, hjob.1, ih]

/-! ## The groups of a structure -/

theorem mem_ofMembers {fields : List Field} {g : FieldGroup} :
    g ∈ ofMembers (fields.map Field.member) ↔
      ∃ f ∈ fields, ofKey (fields.map Field.member) f.group = g := by
  simp [ofMembers, Field.member]

theorem ofKey_fields (fields : List Field) (key : GroupKey) :
    (ofKey (fields.map Field.member) key).fields = fields.filter fun f => f.group == key := by
  simp [ofKey, List.filter_map, Function.comp_def, Field.member]

/-- The list of a group is that of each of its fields. -/
theorem ofKey_strategies {fields : List Field}
    (h : (fields.map Field.member).Pairwise Member.Agrees) {f : Field} (hf : f ∈ fields) :
    (ofKey (fields.map Field.member) f.group).strategies = f.strategies? := by
  have hown : f.member ∈ (fields.map Field.member).filter fun m => m.key == f.group :=
    List.mem_filter.mpr ⟨List.mem_map_of_mem hf, beq_self_eq_true _⟩
  obtain ⟨m, hm⟩ := Option.isSome_iff_exists.mp (List.isSome_head?.mpr (List.ne_nil_of_mem hown))
  obtain ⟨hmem, hkey⟩ := List.mem_filter.mp (List.mem_of_mem_head? hm)
  have hagrees := Member.agrees_of_mem h hmem (List.mem_map_of_mem hf)
  rw [ofKey, hm]
  exact hagrees.2 (beq_iff_eq.mp hkey)

end FieldGroup

/-- A structure with the fields of one group only. -/
def Struct.only (st : Struct) (key : GroupKey) : Struct :=
  { st with fields := st.fields.filter fun f => f.group == key }

/-- A structure with the fields of its groups one behind the other. The default group says what is
written about it. -/
def Struct.joined (st : Struct) (parts : List (GroupKey × Struct)) : Struct :=
  let noted := (parts.lookup .default).getD st
  { st with
    fields := parts.flatMap fun part => part.2.fields
    doc := noted.doc
    comment := noted.comment }

/-- The structures whose annotations can be replayed. -/
structure Struct.Replayable (r : Registry) (st : Struct) : Prop where
  parses : ∀ f ∈ st.fields, f.Parses
  /-- Real fields of one name are in one group. -/
  apart : ∀ f ∈ st.fields, ∀ g ∈ st.fields, f.isPadding = false → g.isPadding = false →
    f.name = g.name → f.group = g.group
  /-- The fields of a group list the same strategies. -/
  agree : ∀ f ∈ st.fields, ∀ g ∈ st.fields, f.group = g.group → f.strategies? = g.strategies?
  lists : ∀ f ∈ st.fields, ∀ names, f.strategies? = some names → r.Lists names

/-- The groups of a structure, each with what the pipe that its fields list makes of them. -/
structure Struct.Parts (r : Registry) (st : Struct) (parts : List (GroupKey × Struct)) : Prop where
  ordered : (parts.map Prod.fst).Pairwise GroupKey.Before
  covers : ∀ key, key ∈ parts.map Prod.fst ↔ ∃ f ∈ st.fields, f.group = key
  applied : ∀ part ∈ parts, ∀ f ∈ st.fields, f.group = part.1 →
    ∃ p, r.pipe (f.strategies?.getD ["ignore"]) = .ok p ∧
      p.apply none (st.only part.1) = .ok part.2

/-! ## Replays -/

namespace Struct

variable {r : Registry} {st : Struct} {jobs : List (FieldGroup × List Transform)}

theorem lookup_jobs (key : GroupKey) :
    (jobs.map fun job => (job.1.key, st.applyGroup job)).lookup key =
      (jobs.find? fun job => job.1.key == key).map st.applyGroup := by
  induction jobs with
  | nil => rfl
  | cons job jobs ih =>
    rw [List.map_cons, List.lookup_cons, List.find?_cons, ih, Bool.beq_comm]
    cases job.1.key == key <;> rfl

theorem replay_eq (r : Registry) (st : Struct) : st.replay r = do
    let members ← Member.ofFields st.fields
    let jobs ← (FieldGroup.ofMembers members).mapM fun g => do return (g, ← g.transforms r)
    return st.joined (jobs.map fun job => (job.1.key, st.applyGroup job)) := by
  unfold replay
  refine congrArg _ (funext fun members => congrArg _ (funext fun jobs => ?_))
  rw [joined, lookup_jobs, List.flatMap_map]
  cases jobs.find? fun job => job.1.key == .default <;> rfl

theorem exists_replay : (∃ out, st.replay r = .ok out) ↔ st.Replayable r := by
  have hout : (∃ out, st.replay r = .ok out) ↔ (∀ f ∈ st.fields, f.Parses) ∧
      (st.fields.map Field.member).Pairwise Member.Agrees ∧
        ∀ g ∈ FieldGroup.ofMembers (st.fields.map Field.member), ∃ ts, g.transforms r = .ok ts := by
    simp only [replay_eq, bind_eq_ok, Member.ofFields_eq_ok, ← FieldGroup.exists_jobs]
    constructor
    · rintro ⟨_, _, ⟨hparses, hpair, rfl⟩, jobs, hjobs, -⟩
      exact ⟨hparses, hpair, jobs, hjobs⟩
    · rintro ⟨hparses, hpair, jobs, hjobs⟩
      exact ⟨_, _, ⟨hparses, hpair, rfl⟩, jobs, hjobs, rfl⟩
  rw [hout]
  constructor
  · rintro ⟨hparses, hpair, hjobs⟩
    have hagree := Member.pairwise_agrees.mp hpair
    refine ⟨hparses, fun f hf g hg => (hagree f hf g hg).1, fun f hf g hg => (hagree f hf g hg).2, ?_⟩
    intro f hf names hs
    have hlists := FieldGroup.exists_transforms.mp (hjobs _ (FieldGroup.mem_ofMembers.mpr ⟨f, hf, rfl⟩))
    exact hlists names ((FieldGroup.ofKey_strategies hpair hf).trans hs)
  · rintro ⟨hparses, hapart, hagree, hlists⟩
    have hpair := Member.pairwise_agrees.mpr fun f hf g hg => ⟨hapart f hf g hg, hagree f hf g hg⟩
    refine ⟨hparses, hpair, fun g hg => FieldGroup.exists_transforms.mpr fun names hs => ?_⟩
    obtain ⟨f, hf, rfl⟩ := FieldGroup.mem_ofMembers.mp hg
    exact hlists f hf names ((FieldGroup.ofKey_strategies hpair hf).symm.trans hs)

theorem parts_of_jobs (h : (st.fields.map Field.member).Pairwise Member.Agrees)
    (hj : List.Forall₂ (FieldGroup.HasJob r) (FieldGroup.ofMembers (st.fields.map Field.member))
      jobs) :
    st.Parts r (jobs.map fun job => (job.1.key, st.applyGroup job)) := by
  have hkeys : (jobs.map fun job => (job.1.key, st.applyGroup job)).map Prod.fst =
      ((st.fields.map Field.member).map Member.key).eraseDups.mergeSort GroupKey.le := by
    have hmap : (jobs.map fun job => (job.1.key, st.applyGroup job)).map Prod.fst =
        (jobs.map Prod.fst).map FieldGroup.key := by
      rw [List.map_map, List.map_map]
      rfl
    rw [hmap, FieldGroup.map_fst_of_jobs hj, FieldGroup.ofMembers, List.map_map]
    exact List.map_id _
  refine ⟨?ordered, fun key => ?covers, ?applied⟩
  case ordered =>
    rw [hkeys]
    exact GroupKey.pairwise_before _
  case covers =>
    rw [hkeys]
    simp [Field.member]
  case applied =>
    intro part hpart f hf hkey
    -- The group of the job is that of `f`, as both have one key.
    obtain ⟨job, hjob, rfl⟩ := List.mem_map.mp hpart
    obtain ⟨g, hg, rfl, hts⟩ := mem_of_forall₂ hj hjob
    obtain ⟨f', -, hg⟩ := FieldGroup.mem_ofMembers.mp hg
    have hown : job.1 = FieldGroup.ofKey (st.fields.map Field.member) f.group := by
      rw [hkey, ← hg]
      rfl
    have hfields : { st with fields := job.1.fields } = st.only job.1.key := by
      rw [hown, FieldGroup.ofKey_fields]
      rfl
    refine ⟨job.2.map .transform, ?_, ?_⟩
    · rw [← FieldGroup.ofKey_strategies h hf, ← hown]
      exact FieldGroup.pipe_of_transforms hts
    · rw [Pipe.apply_transforms, ← hfields]
      rfl

end Struct

/-- Annotations can be replayed exactly if they can be read, claim no name for two groups, list the
same strategies throughout a group and list only names that stand for strategies other than a replay.
The result is the structure with the fields of its groups in their order, each group changed by its
own pipe, and the default group says what is written about the structure. -/
theorem Pipe.apply_replay (r : Registry) (st : Struct) :
    ((∃ out, Pipe.apply [.replay r] none st = .ok out) ↔ st.Replayable r) ∧
      ∀ out, Pipe.apply [.replay r] none st = .ok out →
        ∃ parts, st.Parts r parts ∧ out = st.joined parts := by
  have hrun : Pipe.apply [.replay r] none st = st.replay r := bind_pure (st.replay r)
  rw [hrun]
  refine ⟨Struct.exists_replay, fun out h => ?_⟩
  simp only [Struct.replay_eq, bind_eq_ok, Member.ofFields_eq_ok] at h
  obtain ⟨_, ⟨-, hagree, rfl⟩, jobs, hj, h⟩ := h
  cases h
  exact ⟨_, Struct.parts_of_jobs hagree (FieldGroup.jobs_of_mapM hj), rfl⟩

/-- Fields of four groups, one of them tagged as having no annotation. -/
def Struct.grouped : Struct where
  name := "S"
  fields := [.tagged "curator:\"group:b;memory_pack\"" "z" "t" 1 1,
    .tagged "" "a" "t" 1 1,
    .tagged "curator:\"memory_pack,struct_annotate_doc\"" "b" "t" 2 2,
    .tagged "curator:\"memory_pack,struct_annotate_doc\"" "c" "t" 8 8,
    .tagged "curator:\"group:a;void\"" "y" "t" 4 4,
    .tagged "curator:\"-\"" "x" "t" 2 2]

/-- The work on its groups. -/
def Struct.groupedJobs : List (FieldGroup × List Transform) :=
  ([.default, .untagged, .named "a", .named "b"].map
    (FieldGroup.ofKey (Struct.grouped.fields.map Field.member))).zip
      [[.pack, .annotate .doc], [.ignore], [.void], [.pack]]

theorem Struct.replay_grouped : Struct.grouped.replay .amd64 =
    .ok (Struct.grouped.joined
      (groupedJobs.map fun job => (job.1.key, Struct.grouped.applyGroup job))) := by
  have hm : Member.ofFields grouped.fields = .ok (grouped.fields.map Field.member) := by
    decide +kernel
  have hg : FieldGroup.ofMembers (grouped.fields.map Field.member) =
      [.default, .untagged, .named "a", .named "b"].map
        (FieldGroup.ofKey (grouped.fields.map Field.member)) := by
    refine congrArg (List.map _) ?_
    cbv
  have hj : (FieldGroup.ofMembers (grouped.fields.map Field.member)).mapM
      (fun g => do return (g, ← g.transforms .amd64)) = .ok groupedJobs := by
    rw [hg]
    decide +kernel
  simp only [replay_eq, bind_eq_ok]
  exact ⟨_, hm, _, hj, rfl⟩

theorem Pipe.apply_replay_grouped :
    ∃ out, Pipe.apply [.replay .amd64] none .grouped = .ok out ∧
      out.fields.map Field.name = ["c", "b", "a", "x", "z"] ∧ out.doc.length = 1 ∧
      Struct.grouped.Replayable .amd64 ∧
      ∃ parts, Struct.grouped.Parts .amd64 parts ∧ out = Struct.grouped.joined parts := by
  obtain ⟨hsucceeds, hresult⟩ := Pipe.apply_replay .amd64 .grouped
  have hrun : Pipe.apply [.replay .amd64] none .grouped = _ :=
    (bind_pure _).trans Struct.replay_grouped
  refine ⟨_, hrun, ?_, ?_, hsucceeds.mp ⟨_, hrun⟩, hresult _ hrun⟩
  · cbv
  · cbv

end StructLayout
