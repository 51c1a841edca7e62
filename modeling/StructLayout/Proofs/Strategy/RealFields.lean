import Mathlib
import StructLayout.Proofs.Strategy.Groups
import StructLayout.Proofs.Strategy.Names
import StructLayout.Proofs.Strategy.Signatures

/-!
Pipes of any length and order keep the real fields of a structure. Fields are lost only through
strategies whose names say so, be they in the pipe or in an annotation that the pipe replays.
-/

namespace StructLayout

/-- The strategies that may leave out fields that are no paddings. -/
def droppingNames : List String :=
  ["void", "filter_embedded", "filter_not_embedded", "filter_exported", "filter_not_exported"]

namespace Registry

theorem sized?_dropsFields {name : String} {t : Transform} (h : sized? name = some t) :
    t.dropsFields = false := by
  obtain ⟨n, digits, -, form, hform, rfl, -⟩ := sized?_eq_some h
  have hall : ∀ form ∈ sizedForms, ∀ n, (form.2 n).dropsFields = false := by
    simp [sizedForms, Transform.dropsFields]
  exact hall form hform n

theorem fixed_dropsFields (r : Registry) (recorded : List String) :
    ∀ e ∈ r.fixed recorded, e.2.dropsFields = true → e.1 ∈ droppingNames := by
  simp [fixed, Transform.dropsFields, droppingNames]

/-- A name stands for a transform that drops fields only if it is one of the dropping names. -/
theorem transform_dropsFields {r : Registry} {recorded : List String} {name : String}
    {t : Transform} (h : r.transform recorded name = .ok t) (hn : name ∉ droppingNames) :
    t.dropsFields = false := by
  rcases transform_eq_ok h with hs | hm
  · exact sized?_dropsFields hs
  · exact Bool.eq_false_iff.mpr fun hd => hn (fixed_dropsFields r recorded _ hm hd)

theorem transforms_dropsFields {r : Registry} {names : List String} {ts : List Transform}
    (h : r.transforms names = .ok ts) (hn : ∀ name ∈ names, name ∉ droppingNames) :
    ∀ t ∈ ts, t.dropsFields = false := by
  intro t ht
  obtain ⟨name, hname, hok⟩ := mem_of_forall₂ (forall₂_of_mapM h) ht
  exact transform_dropsFields hok (hn name hname)

end Registry

/-- The strategies that the annotation of a field lists. -/
def Field.listed (f : Field) : List String :=
  match (Tag.curator? f.tag).map Annotation.parse with
  | some (.ok (some a)) => a.strategies
  | _ => []

/-- The strategies that a stage takes from annotations. -/
def Stage.replayed : Stage → Struct → List String
  | .transform _, _ => []
  | .replay _, st => st.fields.flatMap Field.listed

/-- The strategies that a pipe takes from annotations, each stage from those that it finds. -/
def Pipe.replayed : Pipe → Struct → List String
  | [], _ => []
  | s :: p, st => s.replayed st ++
      match s.apply st with
      | .ok st => replayed p st
      | .error _ => []

theorem Member.listed_of_ofField {f : Field} {m : Member} {names : List String}
    (h : Member.ofField f = .ok m) (hs : m.strategies = some names) : f.listed = names := by
  unfold Member.ofField at h
  split at h
  · cases h; cases hs
  · rename_i value hv
    split at h
    · cases h
    · cases h; cases hs
    · rename_i a ha
      cases h
      cases hs
      simp only [Field.listed, hv, Option.map_some, ha]

/-! ## Replays -/

section Replay

variable {r : Registry} {st : Struct} {groups : List FieldGroup}
  {jobs : List (FieldGroup × List Transform)}

theorem signatures_jobs_le (h : List.Forall₂ (FieldGroup.HasJob r) groups jobs) :
    signatures (jobs.flatMap fun job => (st.applyGroup job).fields) ≤
      signatures (groups.flatMap FieldGroup.fields) := by
  induction h with
  | nil => exact le_refl _
  | @cons g job groups jobs hj _ ih =>
      obtain ⟨rfl, -⟩ := hj
      simp only [List.flatMap_cons, signatures_append]
      have hhead := Transform.applyAll_signatures_le job.2 { st with fields := job.1.fields }
      exact (Multiset.add_le_add_right hhead).trans (Multiset.add_le_add_left ih)

theorem signatures_jobs_eq (h : List.Forall₂ (FieldGroup.HasJob r) groups jobs)
    (hn : ∀ g ∈ groups, ∀ names, g.strategies = some names → ∀ name ∈ names, name ∉ droppingNames) :
    signatures (jobs.flatMap fun job => (st.applyGroup job).fields) =
      signatures (groups.flatMap FieldGroup.fields) := by
  induction h with
  | nil => rfl
  | @cons g job groups jobs hj _ ih =>
      obtain ⟨rfl, hts⟩ := hj
      obtain ⟨hg, hgs⟩ := List.forall_mem_cons.mp hn
      have hd : ∀ t ∈ job.2, t.dropsFields = false := by
        unfold FieldGroup.transforms at hts
        split at hts
        · injection hts with hts
          simp [← hts, Transform.dropsFields]
        · rename_i names hs
          split at hts
          · cases hts
          · exact Registry.transforms_dropsFields hts (hg names hs)
      simp only [List.flatMap_cons, signatures_append, ih hgs]
      exact congrArg (· + _) (Transform.applyAll_signatures_eq hd _)

end Replay

/-- A stage keeps the name of the structure and adds no real field. It keeps all of them if neither
it nor an annotation that it replays drops fields. -/
theorem Stage.apply_signatures {s : Stage} {st out : Struct} (h : s.apply st = .ok out) :
    out.name = st.name ∧ out.signatures ≤ st.signatures ∧
      ((∀ t, s = .transform t → t.dropsFields = false) →
        (∀ name ∈ s.replayed st, name ∉ droppingNames) → out.signatures = st.signatures) := by
  cases s with
  | transform t =>
      cases h
      exact ⟨t.apply_name st, t.apply_signatures_le st, fun ht _ => t.apply_signatures_eq (ht t rfl) st⟩
  | replay r =>
      obtain ⟨members, jobs, hm, hj, hname, hfields, -⟩ := Struct.replay_ok h
      have hall : signatures ((FieldGroup.ofMembers members).flatMap FieldGroup.fields) =
          st.signatures := by
        rw [Struct.signatures, ← Member.ofFields_field hm]
        exact signatures_perm (FieldGroup.ofMembers_perm members)
      rw [Struct.signatures, hfields]
      refine ⟨hname, (signatures_jobs_le hj).trans hall.le, fun _ hn => ?_⟩
      refine (signatures_jobs_eq hj ?_).trans hall
      intro g hg names hs name hname
      obtain ⟨m, hmem, hms⟩ := FieldGroup.mem_of_strategies hg hs
      obtain ⟨f, hf, hok⟩ := mem_of_forall₂ (Member.ofFields_forall₂ hm) hmem
      refine hn name (List.mem_flatMap.mpr ⟨f, hf, ?_⟩)
      rw [Member.listed_of_ofField hok hms]
      exact hname

theorem Pipe.run_signatures {p : Pipe} {st out : Struct} (h : p.run st = .ok out) :
    out.name = st.name ∧ out.signatures ≤ st.signatures ∧
      ((∀ t, .transform t ∈ p → t.dropsFields = false) →
        (∀ name ∈ p.replayed st, name ∉ droppingNames) → out.signatures = st.signatures) := by
  induction p generalizing st with
  | nil => cases h; exact ⟨rfl, le_refl _, fun _ _ => rfl⟩
  | cons s p ih =>
      obtain ⟨mid, hs, h⟩ := bind_eq_ok.mp h
      obtain ⟨hn, hle, heq⟩ := Stage.apply_signatures hs
      obtain ⟨hn', hle', heq'⟩ := ih h
      refine ⟨hn'.trans hn, hle'.trans hle, fun ht hr => ?_⟩
      simp only [Pipe.replayed, hs, List.mem_append] at hr
      have hrest := heq' (fun t hm => ht t (List.mem_cons_of_mem _ hm)) fun n hm => hr n (.inr hm)
      have hhead := heq (fun t he => ht t (he ▸ List.mem_cons_self)) fun n hm => hr n (.inl hm)
      exact hrest.trans hhead

theorem Registry.transform_of_mem_pipe {r : Registry} {names : List String} {p : Pipe}
    (h : r.pipe names = .ok p) {t : Transform} (ht : .transform t ∈ p) :
    ∃ name ∈ names, r.transform (recorded names) name = .ok t := by
  obtain ⟨name, hname, hs⟩ := mem_of_forall₂ (forall₂_of_mapM h) ht
  refine ⟨name, hname, ?_⟩
  unfold Registry.stage at hs
  split at hs
  · cases hs
  · cases hu : r.transform (recorded names) name with
    | error e => rw [hu] at hs; cases hs
    | ok u => rw [hu] at hs; cases hs; rfl

/-- Whatever strategies are named, in any order: a result has the name of its origin, and its real
fields are among those of the origin, each with its name, type, size, alignment and flags. They are
all there unless a dropping strategy is named or replayed. -/
theorem Pipe.apply_real_fields {r : Registry} {names : List String} {p : Pipe}
    {status : Option ContextError} {st out : Struct} (hp : r.pipe names = .ok p)
    (h : p.apply status st = .ok out) :
    out.name = st.name ∧ out.signatures ≤ st.signatures ∧
      ((∀ name ∈ names ++ p.replayed st, name ∉ droppingNames) →
        out.signatures = st.signatures) := by
  cases status with
  | some cause => cases h
  | none =>
      obtain ⟨hn, hle, heq⟩ := Pipe.run_signatures h
      refine ⟨hn, hle, fun hd => heq ?_ fun name hm => hd name (List.mem_append_right _ hm)⟩
      intro t ht
      obtain ⟨name, hname, hok⟩ := Registry.transform_of_mem_pipe hp ht
      exact Registry.transform_dropsFields hok (hd name (List.mem_append_left _ hname))

/-! ## A pipe that replays what it has recorded -/

def Registry.amd64 : Registry := ⟨⟨"gc", "amd64", ⟨8, 8⟩, []⟩, "g"⟩

def Field.tagged (tag name typeName : String) (size align : Nat) : Field :=
  { name, typeName, size, align, tag }

def Struct.mixed : Struct where
  name := "S"
  fields := [.tagged "" "a" "bool" 1 1, .tagged "" "_" "[7]byte" 7 1, .tagged "" "b" "int64" 8 8]

/-- The fields in packed order, with an annotation that says so. -/
def Struct.recorded : Struct where
  name := "S"
  fields := [.tagged "curator:\"group:g;memory_pack\"" "b" "int64" 8 8,
    .tagged "curator:\"group:g;memory_pack\"" "_" "[7]byte" 7 1,
    .tagged "curator:\"group:g;memory_pack\"" "a" "bool" 1 1]

def Pipe.recording : Pipe :=
  [.transform .pack, .transform (.tagging ⟨.force, ["memory_pack"], "g"⟩), .replay .amd64]

theorem Struct.replay_recorded : Struct.recorded.replay .amd64 = .ok .recorded := by
  have hm : Member.ofFields Struct.recorded.fields =
      .ok (Struct.recorded.fields.map fun f => ⟨f, .named "g", some ["memory_pack"]⟩) := by cbv
  have hg : FieldGroup.ofMembers
      (Struct.recorded.fields.map fun f => ⟨f, .named "g", some ["memory_pack"]⟩) =
      [⟨.named "g", some ["memory_pack"], Struct.recorded.fields⟩] := by cbv
  have ht : FieldGroup.transforms .amd64 ⟨.named "g", some ["memory_pack"], Struct.recorded.fields⟩ =
      .ok [.pack] := by rfl
  simp only [Struct.replay, hm, hg, List.mapM_cons, List.mapM_nil, ht, bind, Except.bind, pure,
    Except.pure]
  cbv

theorem Pipe.apply_real_fields_recording :
    Registry.amd64.pipe ["memory_pack", "add_tag_group_force", "process_tag_group"] =
        .ok Pipe.recording ∧
      Pipe.recording.apply none .mixed = .ok .recorded ∧
      Struct.recorded.name = Struct.mixed.name ∧
      Struct.recorded.signatures ≤ Struct.mixed.signatures ∧
      Struct.recorded.signatures = Struct.mixed.signatures := by
  have hp : Registry.amd64.pipe ["memory_pack", "add_tag_group_force", "process_tag_group"] =
      .ok Pipe.recording := by rfl
  have ht : (Transform.tagging ⟨.force, ["memory_pack"], "g"⟩).apply (Transform.pack.apply .mixed) =
      .recorded := by cbv
  have hr : Pipe.recording.apply none .mixed = .ok .recorded := by
    simp only [Pipe.apply, Pipe.run, Pipe.recording, List.foldlM_cons, List.foldlM_nil, Stage.apply,
      bind, Except.bind, ht, Struct.replay_recorded]
    rfl
  have he : Pipe.recording.replayed .mixed = ["memory_pack", "memory_pack", "memory_pack"] := by
    simp only [Pipe.recording, Pipe.replayed, Stage.replayed, Stage.apply, ht,
      Struct.replay_recorded]
    cbv
  obtain ⟨hn, hle, heq⟩ := Pipe.apply_real_fields hp hr
  refine ⟨hp, hr, hn, hle, heq ?_⟩
  rw [he]
  decide

end StructLayout
