import Mathlib
import StructLayout.Proofs.Numeral
import StructLayout.Proofs.Strategy.Replays
import StructLayout.Proofs.Tag.Annotations
import StructLayout.Proofs.Tag.Edits

/-!
What tagging strategies write can be read again. Names of strategies are made of letters, digits and
underscores, and tags of entries stay such through all strategies; so an annotation is found where it
has been written, and is read as what was recorded exactly if something was recorded and the group has
no semicolon.
-/

namespace StructLayout

/-! ## Names of strategies -/

/-- The characters of the names that stand for strategies. -/
def isLabelChar (c : Char) : Bool :=
  c.isLower || c.isDigit || c == '_'

/-- A text made of such characters. -/
def IsLabel (cs : List Char) : Prop :=
  cs ≠ [] ∧ ∀ c ∈ cs, isLabelChar c = true

theorem isLabel_of_all {cs : List Char} (h : (!cs.isEmpty && cs.all isLabelChar) = true) :
    IsLabel cs := by
  simpa [IsLabel] using h

theorem not_blank_of_isLabelChar {c : Char} (h : isLabelChar c = true) : Text.isBlank c = false := by
  have hrange : 48 ≤ c.toNat ∧ c.toNat ≤ 122 := by
    simp only [isLabelChar, Char.isLower, Char.isDigit, Bool.or_eq_true, Bool.and_eq_true, beq_iff_eq,
      decide_eq_true_eq, ge_iff_le, UInt32.le_iff_toNat_le] at h
    rcases h with (h | h) | rfl
    · exact ⟨le_trans (by decide) h.1, h.2⟩
    · exact ⟨h.1, le_trans h.2 (by decide)⟩
    · decide
  have hout : ∀ r ∈ Text.blankRanges, r.2 < 48 ∨ 122 < r.1 := by decide
  rw [Bool.eq_false_iff]
  intro hb
  obtain ⟨r, hr, hlow, hhigh⟩ := Text.inRanges_iff.mp hb
  have := hout r hr
  omega

theorem IsLabel.listable {cs : List Char} (h : IsLabel cs) : Annotation.Listable cs := by
  obtain ⟨hne, hall⟩ := h
  refine ⟨hne, fun c hc => ?_, fun c hc => ?_, fun hc => ?_, fun hc => ?_⟩
  · exact not_blank_of_isLabelChar (hall c (List.mem_of_head? hc))
  · exact not_blank_of_isLabelChar (hall c (List.mem_of_getLast? hc))
  · cases hall _ hc
  · cases hall _ hc

namespace Registry

theorem isLabel_fixedNames {name : String} (h : name ∈ fixedNames) : IsLabel name.toList := by
  have hall : fixedNames.all fun n => !n.toList.isEmpty && n.toList.all isLabelChar := by
    cbv
  exact isLabel_of_all (List.all_eq_true.mp hall name h)

theorem isLabelChar_of_readBytes {digits : List Char} {n : Nat} (h : readBytes digits = some n) :
    ∀ c ∈ digits, isLabelChar c = true := by
  unfold readBytes at h
  split at h
  · rename_i hd
    intro c hc
    simp [isLabelChar, List.all_eq_true.mp hd c hc]
  · cases h

theorem isLabel_sized {name : String} {t : Transform} (h : sized? name = some t) :
    IsLabel name.toList := by
  obtain ⟨n, digits, hn, form, hform, -, hname⟩ := sized?_eq_some h
  have hstart : sizedForms.all fun form =>
      !form.1.1.toList.isEmpty && form.1.1.toList.all isLabelChar := by decide
  have hstop : sizedForms.all fun form => form.1.2.toList.all isLabelChar := by decide
  obtain ⟨hne, hall⟩ := isLabel_of_all (List.all_eq_true.mp hstart form hform)
  rw [hname, List.append_assoc]
  refine ⟨by simp [hne], List.forall_mem_append.mpr ⟨hall, List.forall_mem_append.mpr ⟨?_, ?_⟩⟩⟩
  · exact isLabelChar_of_readBytes hn
  · exact List.all_eq_true.mp (List.all_eq_true.mp hstop form hform)

theorem isLabel_transform {r : Registry} {recorded : List String} {name : String} {t : Transform}
    (h : r.transform recorded name = .ok t) : IsLabel name.toList := by
  rcases transform_eq_ok h with hs | hm
  · exact isLabel_sized hs
  · exact isLabel_fixedNames (List.mem_cons_of_mem _ (List.mem_map_of_mem hm))

end Registry

/-! ## Tags through strategies -/

/-- The name of the strategy that writes annotations in a mode, or removes them. -/
def TagMode.strategy : TagMode → String
  | .soft => "add_tag_group_soft"
  | .force => "add_tag_group_force"
  | .discrete => "add_tag_group_discrete"
  | .forceDiscrete => "add_tag_group_force_discrete"
  | .remove => "remove_tag_group"

section Tags

variable {P : String → Prop} {st out : Struct}

theorem Transform.tags_apply {t : Transform} (hpad : P "")
    (ht : ∀ g, t = .tagging g → ∀ i tag, P tag → P (g.retag i tag))
    (hst : ∀ f ∈ st.fields, P f.tag) : ∀ f ∈ (t.apply st).fields, P f.tag := by
  intro f hf
  rcases Transform.leaves hf with ⟨size, rfl⟩ | ⟨g, hg, -, htag | ⟨how, i, rfl, htag⟩⟩
  · exact hpad
  · exact htag ▸ hst g hg
  · exact htag ▸ ht how rfl i _ (hst g hg)

variable (hpad : P "") (hretag : ∀ (g : Tagging) i tag, P tag → P (g.retag i tag))

include hpad hretag

theorem Transform.tags_applyAll (ts : List Transform) (hst : ∀ f ∈ st.fields, P f.tag) :
    ∀ f ∈ (applyAll ts st).fields, P f.tag := by
  induction ts generalizing st with
  | nil => exact hst
  | cons t ts ih => exact ih (t.tags_apply hpad (fun g _ => hretag g) hst)

theorem Struct.tags_replay {r : Registry} (h : st.replay r = .ok out)
    (hst : ∀ f ∈ st.fields, P f.tag) : ∀ f ∈ out.fields, P f.tag := by
  obtain ⟨members, jobs, hm, hj, -, hfields, -⟩ := Struct.replay_ok h
  intro f hf
  rw [hfields] at hf
  obtain ⟨job, hjob, hf⟩ := List.mem_flatMap.mp hf
  obtain ⟨g, hg, rfl, -⟩ := mem_of_forall₂ hj hjob
  refine Transform.tags_applyAll hpad hretag job.2 (fun f hf => hst f ?_) f hf
  rw [← Member.ofFields_field hm, ← (FieldGroup.ofMembers_perm members).mem_iff]
  exact List.mem_flatMap.mpr ⟨job.1, hg, hf⟩

end Tags

/-- What all tags are, they stay through a pipe, if no stage of the pipe tags otherwise. A replay may
tag in any way. -/
theorem Pipe.tags_run {P : String → Prop} {p : Pipe} {st out : Struct} (hpad : P "")
    (hp : ∀ g : Tagging, (.transform (.tagging g) ∈ p ∨ ∃ r, .replay r ∈ p) →
      ∀ i tag, P tag → P (g.retag i tag))
    (h : p.run st = .ok out) (hst : ∀ f ∈ st.fields, P f.tag) : ∀ f ∈ out.fields, P f.tag := by
  induction p generalizing st with
  | nil =>
    cases h
    exact hst
  | cons s p ih =>
    obtain ⟨mid, hs, h⟩ := bind_eq_ok.mp h
    have hrest : ∀ g : Tagging, (.transform (.tagging g) ∈ p ∨ ∃ r, .replay r ∈ p) →
        ∀ i tag, P tag → P (g.retag i tag) := fun g hg => hp g <|
      hg.imp (List.mem_cons_of_mem _) (Exists.imp fun _ => List.mem_cons_of_mem _)
    refine ih hrest h ?_
    cases s with
    | transform t =>
      cases hs
      exact t.tags_apply hpad (fun g hg => hp g (.inl (hg ▸ List.mem_cons_self))) hst
    | replay r =>
      exact Struct.tags_replay hpad (fun g => hp g (.inr ⟨r, List.mem_cons_self⟩)) hs hst

namespace Registry

variable {r : Registry} {names : List String} {p : Pipe}

theorem stage_strategy (r : Registry) (recorded : List String) (mode : TagMode) :
    r.stage recorded mode.strategy = .ok (.transform (.tagging ⟨mode, recorded, r.tagGroup⟩)) := by
  cases mode <;> rfl

/-- Only the strategies that say so tag. -/
theorem eq_strategy_of_transform {recorded : List String} {name : String} {g : Tagging}
    (h : r.transform recorded name = .ok (.tagging g)) : name = g.mode.strategy := by
  rcases transform_eq_ok h with hs | hm
  · obtain ⟨n, digits, -, form, hform, ht, -⟩ := sized?_eq_some hs
    simp only [sizedForms, List.mem_cons, List.not_mem_nil, or_false] at hform
    rcases hform with rfl | rfl | rfl | rfl <;> cases ht
  · simp only [fixed, List.mem_cons, Prod.mk.injEq, reduceCtorEq, and_false, false_or, or_false,
      List.not_mem_nil, Transform.tagging.injEq] at hm
    rcases hm with ⟨rfl, rfl⟩ | ⟨rfl, rfl⟩ | ⟨rfl, rfl⟩ | ⟨rfl, rfl⟩ | ⟨rfl, rfl⟩ <;> rfl

theorem replayName_mem_of_pipe {r' : Registry} (h : r.pipe names = .ok p) (hr : .replay r' ∈ p) :
    replayName ∈ names := by
  obtain ⟨name, hname, hs⟩ := mem_of_forall₂ (forall₂_of_mapM h) hr
  unfold stage at hs
  split at hs
  · rename_i he
    exact he ▸ hname
  · obtain ⟨t, -, ht⟩ := map_eq_ok.mp hs
    cases ht

/-- Recorded names stand for strategies, and so they are labels. -/
theorem isLabel_recorded (h : r.pipe names = .ok p) :
    ∀ name ∈ recorded names, IsLabel name.toList := by
  intro name hname
  obtain ⟨hname, htag⟩ := List.mem_filter.mp hname
  obtain ⟨s, hs⟩ := exists_mapM.mp ⟨p, h⟩ name hname
  unfold stage at hs
  split at hs
  · rename_i he
    rw [he] at htag
    cases htag
  · obtain ⟨t, ht, -⟩ := map_eq_ok.mp hs
    exact isLabel_transform ht

end Registry

/-! ## What is written, and whether it can be read -/

theorem Tag.isKey_curatorKey : IsKey curatorKey := by
  have hall : curatorKey.all isKeyChar = true := by decide
  exact ⟨by decide, List.all_eq_true.mp hall⟩

theorem Tag.starts_curatorKey : Text.Starts curatorKey := by
  intro c hc
  cases hc
  rfl

namespace Tagging

variable {t : Tagging}

/-- Writing keeps a tag well formed, and so does removing if it cuts into no other entry. -/
theorem wellFormed_retag {tag : String} (i : Nat) (hw : Tag.WellFormed tag.toList)
    (hb : t.mode = .remove → Tag.KeysShown tag.toList) :
    Tag.WellFormed (t.retag i tag).toList := by
  unfold retag
  split
  · rename_i hr
    rw [Tag.removeCurator, String.toList_ofList]
    exact (hw.remove (hb hr)).1
  split
  · exact hw
  · rw [Tag.setCurator, String.toList_ofList]
    exact hw.set Tag.isKey_curatorKey

theorem keysShown_retag {tag : String} (i : Nat) (hw : Tag.WellFormed tag.toList)
    (hb : Tag.KeysShown tag.toList) : Tag.KeysShown (t.retag i tag).toList := by
  unfold retag
  split
  · rw [Tag.removeCurator, String.toList_ofList]
    exact (hw.remove hb).2
  split
  · exact hb
  · rw [Tag.setCurator, String.toList_ofList]
    exact hb.set Tag.isKey_curatorKey Tag.starts_curatorKey hw

/-- What is written is found. -/
theorem curator?_retag {tag : String} (i : Nat) (hm : t.mode ≠ .remove)
    (hk : t.mode.keepsExisting = true → Tag.curator? tag = none) (hw : Tag.WellFormed tag.toList) :
    Tag.curator? (t.retag i tag) = some (t.annotationAt i).render.toList := by
  have hset : (t.mode.keepsExisting && (Tag.curator? tag).isSome) = false := by
    cases he : t.mode.keepsExisting with
    | false => rfl
    | true => rw [hk he]; rfl
  rw [retag, if_neg hm, hset, if_neg Bool.false_ne_true, Tag.curator?, Tag.setCurator,
    String.toList_ofList]
  exact Tag.lookup_set Tag.isKey_curatorKey hw

/-- The groups that are written are never empty, and have a semicolon only from the group that is
set. -/
theorem semicolon_mem_groupAt {i : Nat} {name : String} (h : t.groupAt i = some name) :
    name.toList ≠ [] ∧ (';' ∈ name.toList ↔ ';' ∈ t.group.toList) := by
  have hdigits : ';' ∉ Nat.toDigits 10 (i + 1) := fun hc => by
    cases Text.toDigits_isDigit (i + 1) ';' hc
  unfold groupAt at h
  split at h
  · cases h
    refine ⟨by simp, ?_⟩
    cases he : t.group.isEmpty with
    | true => simp [String.isEmpty_iff.mp he, hdigits]
    | false => simp [hdigits]
  split at h
  · cases h
  · rename_i he
    cases h
    exact ⟨by simpa using he, Iff.rfl⟩

theorem group_of_groupAt {i : Nat} (h : t.groupAt i = none) : t.group = "" := by
  unfold groupAt at h
  split at h
  · cases h
  split at h
  · rename_i he
    exact String.isEmpty_iff.mp he
  · cases h

/-- What is written can be told apart exactly if something has been recorded, for a group without a
semicolon. -/
theorem legible_annotationAt (hnames : ∀ name ∈ t.names, IsLabel name.toList) (i : Nat) :
    (t.annotationAt i).Legible ↔ t.names ≠ [] ∧ ';' ∉ t.group.toList := by
  constructor
  · rintro ⟨hgroup, hne, -⟩
    refine ⟨hne, fun hc => ?_⟩
    cases hg : t.groupAt i with
    | some name => exact (hgroup name hg).2 ((semicolon_mem_groupAt hg).2.mpr hc)
    | none =>
      rw [group_of_groupAt hg] at hc
      cases hc
  · rintro ⟨hne, hc⟩
    refine ⟨fun name hg => ?_, hne, fun name hn => (hnames name hn).listable⟩
    obtain ⟨hname, hsemi⟩ := semicolon_mem_groupAt hg
    exact ⟨hname, fun h => hc (hsemi.mp h)⟩

end Tagging

/-! ## Why replays fail -/

theorem Member.parse_of_malformed {fields : List Field} {field tag : String}
    {reason : AnnotationError} (h : ofFields fields = .error (.malformedTag field tag reason)) :
    ∃ value, Tag.curator? tag = some value ∧ Annotation.parse value = .error reason := by
  obtain ⟨f, -, seen, h⟩ := exists_of_foldlM_error h
  rcases bind_eq_error h with h | ⟨m, -, h⟩
  · unfold ofField at h
    split at h
    · cases h
    · rename_i value hv
      split at h
      · rename_i ha
        cases h
        exact ⟨value, hv, ha⟩
      · cases h
      · cases h
  · unfold enlist at h
    dsimp only at h
    split at h
    · cases h
    split at h <;> cases h

theorem FieldGroup.transforms_ne_malformed {r : Registry} {g : FieldGroup} {field tag : String}
    {reason : AnnotationError} : g.transforms r ≠ .error (.malformedTag field tag reason) := by
  intro h
  unfold transforms at h
  split at h
  · cases h
  split at h
  · cases h
  obtain ⟨name, -, h⟩ := exists_of_mapM_error h
  unfold Registry.transform at h
  split at h <;> cases h

/-- A replay that cannot read an annotation says which one. -/
theorem Struct.parse_of_malformed {r : Registry} {st : Struct} {field tag : String}
    {reason : AnnotationError} (h : st.replay r = .error (.malformedTag field tag reason)) :
    ∃ value, Tag.curator? tag = some value ∧ Annotation.parse value = .error reason := by
  rw [replay_eq] at h
  rcases bind_eq_error h with h | ⟨members, -, h⟩
  · exact Member.parse_of_malformed h
  rcases bind_eq_error h with h | ⟨jobs, -, h⟩
  · obtain ⟨g, -, h⟩ := exists_of_mapM_error h
    rcases bind_eq_error h with h | ⟨ts, -, h⟩
    · exact absurd h FieldGroup.transforms_ne_malformed
    · cases h
  · cases h

/-! ## Recording -/

theorem Annotation.parse_annotationAt {t : Tagging} (hnames : ∀ name ∈ t.names, IsLabel name.toList)
    (i : Nat) : Annotation.parse (t.annotationAt i).render.toList = .ok (some (t.annotationAt i)) ↔
      t.names ≠ [] ∧ ';' ∉ t.group.toList := by
  rw [← Tagging.legible_annotationAt hnames i]
  constructor
  · exact Annotation.legible_of_parse
  refine fun h => h.parse_render fun he => ?_
  have hdash : "-" ∈ t.names := by
    rw [show t.names = ["-"] from congrArg Annotation.strategies he]
    exact List.mem_singleton_self _
  have hc := (hnames _ hdash).2 '-' (by simp)
  cases hc

/-- Tags that the stages of a pipe find are well formed if those at its start are. -/
theorem Pipe.wellFormed_run {r : Registry} {names : List String} {p q : Pipe} {st out : Struct}
    (hp : r.pipe names = .ok p) (hq : q ⊆ p) (hst : ∀ f ∈ st.fields, Tag.WellFormed f.tag.toList)
    (hcut : TagMode.remove.strategy ∈ names ∨ replayName ∈ names →
      ∀ f ∈ st.fields, Tag.KeysShown f.tag.toList)
    (h : q.run st = .ok out) : ∀ f ∈ out.fields, Tag.WellFormed f.tag.toList := by
  let cuts := TagMode.remove.strategy ∈ names ∨ replayName ∈ names
  let P := fun tag : String => Tag.WellFormed tag.toList ∧ (cuts → Tag.KeysShown tag.toList)
  have hpad : P "" := ⟨Tag.wellFormed_nil, fun _ => Tag.keysShown_nil⟩
  have hretag : ∀ g : Tagging, (.transform (.tagging g) ∈ q ∨ ∃ r, .replay r ∈ q) →
      ∀ i tag, P tag → P (g.retag i tag) := by
    rintro g hg i tag ⟨hw, hb⟩
    refine ⟨Tagging.wellFormed_retag i hw fun hm => hb ?_, fun hc => Tagging.keysShown_retag i hw (hb hc)⟩
    rcases hg with hg | ⟨r', hr⟩
    · obtain ⟨name, hname, ht⟩ := Registry.transform_of_mem_pipe hp (hq hg)
      have := Registry.eq_strategy_of_transform ht
      rw [hm] at this
      exact .inl (this ▸ hname)
    · exact .inr (Registry.replayName_mem_of_pipe hp (hq hr))
  exact fun f hf => (Pipe.tags_run hpad hretag h (fun f hf => ⟨hst f hf, fun hc => hcut hc f hf⟩) f hf).1

theorem Registry.stage_of_pipe {r : Registry} {names : List String} {p : Pipe} {name : String} {k : Nat}
    (hp : r.pipe names = .ok p) (hk : names[k]? = some name) :
    ∃ s, p[k]? = some s ∧ r.stage (recorded names) name = .ok s := by
  obtain ⟨hlen, hall⟩ := List.forall₂_iff_get.mp (forall₂_of_mapM hp)
  obtain ⟨hkn, hname⟩ := List.getElem?_eq_some_iff.mp hk
  have hkp : k < p.length := hlen ▸ hkn
  have hs := hall k hkn hkp
  rw [List.get_eq_getElem, hname] at hs
  exact ⟨p[k], List.getElem?_eq_getElem hkp, hs⟩

theorem Pipe.run_take_succ {p : Pipe} {s : Stage} {k : Nat} (h : p[k]? = some s) (st : Struct) :
    Pipe.run (p.take (k + 1)) st = Pipe.run (p.take k) st >>= s.apply := by
  rw [List.take_add_one, h]
  refine List.foldlM_append.trans (congrArg (Pipe.run (p.take k) st >>= ·) (funext fun mid => ?_))
  exact bind_pure (s.apply mid)

/-- What a tagging strategy writes into a well-formed tag is found there. It is read as the annotation
that was written exactly if some strategy has been recorded and the group has no semicolon, and then no
replay takes it for malformed. Removing an annotation must not cut into the keys of other entries. -/
theorem Pipe.apply_tagging {r : Registry} {names : List String} {mode : TagMode} {p : Pipe}
    {st mid : Struct} {f : Field} {k i : Nat} (hp : r.pipe names = .ok p)
    (hk : names[k]? = some mode.strategy) (hmode : mode ≠ .remove)
    (hst : ∀ f ∈ st.fields, Tag.WellFormed f.tag.toList)
    (hcut : TagMode.remove.strategy ∈ names ∨ replayName ∈ names →
      ∀ f ∈ st.fields, Tag.KeysShown f.tag.toList)
    (hmid : Pipe.apply (p.take k) none st = .ok mid) (hf : mid.fields[i]? = some f)
    (hw : mode.keepsExisting = true → Tag.curator? f.tag = none) :
    let a := (⟨mode, Registry.recorded names, r.tagGroup⟩ : Tagging).annotationAt i
    let apart := Registry.recorded names ≠ [] ∧ ';' ∉ r.tagGroup.toList
    ∃ out g, Pipe.apply (p.take (k + 1)) none st = .ok out ∧ out.fields[i]? = some g ∧
      Tag.curator? g.tag = some a.render.toList ∧
      (apart ↔ Annotation.parse a.render.toList = .ok (some a)) ∧
      (apart → ∀ r' other field reason,
        Pipe.apply [.replay r'] none other ≠ .error (.malformedTag field g.tag reason)) := by
  let t : Tagging := ⟨mode, Registry.recorded names, r.tagGroup⟩
  obtain ⟨s, hs, hstage⟩ := Registry.stage_of_pipe hp hk
  rw [Registry.stage_strategy] at hstage
  cases hstage
  have hout : Pipe.apply (p.take (k + 1)) none st = .ok (mid.retag t) := by
    refine (Pipe.run_take_succ hs st).trans ?_
    rw [show Pipe.run (p.take k) st = .ok mid from hmid]
    rfl
  have hfound : Tag.curator? (t.retag i f.tag) = some (t.annotationAt i).render.toList :=
    Tagging.curator?_retag i hmode hw
      (Pipe.wellFormed_run hp (List.take_subset _ _) hst hcut hmid f (List.mem_of_getElem? hf))
  have hparse := Annotation.parse_annotationAt (t := t) (Registry.isLabel_recorded hp) i
  refine ⟨_, { f with tag := t.retag i f.tag }, hout, ?_, hfound, hparse.symm, ?_⟩
  · simp [Struct.retag, hf]
  · intro hapart r' other field reason h
    have hrun : Pipe.apply [.replay r'] none other = other.replay r' := bind_pure _
    rw [hrun] at h
    obtain ⟨value, hv, he⟩ := Struct.parse_of_malformed h
    rw [hfound] at hv
    cases hv
    rw [hparse.mpr hapart] at he
    cases he

/-- Fields with entries of others in their tags, one of them beside an annotation. -/
def Struct.noted : Struct where
  name := "S"
  fields := [.tagged "json:\"x\" curator:\"-\"" "a" "bool" 1 1, .tagged "yaml:\"y\"" "b" "int64" 8 8]

/-- The strategies that take old annotations out, pack the fields, and write new annotations. -/
def Pipe.renewing : Pipe :=
  [.transform (.tagging ⟨.remove, ["memory_pack"], "g"⟩), .transform .pack,
    .transform (.tagging ⟨.soft, ["memory_pack"], "g"⟩)]

theorem Pipe.apply_tagging_renewing : ∃ out g, Pipe.renewing.apply none .noted = .ok out ∧
    out.fields[1]? = some g ∧ Tag.curator? g.tag = some "group:g;memory_pack".toList ∧
      Annotation.parse "group:g;memory_pack".toList = .ok (some ⟨some "g", ["memory_pack"]⟩) ∧
        ∀ r' other field reason,
          Pipe.apply [.replay r'] none other ≠ .error (.malformedTag field g.tag reason) := by
  have hp : Registry.amd64.pipe ["remove_tag_group", "memory_pack", "add_tag_group_soft"] =
      .ok Pipe.renewing := by rfl
  have htags : Struct.noted.fields.all fun f => (Tag.entries f.tag.toList).2.isEmpty &&
      (Tag.entries f.tag.toList).1.all fun e => e.key.head?.all fun c => !Text.isBlank c := by
    cbv
  have hst : ∀ f ∈ Struct.noted.fields,
      Tag.WellFormed f.tag.toList ∧ Tag.KeysShown f.tag.toList := by
    intro f hf
    obtain ⟨hrest, hkeys⟩ := Bool.and_eq_true_iff.mp (List.all_eq_true.mp htags f hf)
    refine ⟨?_, fun e he c hc => ?_⟩
    · rw [Tag.WellFormed, List.isEmpty_iff.mp hrest]
      exact List.forall_mem_nil _
    · have := List.all_eq_true.mp hkeys e he
      rw [hc] at this
      simpa using this
  have hmid : Pipe.apply (Pipe.renewing.take 2) none .noted = .ok
      { Struct.noted with fields := [.tagged "yaml:\"y\"" "b" "int64" 8 8,
        .tagged "json:\"x\"" "a" "bool" 1 1] } := by
    cbv
  have hrecorded : Registry.recorded ["remove_tag_group", "memory_pack", "add_tag_group_soft"] =
      ["memory_pack"] := by
    decide
  have hrender : (⟨some "g", ["memory_pack"]⟩ : Annotation).render = "group:g;memory_pack" := by
    decide
  obtain ⟨out, g, hout, hg, hfound, hparse, hreplay⟩ :=
    Pipe.apply_tagging (k := 2) (i := 1) hp (show _ = some TagMode.soft.strategy from rfl) (by decide)
      (fun f hf => (hst f hf).1) (fun _ f hf => (hst f hf).2) hmid rfl fun _ => by cbv
  rw [hrecorded] at hfound hparse hreplay
  have hapart : ["memory_pack"] ≠ [] ∧ ';' ∉ Registry.amd64.tagGroup.toList := by decide
  rw [← hrender]
  exact ⟨out, g, hout, hg, hfound, hparse.mp hapart, hreplay hapart⟩

/-- What is written is malformed if nothing has been recorded, or if the group has a semicolon. It is
not found if an annotation that has been removed stood in front of a key that begins with a blank. -/
theorem Pipe.apply_tagging_unread :
    (∃ p out, Registry.pipe ⟨Registry.amd64.platform, ""⟩ ["add_tag_group_force"] = .ok p ∧
      Pipe.apply p none ⟨"S", [], [], [.tagged "" "a" "int64" 8 8]⟩ = .ok out ∧
      Pipe.apply [.replay .amd64] none out =
        .error (.malformedTag "a" "curator:\"\"" .noStrategies)) ∧
    (∃ p out, Registry.pipe ⟨Registry.amd64.platform, "a;b"⟩ ["memory_pack", "add_tag_group_force"] =
        .ok p ∧
      Pipe.apply p none ⟨"S", [], [], [.tagged "" "a" "int64" 8 8]⟩ = .ok out ∧
      Pipe.apply [.replay .amd64] none out =
        .error (.malformedTag "a" "curator:\"group:a;b;memory_pack\"" .tooManyParts)) ∧
    ∃ p out f, Registry.amd64.pipe ["remove_tag_group", "memory_pack", "add_tag_group_force"] = .ok p ∧
      Pipe.apply p none ⟨"S", [], [], [.tagged "curator:\"x\" \u00a0:\"v\"" "a" "int64" 8 8]⟩ =
        .ok out ∧ out.fields = [f] ∧ Tag.curator? f.tag = none := by
  refine ⟨⟨_, ⟨"S", [], [], [.tagged "curator:\"\"" "a" "int64" 8 8]⟩, rfl, ?_, ?_⟩,
    ⟨_, ⟨"S", [], [], [.tagged "curator:\"group:a;b;memory_pack\"" "a" "int64" 8 8]⟩, rfl, ?_, ?_⟩,
    _, ⟨"S", [], [], [.tagged ":\"v\" curator:\"group:g;memory_pack\"" "a" "int64" 8 8]⟩, _, rfl, ?_,
      rfl, ?_⟩
  all_goals cbv

end StructLayout
