import StructLayout.Proofs.Strategy.Names

/-!
Lists of names that make a pipe. A name is that of a strategy if it is one of the plain names, or has
one of the four forms with a number that is held in 64 bits. A pipe has the stages that its names
stand for, in their order, and the first name that is none is reported.
-/

namespace StructLayout

namespace Registry

/-- The names without a number. -/
def plainNames : List String :=
  ["memory_pack", "memory_unpack", "explicit_paddings_system_alignment",
   "explicit_paddings_type_natural", "false_sharing_cpu_l1", "false_sharing_cpu_l2",
   "false_sharing_cpu_l3", "cache_rounding_cpu_l1", "cache_rounding_cpu_l2",
   "cache_rounding_cpu_l3", "separate_padding_system_alignment_top",
   "separate_padding_system_alignment_bottom", "separate_padding_cpu_l1_top",
   "separate_padding_cpu_l2_top", "separate_padding_cpu_l3_top", "separate_padding_cpu_l1_bottom",
   "separate_padding_cpu_l2_bottom", "separate_padding_cpu_l3_bottom", "process_tag_group",
   "add_tag_group_soft", "add_tag_group_force", "add_tag_group_discrete",
   "add_tag_group_force_discrete", "remove_tag_group", "fields_annotate_doc",
   "fields_annotate_comment", "struct_annotate_doc", "struct_annotate_comment",
   "struct_stamp_doc", "struct_stamp_comment", "name_lexicographical_ascending",
   "name_lexicographical_descending", "type_lexicographical_ascending",
   "type_lexicographical_descending", "name_length_ascending", "name_length_descending",
   "type_length_ascending", "type_length_descending", "embedded_ascending",
   "embedded_descending", "exported_ascending", "exported_descending", "filter_pads",
   "filter_embedded", "filter_not_embedded", "filter_exported", "filter_not_exported", "ignore",
   "void"]

/-- Decimal digits of a number that is held in 64 bits. -/
structure IsNumeral (digits : List Char) : Prop where
  ne_nil : digits ≠ []
  isDigit : ∀ c ∈ digits, c.isDigit = true
  lt : Nat.ofDigitChars 10 digits 0 < Text.wordBound

/-- What a name stands for in a pipe that records some names. -/
inductive StandsFor (r : Registry) (recorded : List String) : String → Stage → Prop
  | replay : StandsFor r recorded replayName (.replay r)
  | plain {name : String} {t : Transform} (h : (name, t) ∈ r.fixed recorded) :
      StandsFor r recorded name (.transform t)
  | sized {start stop : String} {t : Nat → Transform} {digits : List Char}
      (hform : ((start, stop), t) ∈ sizedForms) (hd : IsNumeral digits) :
      StandsFor r recorded (start ++ String.ofList digits ++ stop)
        (.transform (t (Nat.ofDigitChars 10 digits 0)))

/-- The names that stand for a stage: plain ones, and those with a number in one of four forms. -/
def IsStrategy (name : String) : Prop :=
  name ∈ plainNames ∨ ∃ form ∈ sizedForms, ∃ digits, IsNumeral digits ∧
    name = form.1.1 ++ String.ofList digits ++ form.1.2

variable {r : Registry} {recorded : List String} {name : String} {stage : Stage}

/-! ## Names -/

/-- The plain names are those with a transform of their own and the one that replays. -/
theorem perm_plainNames (r : Registry) (recorded : List String) :
    plainNames.Perm (replayName :: (r.fixed recorded).map Prod.fst) := by
  let keys := (r.fixed recorded).map Prod.fst
  have hsplit : plainNames = keys.take 18 ++ replayName :: keys.drop 18 := rfl
  have h := @List.perm_middle _ replayName (keys.take 18) (keys.drop 18)
  rwa [← hsplit, List.take_append_drop] at h

theorem mem_plainNames (r : Registry) (recorded : List String) :
    name ∈ plainNames ↔ name = replayName ∨ name ∈ (r.fixed recorded).map Prod.fst := by
  rw [(perm_plainNames r recorded).mem_iff, List.mem_cons]

theorem isStrategy_iff (r : Registry) (recorded : List String) :
    IsStrategy name ↔ ∃ s, StandsFor r recorded name s := by
  rw [IsStrategy, mem_plainNames r recorded]
  constructor
  · rintro ((rfl | h) | ⟨⟨⟨start, stop⟩, t⟩, hform, digits, hd, rfl⟩)
    · exact ⟨_, .replay⟩
    · obtain ⟨⟨name, t⟩, ht, rfl⟩ := List.mem_map.mp h
      exact ⟨_, .plain ht⟩
    · exact ⟨_, .sized hform hd⟩
  · rintro ⟨_, _ | h | ⟨hform, hd⟩⟩
    · exact .inl (.inl rfl)
    · exact .inl (.inr (List.mem_map_of_mem h))
    · exact .inr ⟨_, hform, _, hd, rfl⟩

/-! ## Stages -/

theorem readBytes_eq_some {digits : List Char} {n : Nat} :
    readBytes digits = some n ↔ IsNumeral digits ∧ n = Nat.ofDigitChars 10 digits 0 := by
  have hread (hd : ∀ c ∈ digits, c.isDigit = true) (hne : digits ≠ []) :
      readBytes digits = if Nat.ofDigitChars 10 digits 0 < Text.wordBound
        then some (Nat.ofDigitChars 10 digits 0) else none := by
    rw [readBytes, if_pos (List.all_eq_true.mpr hd)]
    exact Text.readNat_of_readDigits hne (Text.readDigits_of_isDigit hd 0)
  constructor
  · intro h
    have hd := isDigit_of_readBytes h
    have hne : digits ≠ [] := by
      rintro rfl
      cases h
    rw [hread hd hne] at h
    split at h
    · rename_i hlt
      cases h
      exact ⟨⟨hne, hd, hlt⟩, rfl⟩
    · cases h
  · rintro ⟨⟨hne, hd, hlt⟩, rfl⟩
    rw [hread hd hne]
    exact if_pos hlt

/-- Plain names are distinct, and none of them has the form of a name with a number. -/
theorem plainNames_apart : plainNames.Nodup ∧ ∀ name ∈ plainNames, sized? name = none := by
  decide +kernel

theorem stage_of_mem_fixed {t : Transform} (h : (name, t) ∈ r.fixed recorded) :
    r.stage recorded name = .ok (.transform t) := by
  obtain ⟨hnodup, hsized⟩ := plainNames_apart
  rw [(perm_plainNames r recorded).nodup_iff, List.nodup_cons] at hnodup
  have hkey : name ∈ (r.fixed recorded).map Prod.fst := List.mem_map_of_mem h
  have hname : name ≠ replayName := fun he => hnodup.1 (he ▸ hkey)
  have hplain : name ∈ plainNames := (mem_plainNames r recorded).mpr (.inr hkey)
  rw [Registry.stage, if_neg hname, transform, hsized name hplain, Option.none_or,
    lookup_of_mem hnodup.2 h]
  rfl

/-- A name makes the stage that it stands for. -/
theorem stage_eq_ok : r.stage recorded name = .ok stage ↔ StandsFor r recorded name stage := by
  constructor
  · intro h
    unfold Registry.stage at h
    split at h
    · rename_i hname
      cases h
      exact hname ▸ .replay
    · obtain ⟨t, ht, rfl⟩ := map_eq_ok.mp h
      rcases transform_eq_ok ht with hs | hm
      · obtain ⟨n, digits, hn, ⟨⟨start, stop⟩, t⟩, hform, rfl, hname⟩ := sized?_eq_some hs
        obtain ⟨hd, rfl⟩ := readBytes_eq_some.mp hn
        have heq : name = start ++ String.ofList digits ++ stop := by
          rw [← String.toList_inj, hname, String.toList_append, String.toList_append,
            String.toList_ofList]
        exact heq ▸ .sized hform hd
      · exact .plain hm
  · intro h
    cases h with
    | replay => exact if_pos rfl
    | plain h => exact stage_of_mem_fixed h
    | sized hform hd =>
      refine stage_of_sized? (sized?_of_form (readBytes_eq_some.mpr ⟨hd, rfl⟩) hform ?_)
      simp only [String.toList_append, String.toList_ofList]

theorem stage_eq_error {e : StrategyError} :
    r.stage recorded name = .error e ↔ ¬IsStrategy name ∧ e = .unknownStrategy name := by
  rw [isStrategy_iff r recorded]
  simp only [← stage_eq_ok]
  unfold Registry.stage transform
  split
  · simp
  · split <;> simp [Except.map, eq_comm]

/-- A list of names makes a pipe if and only if each of them is a strategy. The pipe has one stage
for each name, in their order; otherwise the first name that is none is reported. -/
theorem pipe_outcome (r : Registry) (names : List String) :
    ((∃ p, r.pipe names = .ok p) ↔ ∀ name ∈ names, IsStrategy name) ∧
      (∀ p, r.pipe names = .ok p ↔
        List.Forall₂ (StandsFor r (Registry.recorded names)) names p) ∧
      ∀ e, r.pipe names = .error e ↔ ∃ front name back, names = front ++ name :: back ∧
        (∀ other ∈ front, IsStrategy other) ∧ ¬IsStrategy name ∧ e = .unknownStrategy name := by
  have hiff {name : String} := @isStrategy_iff name r (Registry.recorded names)
  refine ⟨?_, fun p => ?_, fun e => ?_⟩
  · simp only [pipe, exists_mapM, stage_eq_ok, hiff]
  · simp only [pipe, mapM_eq_ok, stage_eq_ok]
  · simp only [pipe, mapM_eq_error, stage_eq_error, stage_eq_ok, hiff]

end Registry

end StructLayout
