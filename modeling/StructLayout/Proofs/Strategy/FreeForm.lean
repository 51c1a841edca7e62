import Mathlib
import StructLayout.Proofs.Strategy.Recording
import StructLayout.Proofs.Tag.Lookups

/-!
Annotations in tags of any form. A tag is read up to its first text that is no entry, so what is
written behind such a text is never found, and is written once more by the next run; everywhere else it
is found, and stays as it is. Taking an annotation out takes out the first one only.
-/

namespace StructLayout

namespace Tag

variable {cs ds tag key value : List Char} {before after es : List Entry}

/-! ## Values without an end -/

theorem readValue_cons {c : Char} (hq : c ≠ '"') (hs : c ≠ '\\') (cs : List Char) :
    readValue (c :: cs) = (readValue cs).map fun r => (c :: r.1, r.2) := by
  rw [readValue]
  · exact hq
  · exact fun he _ => hs he
  · exact fun _ _ he _ => hs he

theorem readValue_eq_none {cs : List Char} (h : '"' ∉ cs) : readValue cs = none := by
  fun_induction readValue cs with
  | case1 => rfl
  | case2 => exact absurd List.mem_cons_self h
  | case3 => rfl
  | case4 c cs ih =>
    rw [ih fun hm => h (List.mem_cons_of_mem _ (List.mem_cons_of_mem _ hm))]
    rfl
  | case5 c cs _ _ _ ih =>
    rw [ih fun hm => h (List.mem_cons_of_mem _ hm)]
    rfl

/-- A value with no quote at its end, which may stop at a backslash. -/
inductive Unclosed : List Char → Prop
  | nil : Unclosed []
  | slash : Unclosed ['\\']
  | escaped {c : Char} {cs : List Char} (h : Unclosed cs) : Unclosed ('\\' :: c :: cs)
  | plain {c : Char} {cs : List Char} (hq : c ≠ '"') (hs : c ≠ '\\') (h : Unclosed cs) :
      Unclosed (c :: cs)

theorem unclosed_of_readValue {cs : List Char} (h : readValue cs = none) : Unclosed cs := by
  fun_induction readValue cs with
  | case1 => exact .nil
  | case2 => cases h
  | case3 => exact .slash
  | case4 c cs ih => exact .escaped (ih (Option.map_eq_none_iff.mp h))
  | case5 c cs hquote hlone hescape ih =>
    refine .plain hquote ?_ (ih (Option.map_eq_none_iff.mp h))
    rintro rfl
    cases cs with
    | nil => exact hlone rfl rfl
    | cons d cs => exact hescape _ _ rfl rfl

/-- More text without a quote does not close a value. -/
theorem Unclosed.append {cs ds : List Char} (h : Unclosed cs) (hd : '"' ∉ ds) :
    Unclosed (cs ++ ds) := by
  induction h with
  | nil => exact unclosed_of_readValue (readValue_eq_none hd)
  | slash =>
    cases ds with
    | nil => exact .slash
    | cons d ds =>
      have hd : '"' ∉ ds := fun hm => hd (List.mem_cons_of_mem _ hm)
      exact .escaped (unclosed_of_readValue (readValue_eq_none hd))
  | escaped _ ih => exact .escaped ih
  | plain hq hs _ ih => exact .plain hq hs ih

/-- A value that is not closed goes up to the next quote behind a colon. -/
theorem Unclosed.readValue_colon {cs : List Char} (h : Unclosed cs) (rest : List Char) :
    ∃ v, readValue (cs ++ ':' :: '"' :: rest) = some (v ++ [':'], rest) := by
  induction h with
  | nil => exact ⟨[], rfl⟩
  | slash => exact ⟨[], rfl⟩
  | @escaped c cs _ ih =>
    obtain ⟨v, hv⟩ := ih
    refine ⟨unescape c :: v, ?_⟩
    rw [List.cons_append, List.cons_append, readValue, hv]
    rfl
  | @plain c cs hq hs _ ih =>
    obtain ⟨v, hv⟩ := ih
    refine ⟨c :: v, ?_⟩
    rw [List.cons_append, readValue_cons hq hs, hv]
    rfl

/-- The quotes of a written value that come behind a colon stand at its end. -/
theorem eq_nil_of_escaped {value front rest : List Char}
    (h : value.flatMap escape ++ ['"'] = front ++ ':' :: '"' :: rest) : rest = [] := by
  induction value generalizing front with
  | nil =>
    cases front with
    | nil => cases h
    | cons c front => cases front <;> cases h
  | cons c value ih =>
    rw [List.flatMap_cons, List.append_assoc] at h
    -- a character is written as itself, or as two of which none is a colon
    have single {d : Char} (h : d :: (value.flatMap escape ++ ['"']) = front ++ ':' :: '"' :: rest) :
        rest = [] := by
      cases front with
      | cons x front => exact ih (List.cons.inj h).2
      | nil =>
        have h := (List.cons.inj h).2
        cases value with
        | nil => exact (List.cons.inj h).2.symm
        | cons d value =>
          rw [List.flatMap_cons, List.append_assoc] at h
          unfold escape at h
          split at h <;> cases h
          contradiction
    have double {d : Char} (hd : d ≠ ':')
        (h : '\\' :: d :: (value.flatMap escape ++ ['"']) = front ++ ':' :: '"' :: rest) :
        rest = [] := by
      cases front with
      | nil => cases h
      | cons x front =>
        cases front with
        | nil => exact absurd (List.cons.inj (List.cons.inj h).2).1 hd
        | cons y front => exact ih (List.cons.inj (List.cons.inj h).2).2
    unfold escape at h
    split at h
    · exact double (by decide) h
    · exact double (by decide) h
    · exact double (by decide) h
    · exact double (by decide) h
    · exact single h

/-! ## Entries and the text behind them -/

theorem readEntry_append {k v rest : List Char} (h : readEntry cs = some (k, v, rest))
    (ds : List Char) : readEntry (cs ++ ds) = some (k, v, rest ++ ds) := by
  obtain ⟨hk, raw, rfl, hraw⟩ := readEntry_eq_some h
  simpa using readEntry_of hk (hraw (rest ++ ds))

/-- What is written behind a text that is no entry does not make it one, unless its value has not
been closed: that value then goes up to the first quote of the new entry, and has its colon at the
end. -/
theorem readEntry_append_entry (h : readEntry cs = none) (hk : '"' ∉ key) (rest : List Char) :
    readEntry (cs ++ ' ' :: (key ++ ':' :: '"' :: rest)) = none ∨
      ∃ k v, readEntry (cs ++ ' ' :: (key ++ ':' :: '"' :: rest)) = some (k, v ++ [':'], rest) := by
  cases hread : readEntry (cs ++ ' ' :: (key ++ ':' :: '"' :: rest)) with
  | none => exact .inl rfl
  | some r =>
    obtain ⟨k, v, behind⟩ := r
    obtain ⟨hkey, raw, hcs, hraw⟩ := readEntry_eq_some hread
    -- the key and the quote behind it stand in the old text, as a key has no space
    have hold : ∃ more, cs = (k ++ [':', '"']) ++ more ∧
        more ++ ' ' :: (key ++ ':' :: '"' :: rest) = raw ++ '"' :: behind := by
      have hcs : cs ++ ' ' :: (key ++ ':' :: '"' :: rest) =
          (k ++ [':', '"']) ++ (raw ++ '"' :: behind) := by simpa using hcs
      rcases List.append_eq_append_iff.mp hcs with ⟨new, hnew, htail⟩ | ⟨more, hmore, htail⟩
      · cases new with
        | nil => exact ⟨[], by simpa using hnew.symm, htail⟩
        | cons c new =>
          have hspace : ' ' ∈ k ++ [':', '"'] := by
            rw [hnew, ← (List.cons.inj htail).1]
            exact List.mem_append_right _ List.mem_cons_self
          rcases List.mem_append.mp hspace with hspace | hspace
          · cases hkey.2 _ hspace
          · exact absurd hspace (by decide)
      · exact ⟨more, hmore, htail.symm⟩
    obtain ⟨more, rfl, hmore⟩ := hold
    have hopen : readValue more = none := by
      rw [Option.eq_none_iff_forall_ne_some]
      intro r hr
      rw [List.append_assoc, List.cons_append, List.cons_append, List.nil_append,
        readEntry_of hkey hr] at h
      cases h
    have hopen : Unclosed (more ++ ' ' :: key) :=
      (unclosed_of_readValue hopen).append (List.not_mem_cons_of_ne_of_not_mem (by decide) hk)
    obtain ⟨w, hw⟩ := hopen.readValue_colon rest
    have hvalue := hraw behind
    rw [← hmore, ← List.cons_append, ← List.append_assoc, hw] at hvalue
    cases hvalue
    exact .inr ⟨k, w, rfl⟩

/-! ## Lookups behind entries -/

theorem pairs_of_ends (h : Ends cs) : pairs cs = [] := by
  rw [pairs, show entries cs = ([], cs) from entries_spell (List.forall_mem_nil _) h]
  rfl

theorem pairs_of_readEntry {k v rest : List Char}
    (h : readEntry (cs.dropWhile (· == ' ')) = some (k, v, rest)) : pairs cs = (k, v) :: pairs rest := by
  rw [pairs, entries]
  split
  · rename_i hnone
    rw [hnone] at h
    cases h
  · rename_i hsome
    rw [hsome] at h
    cases h
    rfl

theorem pairs_spell_append (hw : ∀ e ∈ es, e.Written) (cs : List Char) :
    pairs (spell es ++ cs) = es.map Entry.pair ++ pairs cs := by
  obtain ⟨hwritten, hends, hspell⟩ := entries_spec cs
  have hsplit : spell es ++ cs = spell (es ++ (entries cs).1) ++ (entries cs).2 := by
    rw [spell_append, List.append_assoc, hspell]
  rw [pairs, hsplit, entries_spell (List.forall_mem_append.mpr ⟨hw, hwritten⟩) hends, List.map_append]
  rfl

theorem pairs_spaces_append {gap : List Char} (hg : ∀ c ∈ gap, c = ' ') (cs : List Char) :
    pairs (gap ++ cs) = pairs cs := by
  have hpos : ∀ c ∈ gap, (c == ' ') = true := fun c hc => beq_iff_eq.mpr (hg c hc)
  have hdrop : (gap ++ cs).dropWhile (· == ' ') = cs.dropWhile (· == ' ') :=
    List.dropWhile_append_of_pos hpos
  cases h : readEntry (cs.dropWhile (· == ' ')) with
  | none => rw [pairs_of_ends h, pairs_of_ends (show readEntry _ = none from hdrop ▸ h)]
  | some r => rw [pairs_of_readEntry h, pairs_of_readEntry (hdrop ▸ h)]

/-- Entries of other keys are passed. -/
theorem lookup_spell_append (hw : ∀ e ∈ es, e.Written) (hne : ∀ e ∈ es, e.key ≠ key)
    (cs : List Char) : lookup (spell es ++ cs) key = lookup cs key := by
  have hnone : (es.map Entry.pair).lookup key = none := by
    rw [List.lookup_eq_none_iff]
    intro p hp
    obtain ⟨e, he, rfl⟩ := List.mem_map.mp hp
    exact bne_iff_ne.mpr (hne e he).symm
  rw [lookup_eq, pairs_spell_append hw, List.lookup_append, hnone, lookup_eq]
  rfl

/-! ## Setting a value in any tag -/

/-- The value of a key is replaced, or a new entry stands behind nothing but blanks. -/
def Receives (tag key : List Char) : Prop :=
  (lookup tag key).isSome ∨ ∀ c ∈ (entries tag).2, Text.isBlank c = true

theorem lookup_eq_none (hne : ∀ x ∈ (entries tag).1, x.key ≠ key) : lookup tag key = none := by
  rw [lookup, find?_of_absent hne]
  rfl

variable (value) in
/-- What is received is an entry as it is written for this value, the first one of its key. -/
theorem Receives.set (h : Receives tag key) (hk : IsKey key) :
    ∃ before gap after, (entries (set tag key value)).1 = before ++ .new gap key value :: after ∧
      ∀ x ∈ before, x.key ≠ key := by
  rcases split_entries tag key with hne | ⟨before, e, after, hs, hne, he⟩
  · rcases h with h | h
    · rw [lookup_eq_none hne] at h
      cases h
    · obtain ⟨gap, hset⟩ := entries_set_of_blank value hk h hne
      exact ⟨(entries tag).1, gap, [], by rw [hset], hne⟩
  · exact ⟨before, e.gap, after, by rw [entries_set_of_split value hk hs hne he], hne⟩

/-- Setting an entry once more to what it is written for changes nothing. -/
theorem set_eq_self {gap : List Char} (hs : (entries tag).1 = before ++ .new gap key value :: after)
    (hne : ∀ x ∈ before, x.key ≠ key) : set tag key value = tag := by
  obtain ⟨-, -, hspell⟩ := entries_spec tag
  rw [set, find?_of_split hs hne rfl]
  conv_rhs => rw [← hspell, hs]
  simp [spell, Entry.new]

/-- A tag that a value can be set in without a change has that value. -/
theorem lookup_of_set_eq_self (hk : IsKey key) (h : set tag key value = tag) :
    lookup tag key = some value := by
  rcases split_entries tag key with hne | ⟨before, e, after, hs, hne, he⟩
  · -- the new entry would stand behind the whole tag, which would be longer
    let entry := key ++ ':' :: quote value
    have hstops : Text.Stops tag := by
      have hentry : Text.Stops entry := by
        simpa [entry, quote] using Text.stops_snoc (key ++ ':' :: '"' :: value.flatMap escape) rfl
      rw [← h, set, find?_of_absent hne]
      dsimp only
      split
      · exact hentry
      · rw [← List.singleton_append, ← List.append_assoc]
        exact hentry.append (by simp [entry]) _
    rw [set, find?_of_absent hne, Text.trimEnd_eq_self hstops] at h
    dsimp only at h
    split at h
    · rename_i hnil
      have hquote : '"' ∈ tag := by
        rw [← h]
        simp [quote]
      exact absurd (List.isEmpty_iff.mp hnil) (Text.trim_ne_nil hquote rfl)
    · simpa using congrArg List.length h
  · rw [← h]
    exact lookup_of_split (by rw [entries_set_of_split value hk hs hne he]) hne rfl

theorem ends_escaped (value : List Char) : Ends (value.flatMap escape ++ ['"']) := by
  rw [Ends, Option.eq_none_iff_forall_ne_some]
  rintro ⟨k, v, rest⟩ hread
  obtain ⟨-, raw, hdrop, -⟩ := readEntry_eq_some hread
  have hsplit := List.takeWhile_append_dropWhile (p := (· == ' ')) (l := value.flatMap escape ++ ['"'])
  rw [hdrop, ← List.append_assoc] at hsplit
  simpa using eq_nil_of_escaped hsplit.symm

/-- A text that can be seen and is no entry hides what is set behind it. Instead nothing is found, or a
value that goes up to the quote of the new entry. -/
theorem lookup_set_of_not_receives (hk : '"' ∉ key) (h : ¬ Receives tag key) (value : List Char) :
    lookup (set tag key value) key = none ∨ ∃ v, lookup (set tag key value) key = some (v ++ [':']) := by
  obtain ⟨hwritten, hends, hspell⟩ := entries_spec tag
  rw [Receives, not_or] at h
  obtain ⟨hnew, hseen⟩ := h
  push Not at hseen
  obtain ⟨c, hc, hseen⟩ := hseen
  have hseen : Text.isBlank c = false := Bool.eq_false_iff.mpr hseen
  have hspace : (c == ' ') = false := beq_eq_false_iff_ne.mpr fun he => by
    rw [he] at hseen
    cases hseen
  have hne : ∀ x ∈ (entries tag).1, x.key ≠ key := by
    rcases split_entries tag key with hne | ⟨before, e, after, hs, hne, he⟩
    · exact hne
    · rw [lookup_of_split hs hne he] at hnew
      exact absurd rfl hnew
  have hset : set tag key value = spell (entries tag).1 ++ (Text.trimEnd (entries tag).2 ++
      ' ' :: (key ++ ':' :: '"' :: (value.flatMap escape ++ ['"']))) := by
    have hmem : c ∈ tag := by
      rw [← hspell]
      exact List.mem_append_right _ hc
    have htrim : Text.trimEnd tag = spell (entries tag).1 ++ Text.trimEnd (entries tag).2 := by
      conv_lhs => rw [← hspell]
      exact Text.trimEnd_append_of_mem hc hseen _
    rw [set, find?_of_absent hne]
    dsimp only
    rw [if_neg (by simpa using Text.trim_ne_nil hmem hseen), htrim, List.append_assoc]
    rfl
  rw [hset, lookup_spell_append hwritten hne, lookup_eq]
  have hkept := Text.mem_trimEnd hc hseen
  have hdrop := Text.dropWhile_append_of_mem (p := (· == ' ')) hkept hspace
  have hnone : readEntry ((Text.trimEnd (entries tag).2).dropWhile (· == ' ')) = none := by
    obtain ⟨blanks, hblanks⟩ := Text.prefix_trimEnd (entries tag).2
    rw [Ends, ← hblanks, hdrop] at hends
    rw [Option.eq_none_iff_forall_ne_some]
    rintro ⟨k, v, rest⟩ hread
    rw [readEntry_append hread] at hends
    cases hends
  rcases readEntry_append_entry hnone hk (value.flatMap escape ++ ['"']) with hread | ⟨k, v, hread⟩
  · rw [pairs_of_ends (show readEntry _ = none from (hdrop _).symm ▸ hread)]
    exact .inl rfl
  · rw [pairs_of_readEntry ((hdrop _).symm ▸ hread), pairs_of_ends (ends_escaped value),
      List.lookup_cons]
    split
    · exact .inr ⟨v, rfl⟩
    · exact .inl rfl

/-- A value with no colon at its end is found where it has been set, and stays when it is set once
more, exactly if the tag receives it. -/
theorem lookup_set_iff (hk : IsKey key) (hv : value.getLast? ≠ some ':') :
    (lookup (set tag key value) key = some value ↔ Receives tag key) ∧
      (set (set tag key value) key value = set tag key value ↔ Receives tag key) := by
  have hquote : '"' ∉ key := fun hm => by cases hk.2 _ hm
  have hhides (h : lookup (set tag key value) key = some value) : Receives tag key := by
    by_contra hnot
    rcases lookup_set_of_not_receives hquote hnot value with hnone | ⟨v, hsome⟩
    · rw [hnone] at h
      cases h
    · rw [hsome] at h
      cases h
      exact hv List.getLast?_concat
  refine ⟨⟨hhides, fun h => ?_⟩, ⟨fun h => hhides (lookup_of_set_eq_self hk h), fun h => ?_⟩⟩
  · obtain ⟨before, gap, after, hs, hne⟩ := h.set value hk
    exact lookup_of_split hs hne rfl
  · obtain ⟨before, gap, after, hs, hne⟩ := h.set value hk
    exact set_eq_self hs hne

/-! ## Removing an entry from any tag -/

/-- The text behind the first entry of a key, without the blanks at its start, has no value for it. -/
def Sheds (tag key : List Char) : Prop :=
  ((find? tag key).bind fun found => lookup (Text.trimStart found.after) key) = none

theorem lookup_remove_iff : lookup (remove tag key) key = none ↔ Sheds tag key := by
  rcases split_entries tag key with hne | ⟨before, e, after, hs, hne, he⟩
  · rw [remove_of_absent hne, Sheds, find?_of_absent hne]
    exact iff_of_true (lookup_eq_none hne) rfl
  · obtain ⟨gap, hgap, hremove⟩ := remove_of_split hs hne he
    have hwritten := (entries_spec tag).1
    rw [hs, List.forall_mem_append] at hwritten
    rw [hremove, lookup_spell_append hwritten.1 hne, lookup_eq, pairs_spaces_append hgap, ← lookup_eq,
      Sheds, find?_of_split hs hne he, Option.bind_some]

end Tag

/-! ## What is written -/

theorem Annotation.getLast?_render {a : Annotation} (h : ∀ name ∈ a.strategies, ':' ∉ name.toList) :
    a.render.toList.getLast? ≠ some ':' := by
  have hlist : ':' ∉ listed a.strategies := by
    intro hm
    rcases Text.mem_intercalate hm with hm | ⟨piece, hp, hm⟩
    · cases hm
    · obtain ⟨name, hn, rfl⟩ := List.mem_map.mp hp
      exact h name hn hm
  rw [toList_render, List.getLast?_append, Ne, Option.or_eq_some_iff, not_or]
  refine ⟨fun hlast => hlist (List.mem_of_getLast? hlast), fun ⟨_, hlast⟩ => ?_⟩
  cases hg : a.group with
  | none =>
    rw [hg] at hlast
    cases hlast
  | some name =>
    rw [hg, Option.elim_some, List.getLast?_concat] at hlast
    cases hlast

/-- Overwritten annotations are found, and stay when they are written once more, exactly in the fields
whose tags have an annotation already or nothing else than blanks behind their entries. Annotations
that are taken out are gone exactly where none comes to light behind them. No name of a strategy has a
colon. -/
theorem Pipe.apply_force_remove {r : Registry} {names : List String}
    (hn : ∀ name ∈ names, ':' ∉ name.toList) (st : Struct) :
    ∃ force remove, r.stage names "add_tag_group_force" = .ok force ∧
      r.stage names "remove_tag_group" = .ok remove ∧
      ∃ out again bare, Pipe.apply [force] none st = .ok out ∧ Pipe.apply [force] none out = .ok again ∧
        Pipe.apply [remove] none st = .ok bare ∧
        (∀ i f, st.fields[i]? = some f → ∃ tag rest, out.fields[i]? = some { f with tag } ∧
          bare.fields[i]? = some { f with tag := rest } ∧
          (Tag.curator? tag = some ((⟨.force, names, r.tagGroup⟩ : Tagging).annotationAt i).render.toList ↔
            Tag.Receives f.tag.toList Tag.curatorKey) ∧
          (Tag.curator? rest = none ↔ Tag.Sheds f.tag.toList Tag.curatorKey)) ∧
        (again = out ↔ ∀ f ∈ st.fields, Tag.Receives f.tag.toList Tag.curatorKey) := by
  let t : Tagging := ⟨.force, names, r.tagGroup⟩
  let u : Tagging := ⟨.remove, names, r.tagGroup⟩
  have hset (i : Nat) (tag : String) :
      (Tag.curator? (t.retag i tag) = some (t.annotationAt i).render.toList ↔
        Tag.Receives tag.toList Tag.curatorKey) ∧
      (t.retag i (t.retag i tag) = t.retag i tag ↔ Tag.Receives tag.toList Tag.curatorKey) := by
    have hlast : (t.annotationAt i).render.toList.getLast? ≠ some ':' := Annotation.getLast?_render hn
    have hretag (tag : String) : t.retag i tag = Tag.setCurator tag (t.annotationAt i).render.toList := rfl
    rw [hretag, hretag, Tag.curator?, Tag.setCurator, Tag.setCurator, String.toList_ofList,
      String.ofList_inj]
    exact Tag.lookup_set_iff Tag.isKey_curatorKey hlast
  have hremove (i : Nat) (tag : String) :
      Tag.curator? (u.retag i tag) = none ↔ Tag.Sheds tag.toList Tag.curatorKey := by
    have hretag : u.retag i tag = Tag.removeCurator tag := rfl
    rw [hretag, Tag.curator?, Tag.removeCurator, String.toList_ofList]
    exact Tag.lookup_remove_iff
  refine ⟨_, _, r.stage_strategy names .force, r.stage_strategy names .remove, st.retag t,
    (st.retag t).retag t, st.retag u, rfl, rfl, rfl, fun i f hf => ?_, ?_⟩
  · refine ⟨t.retag i f.tag, u.retag i f.tag, ?_, ?_, (hset i f.tag).1, hremove i f.tag⟩
    · simp [Struct.retag, hf]
    · simp [Struct.retag, hf]
  constructor
  · intro h f hf
    obtain ⟨i, hi⟩ := List.mem_iff_getElem?.mp hf
    have htag := congrArg (fun st : Struct => st.fields[i]?.map Field.tag) h
    refine (hset i f.tag).2.mp ?_
    simpa [Struct.retag, hi] using htag
  · intro h
    have hfields : ((st.retag t).retag t).fields = (st.retag t).fields := by
      refine List.ext_getElem? fun i => ?_
      cases hi : st.fields[i]? with
      | none => simp [Struct.retag, hi]
      | some f =>
        have htag := (hset i f.tag).2.mpr (h f (List.mem_of_getElem? hi))
        simp [Struct.retag, hi, htag]
    exact congrArg (fun fields => { st with fields }) hfields

/-- Fields with no annotation, with one in front of text that is no entry, and with one alone. -/
def Struct.littered : Struct where
  name := "S"
  fields := [.tagged " \t" "a" "bool" 1 1, .tagged "curator:\"-\" json" "b" "int64" 8 8,
    .tagged "curator:\"x\"" "c" "int64" 8 8]

theorem Pipe.apply_force_remove_littered : ∃ force remove,
    Registry.amd64.stage ["memory_pack"] "add_tag_group_force" = .ok force ∧
      Registry.amd64.stage ["memory_pack"] "remove_tag_group" = .ok remove ∧
      ∃ out bare, Pipe.apply [force] none .littered = .ok out ∧ Pipe.apply [force] none out = .ok out ∧
        Pipe.apply [remove] none .littered = .ok bare ∧
        ∀ i < 3, ∃ f g, out.fields[i]? = some f ∧ bare.fields[i]? = some g ∧
          Tag.curator? f.tag = some "group:g;memory_pack".toList ∧ Tag.curator? g.tag = none := by
  have hreceives : ∀ f ∈ Struct.littered.fields, Tag.Receives f.tag.toList Tag.curatorKey := by
    have hall : Struct.littered.fields.all fun f => (Tag.curator? f.tag).isSome ||
        (Tag.entries f.tag.toList).2.all Text.isBlank := by
      cbv
    intro f hf
    exact (Bool.or_eq_true_iff.mp (List.all_eq_true.mp hall f hf)).imp_right List.all_eq_true.mp
  have hsheds : ∀ f ∈ Struct.littered.fields, Tag.Sheds f.tag.toList Tag.curatorKey := by
    have hall : Struct.littered.fields.all fun f => ((Tag.find? f.tag.toList Tag.curatorKey).bind
        fun found => Tag.lookup (Text.trimStart found.after) Tag.curatorKey).isNone := by
      cbv
    exact fun f hf => Option.isNone_iff_eq_none.mp (List.all_eq_true.mp hall f hf)
  have hnames : ∀ name ∈ ["memory_pack"], ':' ∉ name.toList := by decide
  obtain ⟨force, remove, hforce, hremove, out, again, bare, hout, hagain, hbare, hfields, hsame⟩ :=
    Pipe.apply_force_remove (r := .amd64) hnames .littered
  refine ⟨force, remove, hforce, hremove, out, bare, hout, hsame.mpr hreceives ▸ hagain, hbare, ?_⟩
  intro i hi
  have hf : Struct.littered.fields[i]? = some Struct.littered.fields[i] := List.getElem?_eq_getElem hi
  obtain ⟨tag, rest, hg, hr, hset, hgone⟩ := hfields i _ hf
  have hmem := List.mem_of_getElem? hf
  exact ⟨_, _, hg, hr, hset.mpr (hreceives _ hmem), hgone.mpr (hsheds _ hmem)⟩

/-- Text that is no entry hides what is written behind it, and it is written once more. Of two
annotations only one is taken out. -/
theorem Pipe.apply_force_remove_hidden :
    (∃ p out again f, Registry.amd64.pipe ["memory_pack", "add_tag_group_force"] = .ok p ∧
      Pipe.apply p none ⟨"S", [], [], [.tagged "x" "a" "int64" 8 8]⟩ = .ok out ∧
      Pipe.apply p none out = .ok again ∧ again ≠ out ∧ out.fields = [f] ∧
      Tag.curator? f.tag = none) ∧
    ∃ p out f, Registry.amd64.pipe ["remove_tag_group"] = .ok p ∧
      Pipe.apply p none ⟨"S", [], [], [.tagged "curator:\"a\" curator:\"b\"" "a" "int64" 8 8]⟩ = .ok out ∧
      out.fields = [f] ∧ Tag.curator? f.tag = some "b".toList := by
  refine ⟨⟨_, ⟨"S", [], [], [.tagged "x curator:\"group:g;memory_pack\"" "a" "int64" 8 8]⟩,
    ⟨"S", [], [], [.tagged
      "x curator:\"group:g;memory_pack\" curator:\"group:g;memory_pack\"" "a" "int64" 8 8]⟩,
    _, rfl, ?_, ?_, ?_, rfl, ?_⟩,
    _, ⟨"S", [], [], [.tagged "curator:\"b\"" "a" "int64" 8 8]⟩, _, rfl, ?_, rfl, ?_⟩
  · cbv
  · cbv
  · decide
  · cbv
  · cbv
  · cbv

end StructLayout
