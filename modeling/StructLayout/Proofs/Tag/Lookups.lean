import Mathlib
import StructLayout.Proofs.Sequence
import StructLayout.Proofs.Tag.Edits

/-!
What edits of a tag leave alone. A value that is set is found, and so is every other one as before.
Removing an entry does the same exactly if the key behind it does not begin with a blank, for a blank
that is no space may be part of a key, and is cut off with the spaces in front of it.
-/

namespace StructLayout.Tag

/-- What the entries of a tag say, in order. -/
def pairs (tag : List Char) : List (List Char × List Char) :=
  (entries tag).1.map Entry.pair

/-- The entries of the other keys. -/
def others (tag key : List Char) : List (List Char × List Char) :=
  (pairs tag).filter fun p => p.1 != key

/-- A sequence of entries with nothing but spaces between them, at most one for each key. -/
structure Tidy (tag : List Char) : Prop where
  wellFormed : WellFormed tag
  nodup : ((pairs tag).map Prod.fst).Nodup

/-- The entry of a key stands in front of one whose key begins with a blank. -/
def CutsInto (tag key : List Char) : Prop :=
  ∃ before e x after, (entries tag).1 = before ++ e :: x :: after ∧ e.key = key ∧
    ¬ Text.Starts x.key

variable {tag tag' key other value : List Char} {before after : List Entry} {e x : Entry}

/-! ## Lookups -/

theorem lookup_eq (tag key : List Char) : lookup tag key = (pairs tag).lookup key := by
  rcases split_entries tag key with hne | ⟨before, e, after, hs, hne, he⟩
  · rw [lookup, find?_of_absent hne, Option.map_none, eq_comm, List.lookup_eq_none_iff]
    intro p hp
    obtain ⟨x, hx, rfl⟩ := List.mem_map.mp hp
    exact bne_iff_ne.mpr (hne x hx).symm
  · rw [lookup_of_split hs hne he, eq_comm, List.lookup_eq_some_iff]
    refine ⟨before.map Entry.pair, after.map Entry.pair, ?_, fun p hp => ?_⟩
    · rw [pairs, hs, List.map_append, List.map_cons, Entry.pair, he]
    · obtain ⟨x, hx, rfl⟩ := List.mem_map.mp hp
      exact bne_iff_ne.mpr (hne x hx).symm

theorem lookup_filter {ps : List (List Char × List Char)} (hne : other ≠ key) :
    (ps.filter fun p => p.1 != key).lookup other = ps.lookup other := by
  induction ps with
  | nil => rfl
  | cons p ps ih =>
    by_cases hp : p.1 = key
    · have hother : (other == p.1) = false := by simpa [hp] using hne
      rw [List.filter_cons_of_neg (by simp [hp]), ih, List.lookup_cons, hother]
    · rw [List.filter_cons_of_pos (by simp [hp]), List.lookup_cons, List.lookup_cons, ih]

/-- Tags that agree on the entries of the other keys agree on their values. -/
theorem lookup_congr (h : others tag' key = others tag key) (hne : other ≠ key) :
    lookup tag' other = lookup tag other := by
  have hfilter (tag : List Char) : lookup tag other = (others tag key).lookup other := by
    rw [lookup_eq, others, lookup_filter hne]
  rw [hfilter, hfilter, h]

/-! ## Setting a value -/

theorem others_of_split (hs : (entries tag).1 = before ++ e :: after) (he : e.key = key) :
    others tag key = (before.map Entry.pair).filter (fun p => p.1 != key) ++
      (after.map Entry.pair).filter fun p => p.1 != key := by
  rw [others, pairs, hs, List.map_append, List.map_cons, List.filter_append,
    List.filter_cons_of_neg (by simp [Entry.pair, he])]

variable (value) in
theorem others_set (hk : IsKey key) (hw : WellFormed tag) :
    others (set tag key value) key = others tag key := by
  have hnew (gap : List Char) : (Entry.new gap key value).key = key := rfl
  rcases split_entries tag key with hne | ⟨before, e, after, hs, hne, he⟩
  · obtain ⟨gap, hset⟩ := entries_set_of_absent value hk hw hne
    have hs : (entries (set tag key value)).1 = (entries tag).1 ++ .new gap key value :: [] := by
      rw [hset]
    rw [others_of_split hs (hnew gap), List.map_nil, List.filter_nil, List.append_nil]
    rfl
  · have hs' : (entries (set tag key value)).1 = before ++ .new e.gap key value :: after := by
      rw [entries_set_of_split value hk hs hne he]
    rw [others_of_split hs' (hnew e.gap), others_of_split hs he]

variable (value) in
theorem Tidy.set (hk : IsKey key) (ht : Tidy tag) : Tidy (set tag key value) := by
  refine ⟨ht.wellFormed.set hk, ?_⟩
  have hnodup := ht.nodup
  rcases split_entries tag key with hne | ⟨before, e, after, hs, hne, he⟩
  · obtain ⟨gap, hset⟩ := entries_set_of_absent value hk ht.wellFormed hne
    have hnew : key ∉ (pairs tag).map Prod.fst := by
      intro hm
      obtain ⟨p, hp, hkey⟩ := List.mem_map.mp hm
      obtain ⟨x, hx, rfl⟩ := List.mem_map.mp hp
      exact hne x hx hkey
    have hkeys : (pairs (Tag.set tag key value)).map Prod.fst =
        ((pairs tag).map Prod.fst).concat key := by
      rw [pairs, hset, List.map_append, List.map_append, List.concat_eq_append]
      rfl
    rw [hkeys]
    exact hnodup.concat hnew
  · rw [pairs, hs] at hnodup
    rw [pairs, entries_set_of_split value hk hs hne he]
    simpa [Entry.pair, Entry.new, he] using hnodup

/-! ## Removing an entry -/

theorem remove_of_absent (hne : ∀ x ∈ (entries tag).1, x.key ≠ key) : remove tag key = tag := by
  rw [remove, find?_of_absent hne]

theorem others_of_absent (hne : ∀ x ∈ (entries tag).1, x.key ≠ key) : others tag key = pairs tag := by
  refine List.filter_eq_self.mpr fun p hp => ?_
  obtain ⟨x, hx, rfl⟩ := List.mem_map.mp hp
  exact bne_iff_ne.mpr (hne x hx)

theorem Tidy.ne_of_split (ht : Tidy tag) (hs : (entries tag).1 = before ++ e :: after) :
    (∀ x ∈ before, x.key ≠ e.key) ∧ ∀ x ∈ after, x.key ≠ e.key := by
  have hnodup := ht.nodup
  have hkeys : (pairs tag).map Prod.fst =
      before.map Entry.key ++ e.key :: after.map Entry.key := by
    rw [pairs, hs, List.map_map, List.map_append, List.map_cons]
    rfl
  rw [hkeys, List.nodup_append] at hnodup
  obtain ⟨-, hafter, hapart⟩ := hnodup
  refine ⟨fun x hx => ?_, fun x hx he => ?_⟩
  · exact hapart x.key (List.mem_map_of_mem hx) e.key List.mem_cons_self
  · exact (List.nodup_cons.mp hafter).1 (he ▸ List.mem_map_of_mem hx)

/-- All entries stay but the removed one, if its removal does not cut into the next key. -/
theorem pairs_remove (ht : Tidy tag) (hc : ¬ CutsInto tag key) :
    pairs (remove tag key) = others tag key ∧ WellFormed (remove tag key) := by
  rcases split_entries tag key with hne | ⟨before, e, after, hs, hne, he⟩
  · rw [remove_of_absent hne, others_of_absent hne]
    exact ⟨rfl, ht.wellFormed⟩
  · have hnext : ∀ x, after.head? = some x → Text.Starts x.key := by
      intro x hx
      obtain ⟨behind, rfl⟩ := List.head?_eq_some_iff.mp hx
      by_contra hstarts
      exact hc ⟨before, e, x, behind, hs, he, hstarts⟩
    obtain ⟨after', rest, hremove, hrest, hpairs⟩ :=
      entries_remove_of_split ht.wellFormed hs hne he hnext
    obtain ⟨hbefore, hafter⟩ := ht.ne_of_split hs
    have kept {es : List Entry} (hes : ∀ x ∈ es, x.key ≠ e.key) :
        (es.map Entry.pair).filter (fun p => p.1 != key) = es.map Entry.pair := by
      refine List.filter_eq_self.mpr fun p hp => ?_
      obtain ⟨x, hx, rfl⟩ := List.mem_map.mp hp
      exact bne_iff_ne.mpr (he ▸ hes x hx)
    rw [pairs, WellFormed, hremove, others_of_split hs he, kept hbefore, kept hafter,
      List.map_append, hpairs]
    exact ⟨rfl, hrest⟩

theorem trimStart_key (key behind : List Char) :
    Text.trimStart (key ++ ':' :: behind) = Text.trimStart key ++ ':' :: behind := by
  induction key with
  | nil => rfl
  | cons c key ih =>
    rw [List.cons_append, Text.trimStart, Text.trimStart, List.dropWhile_cons, List.dropWhile_cons]
    split
    · exact ih
    · rfl

/-- A key that is cut into is gone: what is left of it is another key, or no entry begins there. -/
theorem ne_of_cutsInto (ht : Tidy tag) (hs : (entries tag).1 = before ++ e :: x :: after)
    (hx : ¬ Text.Starts x.key) : ∀ y ∈ (entries (remove tag e.key)).1, y.key ≠ x.key := by
  obtain ⟨hwritten, hends, -⟩ := entries_spec tag
  rw [hs, List.forall_mem_append, List.forall_mem_cons, List.forall_mem_cons] at hwritten
  obtain ⟨hbefore, -, hxw, hafter⟩ := hwritten
  have hs' : (entries tag).1 = (before ++ [e]) ++ x :: after := by simpa using hs
  obtain ⟨hfront, hback⟩ := ht.ne_of_split hs'
  have hfront : ∀ y ∈ before, y.key ≠ x.key := fun y hy => hfront y (List.mem_append_left _ hy)
  obtain ⟨gap, hgap, hremove⟩ := remove_of_split hs (ht.ne_of_split hs).1 rfl
  obtain ⟨raw, htext, hraw⟩ := hxw.text
  have htail : Text.trimStart (spell (x :: after) ++ (entries tag).2) =
      Text.trimStart x.key ++ ':' :: '"' :: (raw ++ '"' :: (spell after ++ (entries tag).2)) := by
    have hsplit : spell (x :: after) ++ (entries tag).2 =
        x.gap ++ (x.key ++ ':' :: '"' :: (raw ++ '"' :: (spell after ++ (entries tag).2))) := by
      simp [spell, htext]
    rw [hsplit, Text.trimStart_append (isBlank_of_space hxw.gap), trimStart_key]
  rw [hremove, htail]
  -- without its blanks the key is empty, so that the scanner stops at the colon, or it is a shorter key
  by_cases hnil : Text.trimStart x.key = []
  · have hstop : Ends (gap ++ ':' :: '"' :: (raw ++ '"' :: (spell after ++ (entries tag).2))) := by
      have hpos : ∀ c ∈ gap, (c == ' ') = true := fun c hc => beq_iff_eq.mpr (hgap c hc)
      rw [Ends, List.dropWhile_append_of_pos hpos]
      rfl
    rw [hnil, List.nil_append, entries_spell hbefore hstop]
    exact hfront
  · let rest : Entry :=
      { gap, key := Text.trimStart x.key, value := x.value,
        text := Text.trimStart x.key ++ ':' :: '"' :: (raw ++ ['"']) }
    have hkey : IsKey rest.key :=
      ⟨hnil, fun c hc => hxw.key.2 c ((Text.suffix_trimStart x.key).subset hc)⟩
    have hrest : rest.Written := ⟨hgap, hkey, raw, rfl, hraw⟩
    have hspell : spell before ++ (gap ++ (Text.trimStart x.key ++ ':' :: '"' ::
        (raw ++ '"' :: (spell after ++ (entries tag).2)))) =
          spell (before ++ rest :: after) ++ (entries tag).2 := by
      simp [spell, rest]
    have hne : rest.key ≠ x.key := fun he => hx (he ▸ Text.trimStart_starts x.key)
    rw [hspell, entries_spell (List.forall_mem_append.mpr
      ⟨hbefore, List.forall_mem_cons.mpr ⟨hrest, hafter⟩⟩) hends]
    exact List.forall_mem_append.mpr ⟨hfront, List.forall_mem_cons.mpr ⟨hne, hback⟩⟩

theorem Tidy.remove (ht : Tidy tag) (hc : ¬ CutsInto tag key) : Tidy (remove tag key) := by
  obtain ⟨hpairs, hw⟩ := pairs_remove ht hc
  refine ⟨hw, ?_⟩
  rw [hpairs]
  exact ht.nodup.sublist (List.filter_sublist.map Prod.fst)

theorem lookup_remove (ht : Tidy tag) (hc : ¬ CutsInto tag key) : lookup (remove tag key) key = none := by
  rw [lookup_eq, (pairs_remove ht hc).1, List.lookup_eq_none_iff]
  intro p hp
  exact bne_iff_ne.mpr (bne_iff_ne.mp (List.mem_filter.mp hp).2).symm

theorem others_remove (ht : Tidy tag) (hc : ¬ CutsInto tag key) :
    others (remove tag key) key = others tag key := by
  rw [others, (pairs_remove ht hc).1, others, List.filter_filter]
  simp

/-! ## Edits -/

/-- Whatever is set under a key is found there, and nothing else changes in a tag of entries with keys
of their own. Removing a key changes nothing else exactly if it does not cut into the key behind it,
which it does if that key begins with a blank. -/
theorem edits_tidy (ht : Tidy tag) (hk : IsKey key) (value : List Char) :
    (lookup (set tag key value) key = some value ∧
      (∀ other, other ≠ key → lookup (set tag key value) other = lookup tag other) ∧
      others (set tag key value) key = others tag key ∧ Tidy (set tag key value)) ∧
    (¬ CutsInto tag key ↔ lookup (remove tag key) key = none ∧
      (∀ other, other ≠ key → lookup (remove tag key) other = lookup tag other) ∧
      others (remove tag key) key = others tag key ∧ Tidy (remove tag key)) := by
  have hset := others_set value hk ht.wellFormed
  refine ⟨⟨lookup_set hk ht.wellFormed, fun _ => lookup_congr hset, hset, ht.set value hk⟩, ?_⟩
  constructor
  · intro hc
    have hremove := others_remove ht hc
    exact ⟨lookup_remove ht hc, fun _ => lookup_congr hremove, hremove, ht.remove hc⟩
  · rintro ⟨-, hsame, -⟩ ⟨before, e, x, after, hs, rfl, hx⟩
    have hne : x.key ≠ e.key := (ht.ne_of_split hs).2 x List.mem_cons_self
    have hfound : lookup tag x.key = some x.value := by
      have hs' : (entries tag).1 = (before ++ [e]) ++ x :: after := by simpa using hs
      exact lookup_of_split hs' (ht.ne_of_split hs').1 rfl
    -- its value cannot be found any more, under whatever key it now stands
    have hlost : lookup (remove tag e.key) x.key = none := by
      rw [lookup, find?_of_absent (ne_of_cutsInto ht hs hx)]
      rfl
    rw [hsame x.key hne, hfound] at hlost
    cases hlost

/-- Entries with escaped characters and with spaces in any number, and a key that begins with a blank. -/
def spaced : List Char :=
  "json:\"a,b\"  xml:\"q\\\"\\\\\" \u00a0c:\"d\" ".toList

theorem entries_spaced : entries spaced =
    ([⟨[], "json".toList, "a,b".toList, "json:\"a,b\"".toList⟩,
      ⟨"  ".toList, "xml".toList, "q\"\\".toList, "xml:\"q\\\"\\\\\"".toList⟩,
      ⟨" ".toList, "\u00a0c".toList, "d".toList, "\u00a0c:\"d\"".toList⟩], " ".toList) := by
  cbv

theorem tidy_spaced : Tidy spaced := by
  constructor
  · rw [WellFormed, entries_spaced]
    exact List.forall_mem_singleton.mpr rfl
  · rw [pairs, entries_spaced]
    simp [Entry.pair]

theorem edits_tidy_spaced : Tidy spaced ∧ IsKey "json".toList ∧ ¬ CutsInto spaced "json".toList ∧
    lookup (set spaced "json".toList "\"\\\n".toList) "json".toList = some "\"\\\n".toList ∧
    lookup (remove spaced "json".toList) "json".toList = none ∧
    (∀ other, other ≠ "json".toList →
      lookup (remove spaced "json".toList) other = lookup spaced other) ∧
    Tidy (remove spaced "json".toList) := by
  have hk : IsKey "json".toList := ⟨by decide, List.all_eq_true.mp rfl⟩
  have hc : ¬ CutsInto spaced "json".toList := by
    rintro ⟨before, e, x, after, hs, he, hx⟩
    rw [entries_spaced] at hs
    cases before with
    | nil =>
      cases hs
      refine hx fun c hc => ?_
      cases hc
      rfl
    | cons b before =>
      have hmem : e ∈ before ++ e :: x :: after := List.mem_append_right _ List.mem_cons_self
      rw [List.cons_append] at hs
      rw [← (List.cons.inj hs).2] at hmem
      rcases List.mem_cons.mp hmem with rfl | hmem
      · exact absurd he (by decide)
      · rw [List.mem_singleton.mp hmem] at he
        exact absurd he (by decide)
  obtain ⟨⟨hset, -⟩, hremove⟩ := edits_tidy tidy_spaced hk "\"\\\n".toList
  obtain ⟨hnone, hsame, -, htidy⟩ := hremove.mp hc
  exact ⟨tidy_spaced, hk, hc, hset, hnone, hsame, htidy⟩

/-- A key that begins with a blank that is no space. -/
def blankKey : List Char :=
  "\u00a0b".toList

def blanked : List Char :=
  "a:\"1\" \u00a0b:\"2\"".toList

theorem remove_cuts : Tidy blanked ∧ IsKey "a".toList ∧ blankKey ≠ "a".toList ∧
    lookup blanked blankKey = some "2".toList ∧ remove blanked "a".toList = "b:\"2\"".toList ∧
    lookup (remove blanked "a".toList) blankKey = none := by
  have hentries : entries blanked = ([⟨[], "a".toList, "1".toList, "a:\"1\"".toList⟩,
      ⟨" ".toList, blankKey, "2".toList, "\u00a0b:\"2\"".toList⟩], []) := by
    cbv
  have ht : Tidy blanked := by
    constructor
    · rw [WellFormed, hentries]
      exact List.forall_mem_nil _
    · rw [pairs, hentries]
      simp [Entry.pair, blankKey]
  refine ⟨ht, ⟨by decide, List.all_eq_true.mp rfl⟩, by decide, ?_, ?_, ?_⟩
  all_goals cbv

end StructLayout.Tag
