import StructLayout.Proofs.Text.Pieces
import StructLayout.Tag.Annotation

/-!
Tags as sequences of entries. An entry is read as it is written, whatever stands behind it, so an edit
of a tag is one of its entries: a value that has been set is found again, and a tag that holds nothing
but entries and spaces stays one.
-/

namespace StructLayout.Tag

/-! ## What is read is what is written -/

theorem readValue_append {cs value rest : List Char} (h : readValue cs = some (value, rest)) :
    ∃ raw, cs = raw ++ '"' :: rest ∧ ∀ tail, readValue (raw ++ '"' :: tail) = some (value, tail) := by
  fun_induction readValue cs generalizing value with
  | case1 => cases h
  | case2 =>
    cases h
    exact ⟨[], rfl, fun _ => rfl⟩
  | case3 => cases h
  | case4 c cs ih =>
    obtain ⟨r, hr, he⟩ := Option.map_eq_some_iff.mp h
    cases he
    obtain ⟨raw, rfl, hraw⟩ := ih hr
    exact ⟨'\\' :: c :: raw, rfl, fun tail => by simp [readValue, hraw]⟩
  | case5 c cs hquote hlone hescape ih =>
    obtain ⟨r, hr, he⟩ := Option.map_eq_some_iff.mp h
    cases he
    obtain ⟨raw, rfl, hraw⟩ := ih hr
    refine ⟨c :: raw, rfl, fun tail => ?_⟩
    have hslash : c ≠ '\\' := by
      rintro rfl
      cases raw with
      | nil => exact hescape _ _ rfl rfl
      | cons d raw => exact hescape _ _ rfl rfl
    rw [List.cons_append, readValue, hraw]
    · rfl
    · exact hquote
    · exact fun he _ => hslash he
    · exact fun _ _ he _ => hslash he

/-- What a key is made of. -/
def IsKey (key : List Char) : Prop :=
  key ≠ [] ∧ ∀ c ∈ key, isKeyChar c = true

theorem readEntry_of {key raw value tail : List Char} (hk : IsKey key)
    (h : readValue raw = some (value, tail)) :
    readEntry (key ++ ':' :: '"' :: raw) = some (key, value, tail) := by
  have ht : (key ++ ':' :: '"' :: raw).takeWhile isKeyChar = key := by
    rw [List.takeWhile_append_of_pos hk.2, List.takeWhile_cons_of_neg (by decide), List.append_nil]
  have hd : (key ++ ':' :: '"' :: raw).dropWhile isKeyChar = ':' :: '"' :: raw := by
    rw [List.dropWhile_append_of_pos hk.2, List.dropWhile_cons_of_neg (by decide)]
  rw [readEntry, ht, hd]
  simp [hk.1, h]

theorem readEntry_eq_some {cs key value rest : List Char}
    (h : readEntry cs = some (key, value, rest)) :
    IsKey key ∧ ∃ raw, cs = key ++ ':' :: '"' :: (raw ++ '"' :: rest) ∧
      ∀ tail, readValue (raw ++ '"' :: tail) = some (value, tail) := by
  have hsplit := List.takeWhile_append_dropWhile (p := isKeyChar) (l := cs)
  unfold readEntry at h
  dsimp only at h
  split at h
  · rename_i behind hd
    split at h
    · cases h
    · rename_i hne
      obtain ⟨r, hr, he⟩ := Option.map_eq_some_iff.mp h
      cases he
      obtain ⟨raw, rfl, hraw⟩ := readValue_append hr
      rw [hd] at hsplit
      refine ⟨⟨by simpa using hne, ?_⟩, raw, hsplit.symm, hraw⟩
      exact List.all_eq_true.mp List.all_takeWhile
  · cases h

/-- An entry of a tag: spaces, a key, and a value that ends where it is written to end. -/
structure Entry.Written (e : Entry) : Prop where
  gap : ∀ c ∈ e.gap, c = ' '
  key : IsKey e.key
  text : ∃ raw, e.text = e.key ++ ':' :: '"' :: (raw ++ ['"']) ∧
    ∀ tail, readValue (raw ++ '"' :: tail) = some (e.value, tail)

namespace Entry.Written

variable {e : Entry}

theorem read (h : e.Written) (tail : List Char) :
    readEntry (e.text ++ tail) = some (e.key, e.value, tail) := by
  obtain ⟨raw, ht, hr⟩ := h.text
  rw [ht]
  simpa using readEntry_of h.key (hr tail)

theorem not_space (h : e.Written) (tail : List Char) :
    (e.text ++ tail).dropWhile (· == ' ') = e.text ++ tail := by
  obtain ⟨raw, ht, -⟩ := h.text
  obtain ⟨hne, hall⟩ := h.key
  rw [ht]
  cases hk : e.key with
  | nil => exact absurd hk hne
  | cons c key =>
    have hc := hall c (hk ▸ List.mem_cons_self)
    refine List.dropWhile_cons_of_neg fun hs => ?_
    rw [beq_iff_eq.mp hs] at hc
    cases hc

theorem stops (h : e.Written) : Text.Stops e.text := by
  obtain ⟨raw, ht, -⟩ := h.text
  rw [ht]
  simpa using Text.stops_snoc (e.key ++ ':' :: '"' :: raw) (c := '"') rfl

theorem starts (h : e.Written) (hk : Text.Starts e.key) : Text.Starts e.text := by
  obtain ⟨raw, ht, -⟩ := h.text
  rw [ht]
  exact hk.append h.key.1 _

theorem regap {gap : List Char} (h : e.Written) (hg : ∀ c ∈ gap, c = ' ') :
    ({ e with gap } : Entry).Written :=
  ⟨hg, h.key, h.text⟩

theorem mem_text (h : e.Written) : '"' ∈ e.text := by
  obtain ⟨raw, ht, -⟩ := h.text
  simp [ht]

end Entry.Written

/-- An entry with a value that is about to be set. -/
def Entry.new (gap key value : List Char) : Entry :=
  { gap, key, value, text := key ++ ':' :: quote value }

theorem Entry.written_new {gap key value : List Char} (hg : ∀ c ∈ gap, c = ' ') (hk : IsKey key) :
    (Entry.new gap key value).Written :=
  ⟨hg, hk, value.flatMap escape, rfl, readValue_quote value⟩

/-! ## Tags and their entries -/

/-- No entry begins here. -/
def Ends (rest : List Char) : Prop :=
  readEntry (rest.dropWhile (· == ' ')) = none

theorem ends_spaces {rest : List Char} (h : ∀ c ∈ rest, c = ' ') : Ends rest := by
  have hd : rest.dropWhile (· == ' ') = [] :=
    List.dropWhile_eq_nil_iff.mpr fun c hc => beq_iff_eq.mpr (h c hc)
  rw [Ends, hd]
  rfl

theorem entries_spell {es : List Entry} {rest : List Char} (h : ∀ e ∈ es, e.Written)
    (hr : Ends rest) : entries (spell es ++ rest) = (es, rest) := by
  induction es with
  | nil =>
    rw [spell, List.flatMap_nil, List.nil_append, entries]
    split
    · rfl
    · rename_i hs
      rw [hr] at hs
      cases hs
  | cons e es ih =>
    obtain ⟨he, hes⟩ := List.forall_mem_cons.mp h
    have hg : ∀ c ∈ e.gap, (c == ' ') = true := fun c hc => beq_iff_eq.mpr (he.gap c hc)
    have hs : spell (e :: es) ++ rest = e.gap ++ (e.text ++ (spell es ++ rest)) := by
      simp [spell]
    have hd : (spell (e :: es) ++ rest).dropWhile (· == ' ') = e.text ++ (spell es ++ rest) := by
      rw [hs, List.dropWhile_append_of_pos hg, he.not_space]
    have ht : (spell (e :: es) ++ rest).takeWhile (· == ' ') = e.gap := by
      have hnil : (e.text ++ (spell es ++ rest)).takeWhile (· == ' ') = [] := by
        have := List.takeWhile_append_dropWhile (p := (· == ' ')) (l := e.text ++ (spell es ++ rest))
        rw [he.not_space] at this
        exact List.append_left_eq_self.mp this
      rw [hs, List.takeWhile_append_of_pos hg, hnil, List.append_nil]
    rw [entries]
    split
    · rename_i hnone
      rw [hd, he.read] at hnone
      cases hnone
    · rename_i hsome
      rw [hd, he.read] at hsome
      cases hsome
      simp [ih hes, hd, ht]

/-- A tag is made of its entries and of what is left. -/
theorem entries_spec (tag : List Char) :
    (∀ e ∈ (entries tag).1, e.Written) ∧ Ends (entries tag).2 ∧
      spell (entries tag).1 ++ (entries tag).2 = tag := by
  fun_induction entries tag with
  | case1 cs hnone => exact ⟨List.forall_mem_nil _, hnone, rfl⟩
  | case2 cs key value rest hread body more entry ih =>
    obtain ⟨hwritten, hends, hspell⟩ := ih
    obtain ⟨hkey, raw, hbody, hraw⟩ := readEntry_eq_some hread
    have htext : entry.text = key ++ ':' :: '"' :: (raw ++ ['"']) := by
      have hb : body = (key ++ ':' :: '"' :: (raw ++ ['"'])) ++ rest := by simpa using hbody
      show body.take (body.length - rest.length) = _
      rw [hb, List.length_append, Nat.add_sub_cancel, List.take_left]
    have hgap : ∀ c ∈ entry.gap, c = ' ' := fun c hc =>
      beq_iff_eq.mp (List.all_eq_true.mp List.all_takeWhile c hc)
    refine ⟨List.forall_mem_cons.mpr ⟨⟨hgap, hkey, raw, htext, hraw⟩, hwritten⟩, hends, ?_⟩
    have hcs := List.takeWhile_append_dropWhile (p := (· == ' ')) (l := cs)
    rw [hbody] at hcs
    rw [← hcs, spell, List.flatMap_cons, htext]
    conv => rhs; rw [← hspell]
    simp [spell, entry, more]

variable {tag key value : List Char} {before after : List Entry} {e : Entry}

theorem find?_of_split (hs : (entries tag).1 = before ++ e :: after)
    (hne : ∀ x ∈ before, x.key ≠ key) (he : e.key = key) :
    find? tag key = some ⟨spell before ++ e.gap, e.value, spell after ++ (entries tag).2⟩ := by
  have hpos : ∀ x ∈ before, (x.key != key) = true := fun x hx => bne_iff_ne.mpr (hne x hx)
  have hneg : ¬(e.key != key) = true := by simp [he]
  have hdrop : (entries tag).1.dropWhile (fun x => x.key != key) = e :: after := by
    rw [hs, List.dropWhile_append_of_pos hpos]
    exact List.dropWhile_cons_of_neg hneg
  have htake : (entries tag).1.takeWhile (fun x => x.key != key) = before := by
    rw [hs, List.takeWhile_append_of_pos hpos]
    exact (congrArg (before ++ ·) (List.takeWhile_cons_of_neg hneg)).trans (List.append_nil _)
  unfold find?
  dsimp only
  rw [hdrop, htake]

theorem find?_of_absent (hne : ∀ x ∈ (entries tag).1, x.key ≠ key) : find? tag key = none := by
  have hd : (entries tag).1.dropWhile (fun x => x.key != key) = [] :=
    List.dropWhile_eq_nil_iff.mpr fun x hx => bne_iff_ne.mpr (hne x hx)
  unfold find?
  dsimp only
  rw [hd]

/-- A key is in no entry, or one entry is the first that has it. -/
theorem split_entries (tag key : List Char) : (∀ x ∈ (entries tag).1, x.key ≠ key) ∨
    ∃ before e after, (entries tag).1 = before ++ e :: after ∧ (∀ x ∈ before, x.key ≠ key) ∧
      e.key = key := by
  cases hf : (entries tag).1.find? (fun x => x.key == key) with
  | none => exact .inl fun x hx => by simpa using List.find?_eq_none.mp hf x hx
  | some e =>
    obtain ⟨he, before, after, hs, hne⟩ := List.find?_eq_some_iff_append.mp hf
    exact .inr ⟨before, e, after, hs, fun x hx => by simpa using hne x hx, beq_iff_eq.mp he⟩

theorem lookup_of_split (hs : (entries tag).1 = before ++ e :: after)
    (hne : ∀ x ∈ before, x.key ≠ key) (he : e.key = key) : lookup tag key = some e.value := by
  rw [lookup, find?_of_split hs hne he]
  rfl

/-! ## Tags without anything else -/

/-- Nothing but spaces stands behind the entries. -/
def WellFormed (tag : List Char) : Prop :=
  ∀ c ∈ (entries tag).2, c = ' '

/-- No key begins with a blank. Edits trim the text around an entry, and would cut into such keys. -/
def KeysShown (tag : List Char) : Prop :=
  ∀ e ∈ (entries tag).1, Text.Starts e.key

theorem entries_nil : entries [] = ([], []) :=
  entries_spell (List.forall_mem_nil _) (ends_spaces (List.forall_mem_nil _))

theorem wellFormed_nil : WellFormed [] := by
  rw [WellFormed, entries_nil]
  exact List.forall_mem_nil _

theorem keysShown_nil : KeysShown [] := by
  rw [KeysShown, entries_nil]
  exact List.forall_mem_nil _

theorem isBlank_of_space {cs : List Char} (h : ∀ c ∈ cs, c = ' ') :
    ∀ c ∈ cs, Text.isBlank c = true := by
  intro c hc
  rw [h c hc]
  rfl

theorem spell_append (xs ys : List Entry) : spell (xs ++ ys) = spell xs ++ spell ys :=
  List.flatMap_append

theorem stops_spell {es : List Entry} (h : ∀ e ∈ es, e.Written) : Text.Stops (spell es) := by
  rcases List.eq_nil_or_concat es with rfl | ⟨es, e, rfl⟩
  · intro c hc
    cases hc
  · rw [List.concat_eq_append] at h ⊢
    have he := h e (List.mem_append_right _ List.mem_cons_self)
    rw [spell_append, spell, spell, List.flatMap_cons, List.flatMap_nil, List.append_nil,
      ← List.append_assoc]
    exact he.stops.append (List.ne_nil_of_mem he.mem_text) _

/-! ## Setting a value -/

variable (value) in
theorem entries_set_of_split (hk : IsKey key) (hs : (entries tag).1 = before ++ e :: after)
    (hne : ∀ x ∈ before, x.key ≠ key) (he : e.key = key) :
    entries (set tag key value) = (before ++ .new e.gap key value :: after, (entries tag).2) := by
  obtain ⟨hw, hends, -⟩ := entries_spec tag
  rw [hs, List.forall_mem_append, List.forall_mem_cons] at hw
  have hset : set tag key value =
      spell (before ++ .new e.gap key value :: after) ++ (entries tag).2 := by
    rw [set, find?_of_split hs hne he]
    simp [spell, Entry.new]
  rw [hset]
  refine entries_spell ?_ hends
  rw [List.forall_mem_append, List.forall_mem_cons]
  exact ⟨hw.1, Entry.written_new hw.2.1.gap hk, hw.2.2⟩

variable (value) in
/-- A new entry stands alone, or one space behind the others, if nothing else than blanks is left. -/
theorem entries_set_of_blank (hk : IsKey key)
    (hblank : ∀ c ∈ (entries tag).2, Text.isBlank c = true)
    (hne : ∀ x ∈ (entries tag).1, x.key ≠ key) :
    ∃ gap, entries (set tag key value) = ((entries tag).1 ++ [.new gap key value], []) := by
  obtain ⟨hwritten, -, hspell⟩ := entries_spec tag
  have hset : ∃ gap, (∀ c ∈ gap, c = ' ') ∧
      set tag key value = spell ((entries tag).1 ++ [.new gap key value]) := by
    rw [set, find?_of_absent hne]
    cases hes : (entries tag).1 with
    | nil =>
      rw [hes, spell, List.flatMap_nil, List.nil_append] at hspell
      have htrim : Text.trim tag = [] := by
        rw [Text.trim, Text.trimStart, ← hspell, List.dropWhile_eq_nil_iff.mpr hblank]
        rfl
      exact ⟨[], List.forall_mem_nil _, by simp [htrim, spell, Entry.new]⟩
    | cons e es =>
      rw [hes] at hwritten hspell
      have hstops := stops_spell hwritten
      have hcut : Text.trimEnd tag = spell (e :: es) := by
        rw [← hspell, Text.trimEnd_append hblank, Text.trimEnd_eq_self hstops]
      have hquote : '"' ∈ tag := by
        rw [← hspell]
        exact List.mem_append_left _ (List.mem_append_left _
          (List.mem_append_right _ (hwritten e List.mem_cons_self).mem_text))
      have htrim : Text.trim tag ≠ [] := Text.trim_ne_nil hquote rfl
      exact ⟨[' '], List.forall_mem_singleton.mpr rfl,
        by simp [htrim, hcut, spell, Entry.new]⟩
  obtain ⟨gap, hgap, hset⟩ := hset
  refine ⟨gap, ?_⟩
  rw [hset, ← List.append_nil (spell _)]
  refine entries_spell ?_ (ends_spaces (List.forall_mem_nil _))
  rw [List.forall_mem_append, List.forall_mem_singleton]
  exact ⟨hwritten, Entry.written_new hgap hk⟩

variable (value) in
theorem entries_set_of_absent (hk : IsKey key) (hw : WellFormed tag)
    (hne : ∀ x ∈ (entries tag).1, x.key ≠ key) :
    ∃ gap, entries (set tag key value) = ((entries tag).1 ++ [.new gap key value], []) :=
  entries_set_of_blank value hk (isBlank_of_space hw) hne

theorem lookup_set (hk : IsKey key) (hw : WellFormed tag) : lookup (set tag key value) key = some value := by
  rcases split_entries tag key with hne | ⟨before, e, after, hs, hne, he⟩
  · obtain ⟨gap, hset⟩ := entries_set_of_absent value hk hw hne
    exact lookup_of_split (e := .new gap key value) (by rw [hset]) hne rfl
  · have hset := entries_set_of_split value hk hs hne he
    exact lookup_of_split (e := .new e.gap key value) (by rw [hset]) hne rfl

theorem WellFormed.set (hk : IsKey key) (hw : WellFormed tag) : WellFormed (set tag key value) := by
  rcases split_entries tag key with hne | ⟨before, e, after, hs, hne, he⟩
  · obtain ⟨gap, hset⟩ := entries_set_of_absent value hk hw hne
    rw [WellFormed, hset]
    exact List.forall_mem_nil _
  · rw [WellFormed, entries_set_of_split _ hk hs hne he]
    exact hw

theorem KeysShown.set (hk : IsKey key) (hb : Text.Starts key) (hw : WellFormed tag)
    (h : KeysShown tag) : KeysShown (set tag key value) := by
  rcases split_entries tag key with hne | ⟨before, e, after, hs, hne, he⟩
  · obtain ⟨gap, hset⟩ := entries_set_of_absent value hk hw hne
    rw [KeysShown, hset, List.forall_mem_append, List.forall_mem_singleton]
    exact ⟨h, hb⟩
  · rw [KeysShown, hs, List.forall_mem_append, List.forall_mem_cons] at h
    rw [KeysShown, entries_set_of_split _ hk hs hne he, List.forall_mem_append, List.forall_mem_cons]
    exact ⟨h.1, hb, h.2.2⟩

/-! ## Removing an entry -/

/-- What an entry says. -/
def Entry.pair (e : Entry) : List Char × List Char :=
  (e.key, e.value)

/-- What stands behind a removed entry is put behind what stands in front of it, without the blanks at
its start. -/
theorem remove_of_split (hs : (entries tag).1 = before ++ e :: after)
    (hne : ∀ x ∈ before, x.key ≠ key) (he : e.key = key) :
    ∃ gap, (∀ c ∈ gap, c = ' ') ∧ remove tag key =
      spell before ++ (gap ++ Text.trimStart (spell after ++ (entries tag).2)) := by
  have hwritten := (entries_spec tag).1
  rw [hs, List.forall_mem_append, List.forall_mem_cons] at hwritten
  obtain ⟨hbefore, hgap, -⟩ := hwritten
  have hhead : Text.trimEnd (spell before ++ e.gap) = spell before := by
    rw [Text.trimEnd_append (isBlank_of_space hgap.gap), Text.trimEnd_eq_self (stops_spell hbefore)]
  rw [remove, find?_of_split hs hne he]
  dsimp only
  rw [hhead]
  split
  · rename_i hnil
    exact ⟨[], List.forall_mem_nil _, by rw [List.isEmpty_iff.mp hnil]; rfl⟩
  split
  · rename_i hnil
    exact ⟨[], List.forall_mem_nil _, by rw [List.isEmpty_iff.mp hnil, List.append_nil, List.append_nil]⟩
  · exact ⟨[' '], List.forall_mem_singleton.mpr rfl, rfl⟩

/-- The entries behind a removed one stay, and only the spaces in front of the next one change, if its
key does not begin with a blank. -/
theorem entries_remove_of_split (hw : WellFormed tag)
    (hs : (entries tag).1 = before ++ e :: after) (hne : ∀ x ∈ before, x.key ≠ key)
    (he : e.key = key) (hb : ∀ x, after.head? = some x → Text.Starts x.key) :
    ∃ after' rest, entries (remove tag key) = (before ++ after', rest) ∧ (∀ c ∈ rest, c = ' ') ∧
      after'.map Entry.pair = after.map Entry.pair := by
  obtain ⟨hwritten, hends, -⟩ := entries_spec tag
  rw [hs, List.forall_mem_append, List.forall_mem_cons] at hwritten
  obtain ⟨hbefore, -, hafter⟩ := hwritten
  obtain ⟨gap, hgap, hremove⟩ := remove_of_split hs hne he
  cases after with
  | nil =>
    have htail : Text.trimStart (spell [] ++ (entries tag).2) = [] :=
      List.dropWhile_eq_nil_iff.mpr (isBlank_of_space hw)
    rw [hremove, htail, List.append_nil, entries_spell hbefore (ends_spaces hgap)]
    exact ⟨[], gap, by rw [List.append_nil], hgap, rfl⟩
  | cons x xs =>
    obtain ⟨hx, hxs⟩ := List.forall_mem_cons.mp hafter
    have htail : Text.trimStart (spell (x :: xs) ++ (entries tag).2) =
        x.text ++ (spell xs ++ (entries tag).2) := by
      have hsplit : spell (x :: xs) ++ (entries tag).2 =
          x.gap ++ (x.text ++ (spell xs ++ (entries tag).2)) := by simp [spell]
      have hstarts := (hx.starts (hb x rfl)).append (List.ne_nil_of_mem hx.mem_text)
      rw [hsplit, Text.trimStart_append (isBlank_of_space hx.gap), Text.trimStart_eq_self (hstarts _)]
    have hspell : remove tag key =
        spell (before ++ { x with gap } :: xs) ++ (entries tag).2 := by
      rw [hremove, htail]
      simp [spell]
    refine ⟨{ x with gap } :: xs, (entries tag).2, ?_, hw, rfl⟩
    rw [hspell]
    exact entries_spell (List.forall_mem_append.mpr
      ⟨hbefore, List.forall_mem_cons.mpr ⟨hx.regap hgap, hxs⟩⟩) hends

theorem WellFormed.remove (hb : KeysShown tag) (hw : WellFormed tag) :
    WellFormed (remove tag key) ∧ KeysShown (remove tag key) := by
  rcases split_entries tag key with hne | ⟨before, e, after, hs, hne, he⟩
  · have hsame : Tag.remove tag key = tag := by rw [Tag.remove, find?_of_absent hne]
    rw [hsame]
    exact ⟨hw, hb⟩
  · rw [KeysShown, hs] at hb
    have hbehind : ∀ x ∈ after, Text.Starts x.key := fun x hx =>
      hb x (List.mem_append_right _ (List.mem_cons_of_mem _ hx))
    obtain ⟨after', rest, hremove, hrest, hpairs⟩ := entries_remove_of_split hw hs hne he
      fun x hx => hbehind x (List.mem_of_mem_head? hx)
    rw [WellFormed, KeysShown, hremove]
    refine ⟨hrest, fun x hx => ?_⟩
    rcases List.mem_append.mp hx with hx | hx
    · exact hb x (List.mem_append_left _ hx)
    · obtain ⟨y, hy, hxy⟩ := List.mem_map.mp (hpairs ▸ List.mem_map_of_mem hx)
      have hkey : y.key = x.key := congrArg Prod.fst hxy
      exact hkey ▸ hbehind y hy

end StructLayout.Tag
