import StructLayout.Proofs.Sequence
import StructLayout.Proofs.Text.Pieces
import StructLayout.Tag.Annotation

/-!
Annotations as they are written. What has been read is legible: its group has no semicolon, and its
list holds at least one name, all of them without separators and blanks around them. A legible
annotation is read back, unless it is a lone dash, which says that there is none.
-/

namespace StructLayout.Annotation

/-- A name that a list of strategies can hold. -/
structure Listable (name : List Char) : Prop where
  ne_nil : name ≠ []
  starts : Text.Starts name
  stops : Text.Stops name
  comma : ',' ∉ name
  semicolon : ';' ∉ name

/-- An annotation whose parts can be told from one another where it is written. -/
structure Legible (a : Annotation) : Prop where
  group : ∀ name, a.group = some name → name.toList ≠ [] ∧ ';' ∉ name.toList
  nonempty : a.strategies ≠ []
  listable : ∀ name ∈ a.strategies, Listable name.toList

/-- The list of strategies as it is written. -/
def listed (names : List String) : List Char :=
  [','].intercalate (names.map String.toList)

variable {a : Annotation} {names : List String} {value cs : List Char}

theorem toList_render (a : Annotation) : a.render.toList =
    (a.group.elim [] fun name => anchor ++ name.toList ++ [';']) ++ listed a.strategies := by
  cases hg : a.group <;> simp [render, hg, listed, anchor, String.toList_intercalate]

theorem trimSemicolons_eq_self (hs : ∀ c, cs.head? = some c → c ≠ ';')
    (he : ∀ c, cs.getLast? = some c → c ≠ ';') : trimSemicolons cs = cs := by
  rw [trimSemicolons, Text.dropWhile_eq_self fun c hc => beq_eq_false_iff_ne.mpr (hs c hc)]
  exact Text.dropWhile_reverse_eq_self fun c hc => beq_eq_false_iff_ne.mpr (he c hc)

/-! ## Lists of names -/

section

variable (hne : names ≠ []) (hall : ∀ name ∈ names, Listable name.toList)

include hall

theorem semicolon_not_mem_listed : ';' ∉ listed names := by
  intro h
  rcases Text.mem_intercalate h with h | ⟨piece, hp, h⟩
  · cases h
  · obtain ⟨name, hn, rfl⟩ := List.mem_map.mp hp
    exact (hall name hn).semicolon h

include hne

theorem ends_listed : listed names ≠ [] ∧ Text.Starts (listed names) ∧ Text.Stops (listed names) := by
  refine Text.ends_intercalate _ (by simpa using hne) fun piece hp => ?_
  obtain ⟨name, hn, rfl⟩ := List.mem_map.mp hp
  exact ⟨(hall name hn).ne_nil, (hall name hn).starts, (hall name hn).stops⟩

theorem parseList_listed : parseList (listed names) = names := by
  have hsplit : Text.split (· == ',') (listed names) = names.map String.toList := by
    refine Text.split_intercalate (by simpa using hne) rfl fun piece hp c hc => ?_
    obtain ⟨name, hn, rfl⟩ := List.mem_map.mp hp
    rw [beq_eq_false_iff_ne]
    rintro rfl
    exact (hall name hn).comma hc
  have htrim : (names.map String.toList).map Text.trim = names.map String.toList := by
    rw [List.map_map]
    refine List.map_congr_left fun name hn => ?_
    exact Text.trim_eq_self (hall name hn).starts (hall name hn).stops
  have hfilter : (names.map String.toList).filter (fun s => !s.isEmpty) = names.map String.toList := by
    refine List.filter_eq_self.mpr fun piece hp => ?_
    obtain ⟨name, hn, rfl⟩ := List.mem_map.mp hp
    simp [(hall name hn).ne_nil]
  rw [parseList, hsplit, htrim, hfilter, List.map_map]
  simp [Function.comp_def]

theorem ofList_listed (group : Option String) :
    ofList group (listed names) = .ok ⟨group, names⟩ := by
  rw [ofList, parseList_listed hne hall]
  simp [hne]

/-- A list is a lone dash only if its one name is. -/
theorem listed_ne_dash (hd : names ≠ ["-"]) : listed names ≠ ['-'] := by
  intro h
  have := parseList_listed hne hall
  rw [h] at this
  exact hd this.symm

end

/-! ## Annotations -/

theorem Legible.parse_render (h : a.Legible) (hd : a ≠ ⟨none, ["-"]⟩) :
    parse a.render.toList = .ok (some a) := by
  obtain ⟨hgroup, hne, hall⟩ := h
  obtain ⟨hlist, hstarts, hstops⟩ := ends_listed hne hall
  have hsemi := semicolon_not_mem_listed hall
  obtain ⟨group, names⟩ := a
  cases group with
  | none =>
    have hr : (⟨none, names⟩ : Annotation).render.toList = listed names := toList_render _
    have hdash : listed names ≠ ['-'] := listed_ne_dash hne hall fun he => hd (he ▸ rfl)
    have hends : trimSemicolons (listed names) = listed names := by
      refine trimSemicolons_eq_self (fun c hc he => ?_) fun c hc he => ?_
      · exact hsemi (he ▸ List.mem_of_head? hc)
      · exact hsemi (he ▸ List.mem_of_getLast? hc)
    have hsplit : Text.split (· == ';') (listed names) = [listed names] := by
      refine Text.split_of_forall fun c hc => beq_eq_false_iff_ne.mpr ?_
      rintro rfl
      exact hsemi hc
    rw [hr, parse]
    simp only [Text.trim_eq_self hstarts hstops, hdash, if_false, hends, hsplit,
      ofList_listed hne hall]
    rfl
  | some name =>
    obtain ⟨hname, hclean⟩ := hgroup name rfl
    have hr : (⟨some name, names⟩ : Annotation).render.toList =
        anchor ++ name.toList ++ ';' :: listed names := by
      rw [toList_render, Option.elim_some, List.append_assoc, List.singleton_append]
    have hlast : ∀ c, (anchor ++ name.toList ++ ';' :: listed names).getLast? = some c →
        (listed names).getLast? = some c := by
      intro c hc
      rwa [← List.singleton_append, ← List.append_assoc,
        List.getLast?_append_of_ne_nil _ hlist] at hc
    have htrim := @Text.trim_eq_self (anchor ++ name.toList ++ ';' :: listed names)
      (fun c hc => by cases hc; rfl) fun c hc => hstops c (hlast c hc)
    have hdash : anchor ++ name.toList ++ ';' :: listed names ≠ ['-'] := by
      intro he
      cases (List.cons.inj he).1
    have hends := @trimSemicolons_eq_self (anchor ++ name.toList ++ ';' :: listed names)
      (fun c hc he => by cases hc; cases he)
      fun c hc he => hsemi (he ▸ List.mem_of_getLast? (hlast c hc))
    have hsplit : Text.split (· == ';') (anchor ++ name.toList ++ ';' :: listed names) =
        [anchor ++ name.toList, listed names] := by
      rw [Text.split_append_cons ?_ rfl, Text.split_of_forall ?_]
      · intro c hc
        exact beq_eq_false_iff_ne.mpr fun he => hsemi (he ▸ hc)
      · intro c hc
        refine beq_eq_false_iff_ne.mpr fun he => ?_
        rcases List.mem_append.mp hc with hc | hc
        · exact absurd (he ▸ hc) (by decide)
        · exact hclean (he ▸ hc)
    have hparse : parseGroup (anchor ++ name.toList) = .ok name := by
      simp [parseGroup, hname]
    rw [hr, parse]
    simp only [htrim, hdash, if_false, hends, hsplit, hparse]
    exact congrArg (Except.map some) (ofList_listed hne hall (some name))

theorem listable_of_mem_parseList (hcs : ';' ∉ cs) {name : String} (h : name ∈ parseList cs) :
    Listable name.toList := by
  obtain ⟨trimmed, ht, rfl⟩ := List.mem_map.mp h
  obtain ⟨ht, hne⟩ := List.mem_filter.mp ht
  obtain ⟨piece, hp, rfl⟩ := List.mem_map.mp ht
  obtain ⟨hsub, hcomma⟩ := Text.mem_of_mem_split hp
  rw [String.toList_ofList]
  refine ⟨by simpa using hne, Text.trim_starts _, Text.trim_stops _, fun hc => ?_, fun hc => ?_⟩
  · exact beq_eq_false_iff_ne.mp (hcomma _ (Text.trim_sub _ hc)) rfl
  · exact hcs (hsub (Text.trim_sub _ hc))

theorem ofList_eq_ok {group : Option String} :
    ofList group cs = .ok a ↔ parseList cs ≠ [] ∧ a = ⟨group, parseList cs⟩ := by
  unfold ofList
  dsimp only
  split
  · rename_i hnil
    exact iff_of_false (by simp) fun h => h.1 (List.isEmpty_iff.mp hnil)
  · rename_i hne
    constructor
    · intro h
      cases h
      exact ⟨fun hnil => hne (List.isEmpty_iff.mpr hnil), rfl⟩
    · rintro ⟨-, rfl⟩
      rfl

theorem parseGroup_eq_ok {name : String} (h : parseGroup cs = .ok name) :
    name.toList ≠ [] ∧ cs = anchor ++ name.toList := by
  unfold parseGroup at h
  dsimp only at h
  split at h
  · rename_i hp
    obtain ⟨rest, rfl⟩ := List.isPrefixOf_iff_prefix.mp hp
    split at h
    · cases h
    · rename_i hne
      cases h
      rw [List.drop_left] at hne ⊢
      rw [String.toList_ofList]
      exact ⟨by simpa using hne, rfl⟩
  · cases h

/-- A value that holds an annotation is a list, or a group and a list. -/
theorem parse_eq_some (h : parse value = .ok (some a)) :
    (∃ list, Text.split (· == ';') (trimSemicolons (Text.trim value)) = [list] ∧
      parseList list ≠ [] ∧ a = ⟨none, parseList list⟩) ∨
    ∃ name list,
      Text.split (· == ';') (trimSemicolons (Text.trim value)) = [anchor ++ name.toList, list] ∧
      name.toList ≠ [] ∧ parseList list ≠ [] ∧ a = ⟨some name, parseList list⟩ := by
  unfold parse at h
  dsimp only at h
  split at h
  · cases h
  split at h
  · rename_i list hs
    obtain ⟨b, hb, he⟩ := map_eq_ok.mp h
    cases he
    exact .inl ⟨list, hs, ofList_eq_ok.mp hb⟩
  · rename_i group list hs
    obtain ⟨name, hname, h⟩ := bind_eq_ok.mp h
    obtain ⟨b, hb, he⟩ := map_eq_ok.mp h
    cases he
    obtain ⟨hne, rfl⟩ := parseGroup_eq_ok hname
    exact .inr ⟨name, list, hs, hne, ofList_eq_ok.mp hb⟩
  · cases h

theorem legible_of_parse (h : parse value = .ok (some a)) : a.Legible := by
  have hpieces : ∀ piece ∈ Text.split (· == ';') (trimSemicolons (Text.trim value)), ';' ∉ piece :=
    fun piece hp hc => beq_eq_false_iff_ne.mp ((Text.mem_of_mem_split hp).2 _ hc) rfl
  rcases parse_eq_some h with ⟨list, hs, hne, rfl⟩ | ⟨name, list, hs, hname, hne, rfl⟩
  · rw [hs] at hpieces
    have hlist := hpieces list List.mem_cons_self
    exact ⟨(fun _ hg => nomatch hg), hne, fun name hn => listable_of_mem_parseList hlist hn⟩
  · rw [hs] at hpieces
    have hgroup := hpieces _ List.mem_cons_self
    have hlist := hpieces list (List.mem_cons_of_mem _ List.mem_cons_self)
    refine ⟨fun n hn => ?_, hne, fun name hn => listable_of_mem_parseList hlist hn⟩
    cases hn
    exact ⟨hname, fun hc => hgroup (List.mem_append_right _ hc)⟩

end StructLayout.Annotation
