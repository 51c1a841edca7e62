import Mathlib.Data.List.Nodup
import StructLayout.OrderedMap

/-! What ordered maps hold, where keys that compare as equal are equal. -/

namespace StructLayout.OrderedMap

variable {κ α : Type} {compare : κ → κ → Ordering} {k : κ} {v : α} {m : List (κ × α)}

theorem mem_of_mem_insert (hc : ∀ a b, compare a b = .eq → a = b) {e : κ × α}
    (h : e ∈ insert compare k v m) : e = (k, v) ∨ e ∈ m := by
  induction m with
  | nil => exact .inl (List.mem_singleton.mp h)
  | cons own m ih =>
    unfold insert at h
    split at h
    · exact List.mem_cons.mp h
    · rename_i he
      rcases List.mem_cons.mp h with rfl | h
      · exact .inl (congrArg (·, v) (hc _ _ he).symm)
      · exact .inr (List.mem_cons_of_mem _ h)
    · rcases List.mem_cons.mp h with rfl | h
      · exact .inr List.mem_cons_self
      · exact (ih h).imp_right (List.mem_cons_of_mem _)

theorem lookup_insert_self [BEq κ] [LawfulBEq κ] (hc : ∀ a b, compare a b = .eq → a = b)
    (hr : ∀ a, compare a a = .eq) : (insert compare k v m).lookup k = some v := by
  induction m with
  | nil => exact List.lookup_cons_self
  | cons own m ih =>
    unfold insert
    split
    · exact List.lookup_cons_self
    · rename_i he
      rw [hc _ _ he]
      exact List.lookup_cons_self
    · rename_i hgt
      have hk : (k == own.1) = false := by
        rw [beq_eq_false_iff_ne]
        rintro rfl
        rw [hr] at hgt
        cases hgt
      rw [List.lookup_cons, hk]
      exact ih

/-- A key keeps being bound. -/
theorem isSome_lookup_insert [BEq κ] {k' : κ} (h : (m.lookup k').isSome = true) :
    ((insert compare k v m).lookup k').isSome = true := by
  induction m with
  | nil => cases h
  | cons own m ih =>
    rw [List.lookup_cons] at h
    unfold insert
    split
    · rw [List.lookup_cons, List.lookup_cons]
      cases k' == k
      · exact h
      · rfl
    · rw [List.lookup_cons]
      cases hk : k' == own.1
      · rw [hk] at h
        exact h
      · rfl
    · rw [List.lookup_cons]
      cases hk : k' == own.1
      · rw [hk] at h
        exact ih h
      · rfl

theorem find?_eq_lookup [BEq κ] [LawfulBEq κ] (hc : ∀ a b, compare a b = .eq → a = b)
    (hr : ∀ a, compare a a = .eq) (k : κ) (m : List (κ × α)) : find? compare k m = m.lookup k := by
  induction m with
  | nil => rfl
  | cons own m ih =>
    unfold find? at ih ⊢
    rw [List.find?_cons, List.lookup_cons]
    by_cases hk : k = own.1
    · have heq : (compare k own.1 == .eq) = true := beq_iff_eq.mpr (hk ▸ hr k)
      rw [heq, beq_iff_eq.mpr hk]
      rfl
    · have hne : (compare k own.1 == .eq) = false := beq_eq_false_iff_ne.mpr fun h => hk (hc _ _ h)
      rw [hne, beq_eq_false_iff_ne.mpr hk]
      exact ih

/-- A new key is put besides those that are there. -/
theorem insert_perm (hc : ∀ a b, compare a b = .eq → a = b) (h : k ∉ m.map Prod.fst) :
    (insert compare k v m).Perm ((k, v) :: m) := by
  induction m with
  | nil => exact .refl _
  | cons own m ih =>
    rw [List.map_cons, List.mem_cons, not_or] at h
    unfold insert
    split
    · exact .refl _
    · rename_i he
      exact absurd (hc _ _ he) h.1
    · exact ((ih h.2).cons _).trans (.swap _ _ _)

theorem foldl_insert_perm (hc : ∀ a b, compare a b = .eq → a = b) {pairs : List (κ × α)}
    (h : ((m ++ pairs).map Prod.fst).Nodup) :
    (pairs.foldl (fun m p => insert compare p.1 p.2 m) m).Perm (m ++ pairs) := by
  induction pairs generalizing m with
  | nil => simp
  | cons p pairs ih =>
    have hmid : (m ++ p :: pairs).Perm (p :: m ++ pairs) := List.perm_middle
    have hn := (hmid.map Prod.fst).nodup_iff.mp h
    rw [List.cons_append, List.map_cons, List.nodup_cons, List.map_append, List.mem_append,
      not_or] at hn
    have hp := (insert_perm (v := p.2) hc hn.1.1).append_right pairs
    exact (ih ((hp.trans hmid.symm).map Prod.fst |>.nodup_iff.mpr h)).trans (hp.trans hmid.symm)

/-- A map of pairs with different keys has just these pairs. -/
theorem ofList_perm (hc : ∀ a b, compare a b = .eq → a = b) {pairs : List (κ × α)}
    (h : (pairs.map Prod.fst).Nodup) : (ofList compare pairs).Perm pairs :=
  foldl_insert_perm hc h

/-! ## Keys in order -/

/-- Keys stand in the order that `insert` goes by. -/
def Sorted (compare : κ → κ → Ordering) (m : List (κ × α)) : Prop :=
  m.Pairwise fun a b => compare a.1 b.1 = .lt

section

variable [Std.TransCmp compare]

theorem Sorted.insert (hc : ∀ a b, compare a b = .eq → a = b) (h : Sorted compare m) :
    Sorted compare (insert compare k v m) := by
  induction m with
  | nil => exact List.pairwise_singleton _ _
  | cons own m ih =>
    obtain ⟨hown, hm⟩ := List.pairwise_cons.mp h
    unfold OrderedMap.insert
    split
    · rename_i hlt
      refine List.pairwise_cons.mpr ⟨List.forall_mem_cons.mpr ⟨hlt, fun e he => ?_⟩, h⟩
      exact Std.TransCmp.lt_trans hlt (hown e he)
    · exact List.pairwise_cons.mpr ⟨hown, hm⟩
    · rename_i hgt
      refine List.pairwise_cons.mpr ⟨fun e he => ?_, ih hm⟩
      rcases mem_of_mem_insert hc he with rfl | he
      · exact Std.OrientedCmp.lt_of_gt hgt
      · exact hown e he

theorem sorted_foldl_insert (hc : ∀ a b, compare a b = .eq → a = b) (pairs : List (κ × α))
    (h : Sorted compare m) :
    Sorted compare (pairs.foldl (fun m p => OrderedMap.insert compare p.1 p.2 m) m) := by
  induction pairs generalizing m with
  | nil => exact h
  | cons p pairs ih => exact ih (h.insert hc)

/-- A map does not depend on the order that its pairs come in, if their keys are different. -/
theorem ofList_eq_of_perm (hc : ∀ a b, compare a b = .eq → a = b) {pairs pairs' : List (κ × α)}
    (hp : pairs.Perm pairs') (h : (pairs.map Prod.fst).Nodup) :
    ofList compare pairs = ofList compare pairs' := by
  have h' := (hp.map Prod.fst).nodup_iff.mp h
  refine List.Perm.eq_of_pairwise ?_ (sorted_foldl_insert hc pairs .nil)
    (sorted_foldl_insert hc pairs' .nil)
    ((ofList_perm hc h).trans (hp.trans (ofList_perm hc h').symm))
  intro a b _ _ hab hba
  cases hab.symm.trans (Std.OrientedCmp.gt_of_lt hba)

/-- A bound key gets its new value in the place of the old one. -/
theorem insert_of_find? (hc : ∀ a b, compare a b = .eq → a = b) {old : α}
    (hm : Sorted compare m) (h : find? compare k m = some old) :
    ∃ front back, m = front ++ (k, old) :: back ∧
      insert compare k v m = front ++ (k, v) :: back := by
  induction m with
  | nil => cases h
  | cons own m ih =>
    obtain ⟨hown, hm⟩ := List.pairwise_cons.mp hm
    obtain ⟨p, hp, rfl⟩ := Option.map_eq_some_iff.mp h
    obtain ⟨hkey, -⟩ := List.find?_eq_some_iff_append.mp hp
    have hk : k = p.1 := hc _ _ (eq_of_beq hkey)
    rw [List.find?_cons] at hp
    unfold insert
    split
    · rename_i hlt
      rw [hlt] at hp
      have := Std.TransCmp.lt_trans hlt (hown p (List.mem_of_find?_eq_some hp))
      rw [eq_of_beq hkey] at this
      cases this
    · rename_i he
      rw [he] at hp
      cases hp
      exact ⟨[], m, by rw [hk]; rfl, by rw [hk]; rfl⟩
    · rename_i hgt
      rw [hgt] at hp
      obtain ⟨front, back, hfront, hback⟩ := ih hm (Option.map_eq_some_iff.mpr ⟨p, hp, rfl⟩)
      exact ⟨own :: front, back, by rw [hfront]; rfl, by rw [hback]; rfl⟩

/-- Adding to the values of a key adds to the values of all keys. -/
theorem update_perm {β : Type} {f : List β → List β} {x : β} {m : List (κ × List β)}
    (hc : ∀ a b, compare a b = .eq → a = b) (hr : ∀ a, compare a a = .eq)
    (hm : Sorted compare m) (hf : ∀ ys ⊆ m.flatMap Prod.snd, (f ys).Perm (x :: ys)) :
    ((update compare k [] f m).flatMap Prod.snd).Perm (x :: m.flatMap Prod.snd) := by
  unfold update
  cases h : find? compare k m with
  | none =>
    have hk : k ∉ m.map Prod.fst := by
      intro hk
      obtain ⟨e, he, rfl⟩ := List.mem_map.mp hk
      rw [find?, Option.map_eq_none_iff, List.find?_eq_none] at h
      exact h e he (beq_iff_eq.mpr (hr _))
    refine ((insert_perm hc hk).flatMap_right Prod.snd).trans ?_
    exact (hf [] (List.nil_subset _)).append_right _
  | some old =>
    obtain ⟨front, back, hfront, hback⟩ := @insert_of_find? _ _ compare k (f old) m _ hc old hm h
    have hold : old ⊆ m.flatMap Prod.snd := by
      rw [hfront]
      exact fun y hy => List.mem_flatMap.mpr
        ⟨_, List.mem_append_right front List.mem_cons_self, hy⟩
    rw [Option.getD_some, hback, List.flatMap_append, List.flatMap_cons]
    refine (((hf old hold).append_right _).append_left _).trans ?_
    rw [hfront, List.flatMap_append, List.flatMap_cons]
    exact List.perm_middle

end

end StructLayout.OrderedMap
