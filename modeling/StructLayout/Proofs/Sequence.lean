import Mathlib.Data.List.Forall2
import Mathlib.Data.List.Perm.Subperm

/-! Lists of steps that may fail, lookups, lists without repetitions, and sorts that are stable. -/

namespace StructLayout

/-- A success of two steps in a row is one of both. -/
theorem bind_eq_ok {ε α β : Type} {x : Except ε α} {f : α → Except ε β} {b : β} :
    x >>= f = .ok b ↔ ∃ a, x = .ok a ∧ f a = .ok b := by
  cases x with
  | error e =>
      constructor
      · intro h; cases h
      · rintro ⟨_, h, _⟩; cases h
  | ok a =>
      constructor
      · intro h; exact ⟨a, rfl, h⟩
      · rintro ⟨_, h, hb⟩; cases h; exact hb

theorem bind_run {ε σ α β : Type} (m : ExceptT ε (StateM σ) α)
    (f : α → ExceptT ε (StateM σ) β) (c : σ) :
    (m >>= f).run.run c = match m.run.run c with
      | (.ok a, c₁) => (f a).run.run c₁
      | (.error e, c₁) => (.error e, c₁) := by
  show (ExceptT.bindCont f (m.run.run c).1).run (m.run.run c).2 = _
  obtain ⟨e | a, c₁⟩ := m.run.run c <;> rfl

/-- The same for steps that keep a state also when they fail. -/
theorem bind_run_eq_ok {ε σ α β : Type} {m : ExceptT ε (StateM σ) α}
    {f : α → ExceptT ε (StateM σ) β} {b : β} {c c' : σ} :
    (m >>= f).run.run c = (.ok b, c') ↔
      ∃ a c₁, m.run.run c = (.ok a, c₁) ∧ (f a).run.run c₁ = (.ok b, c') := by
  rw [bind_run]
  obtain ⟨e | a, c₁⟩ := m.run.run c
  · constructor
    · intro h
      cases h
    · rintro ⟨_, _, h, _⟩
      cases h
  · constructor
    · intro h
      exact ⟨a, c₁, rfl, h⟩
    · rintro ⟨_, _, h, hf⟩
      cases h
      exact hf

/-- A failure of two steps in a row is one of the first or of the second. -/
theorem bind_eq_error {ε α β : Type} {x : Except ε α} {f : α → Except ε β} {e : ε}
    (h : x >>= f = .error e) : x = .error e ∨ ∃ a, x = .ok a ∧ f a = .error e := by
  cases x with
  | error e' =>
    cases h
    exact .inl rfl
  | ok a => exact .inr ⟨a, rfl, h⟩

theorem map_eq_error {ε α β : Type} {x : Except ε α} {f : α → β} {e : ε}
    (h : x.map f = .error e) : x = .error e := by
  cases x with
  | error e' => cases h; rfl
  | ok a => cases h

theorem map_eq_ok {ε α β : Type} {x : Except ε α} {f : α → β} {b : β} :
    x.map f = .ok b ↔ ∃ a, x = .ok a ∧ f a = b := by
  cases x <;> simp [Except.map]

theorem mapError_eq_ok {ε ε' α : Type} {x : Except ε α} {f : ε → ε'} {a : α} :
    x.mapError f = .ok a ↔ x = .ok a := by
  cases x <;> simp [Except.mapError]

/-- A list of steps that all succeed: every outcome is that of its own step. -/
theorem forall₂_of_mapM {ε α β : Type} {f : α → Except ε β} {xs : List α} {ys : List β}
    (h : xs.mapM f = .ok ys) : List.Forall₂ (fun x y => f x = .ok y) xs ys := by
  induction xs generalizing ys with
  | nil => cases h; exact .nil
  | cons x xs ih =>
      rw [List.mapM_cons, bind_eq_ok] at h
      obtain ⟨y, hy, h⟩ := h
      obtain ⟨zs, hzs, h⟩ := bind_eq_ok.mp h
      cases h
      exact .cons hy (ih hzs)

theorem mapM_eq_ok {ε α β : Type} {f : α → Except ε β} {xs : List α} {ys : List β} :
    xs.mapM f = .ok ys ↔ List.Forall₂ (fun x y => f x = .ok y) xs ys := by
  refine ⟨forall₂_of_mapM, fun h => ?_⟩
  induction h with
  | nil => rfl
  | cons hy _ ih =>
      rw [List.mapM_cons, hy, ih]
      rfl

/-- A list of steps has an outcome if each of them has one. -/
theorem exists_mapM {ε α β : Type} {f : α → Except ε β} {xs : List α} :
    (∃ ys, xs.mapM f = .ok ys) ↔ ∀ x ∈ xs, ∃ y, f x = .ok y := by
  induction xs with
  | nil => exact iff_of_true ⟨[], rfl⟩ (by simp)
  | cons x xs ih =>
    rw [List.forall_mem_cons, ← ih]
    simp only [List.mapM_cons, bind_eq_ok]
    constructor
    · rintro ⟨_, y, hy, ys, hys, -⟩
      exact ⟨⟨y, hy⟩, ys, hys⟩
    · rintro ⟨⟨y, hy⟩, ys, hys⟩
      exact ⟨_, y, hy, ys, hys, rfl⟩

/-- A list of steps fails by the first of them that fails. -/
theorem mapM_eq_error {ε α β : Type} {f : α → Except ε β} {xs : List α} {e : ε} :
    xs.mapM f = .error e ↔ ∃ front x back, xs = front ++ x :: back ∧
      (∀ w ∈ front, ∃ y, f w = .ok y) ∧ f x = .error e := by
  constructor
  · intro h
    induction xs with
    | nil => cases h
    | cons x xs ih =>
      rw [List.mapM_cons] at h
      rcases bind_eq_error h with h | ⟨y, hy, h⟩
      · exact ⟨[], x, xs, rfl, by simp, h⟩
      rcases bind_eq_error h with h | ⟨ys, -, h⟩
      · obtain ⟨front, z, back, rfl, hfront, hz⟩ := ih h
        exact ⟨x :: front, z, back, rfl, List.forall_mem_cons.mpr ⟨⟨y, hy⟩, hfront⟩, hz⟩
      · cases h
  · rintro ⟨front, x, back, rfl, hfront, hx⟩
    induction front with
    | nil =>
      rw [List.nil_append, List.mapM_cons, hx]
      rfl
    | cons w front ih =>
      obtain ⟨⟨y, hy⟩, hfront⟩ := List.forall_mem_cons.mp hfront
      rw [List.cons_append, List.mapM_cons, hy]
      show ((front ++ x :: back).mapM f >>= _) = _
      rw [ih hfront]
      rfl

theorem exists_of_mapM_error {ε α β : Type} {f : α → Except ε β} {xs : List α} {e : ε}
    (h : xs.mapM f = .error e) : ∃ x ∈ xs, f x = .error e := by
  obtain ⟨front, x, back, rfl, -, hx⟩ := mapM_eq_error.mp h
  exact ⟨x, List.mem_append_right _ List.mem_cons_self, hx⟩

theorem exists_of_foldlM_error {ε α β : Type} {f : β → α → Except ε β} {xs : List α} {b : β} {e : ε}
    (h : xs.foldlM f b = .error e) : ∃ x ∈ xs, ∃ c, f c x = .error e := by
  induction xs generalizing b with
  | nil => cases h
  | cons x xs ih =>
    rcases bind_eq_error h with h | ⟨c, -, h⟩
    · exact ⟨x, List.mem_cons_self, b, h⟩
    · obtain ⟨z, hz, c, he⟩ := ih h
      exact ⟨z, List.mem_cons_of_mem _ hz, c, he⟩

theorem mem_of_forall₂ {α β : Type} {R : α → β → Prop} {xs : List α} {ys : List β}
    (h : List.Forall₂ R xs ys) {y : β} (hy : y ∈ ys) : ∃ x ∈ xs, R x y := by
  induction h with
  | nil => cases hy
  | @cons x z xs zs hr _ ih =>
      rcases List.mem_cons.mp hy with rfl | hy
      · exact ⟨x, by simp, hr⟩
      · obtain ⟨x, hx, hr⟩ := ih hy
        exact ⟨x, by simp [hx], hr⟩

theorem forall₂_trans {α : Type} {R : α → α → Prop} (hr : ∀ {a b c}, R a b → R b c → R a c)
    {xs ys zs : List α} (h : List.Forall₂ R xs ys) (h' : List.Forall₂ R ys zs) :
    List.Forall₂ R xs zs := by
  induction h generalizing zs with
  | nil => exact h'
  | cons hxy _ ih =>
      cases h' with
      | cons hyz h' => exact .cons (hr hxy hyz) (ih h')

theorem mem_of_lookup {κ β : Type} [BEq κ] [LawfulBEq κ] {xs : List (κ × β)} {k : κ} {x : β}
    (h : xs.lookup k = some x) : (k, x) ∈ xs := by
  obtain ⟨front, back, rfl, -⟩ := List.lookup_eq_some_iff.mp h
  exact List.mem_append_right _ List.mem_cons_self

theorem lookup_of_mem {κ β : Type} [BEq κ] [LawfulBEq κ] {xs : List (κ × β)} {k : κ} {x : β}
    (hn : (xs.map Prod.fst).Nodup) (h : (k, x) ∈ xs) : xs.lookup k = some x := by
  obtain ⟨front, back, rfl⟩ := List.append_of_mem h
  refine List.lookup_eq_some_iff.mpr ⟨front, back, rfl, fun p hp => ?_⟩
  rw [List.map_append, List.nodup_append] at hn
  have := hn.2.2 p.1 (List.mem_map_of_mem hp) k List.mem_cons_self
  simpa using this.symm

section

variable {α κ β : Type} [BEq κ] {entries : α → List (κ × β)} {xs ys : List α} {k : κ}

/-- Of lists that do not share a key, the one that has it is found. -/
theorem lookup_flatMap_eq_some {v : β}
    (hd : xs.Pairwise fun x y => (entries x).lookup k = none ∨ (entries y).lookup k = none) :
    (xs.flatMap entries).lookup k = some v ↔ ∃ x ∈ xs, (entries x).lookup k = some v := by
  induction xs with
  | nil => simp
  | cons x xs ih =>
    obtain ⟨hx, hxs⟩ := List.pairwise_cons.mp hd
    rw [List.flatMap_cons, List.lookup_append, Option.or_eq_some_iff, ih hxs, List.exists_mem_cons_iff]
    refine or_congr_right (and_iff_right_of_imp ?_)
    rintro ⟨y, hy, hv⟩
    refine (hx y hy).resolve_right fun hnone => ?_
    cases hnone.symm.trans hv

/-- The order of such lists does not matter. -/
theorem lookup_flatMap_perm (h : xs.Perm ys)
    (hd : ys.Pairwise fun x y => (entries x).lookup k = none ∨ (entries y).lookup k = none) :
    (xs.flatMap entries).lookup k = (ys.flatMap entries).lookup k := by
  have hd' := (h.pairwise_iff Or.symm).mpr hd
  refine Option.ext fun v => ?_
  rw [lookup_flatMap_eq_some hd, lookup_flatMap_eq_some hd']
  exact exists_congr fun x => and_congr_left fun _ => h.mem_iff

end

/-- A separator that is in neither front parts two lists alike. -/
theorem append_cons_inj_left {α : Type} {s : α} {xs xs' ys ys' : List α} (hx : s ∉ xs)
    (hx' : s ∉ xs') (h : xs ++ s :: ys = xs' ++ s :: ys') : xs = xs' ∧ ys = ys' := by
  induction xs generalizing xs' with
  | nil =>
    cases xs' with
    | nil => exact ⟨rfl, (List.cons.inj h).2⟩
    | cons x' xs' => exact absurd ((List.cons.inj h).1 ▸ List.mem_cons_self) hx'
  | cons x xs ih =>
    cases xs' with
    | nil => exact absurd ((List.cons.inj h).1 ▸ List.mem_cons_self) hx
    | cons x' xs' =>
      obtain ⟨rfl, htail⟩ := List.cons.inj h
      obtain ⟨rfl, rfl⟩ := ih (fun hm => hx (List.mem_cons_of_mem _ hm))
        (fun hm => hx' (List.mem_cons_of_mem _ hm)) htail
      exact ⟨rfl, rfl⟩

theorem append_cons_inj_right {α : Type} {s : α} {xs xs' ys ys' : List α} (hy : s ∉ ys)
    (hy' : s ∉ ys') (h : xs ++ s :: ys = xs' ++ s :: ys') : xs = xs' ∧ ys = ys' := by
  have hr := congrArg List.reverse h
  simp only [List.reverse_append, List.reverse_cons, List.append_assoc,
    List.singleton_append] at hr
  obtain ⟨h₁, h₂⟩ := append_cons_inj_left (by simpa using hy) (by simpa using hy') hr
  exact ⟨List.reverse_injective h₂, List.reverse_injective h₁⟩

theorem subperm_map {α β : Type} {xs ys : List α} (h : xs.Subperm ys) (f : α → β) :
    (xs.map f).Subperm (ys.map f) := by
  obtain ⟨zs, hp, hs⟩ := h
  exact ⟨zs.map f, hp.map f, hs.map f⟩

theorem nodup_eraseDups {α : Type} [DecidableEq α] : (xs : List α) → xs.eraseDups.Nodup
  | [] => List.nodup_nil
  | x :: xs => by
      have hlt := List.length_filter_le (fun y => !y == x) xs
      rw [List.eraseDups_cons, List.nodup_cons]
      exact ⟨by simp, nodup_eraseDups _⟩
termination_by xs => xs.length

/-- Members sorted into distinct classes that cover them are all there, each once. -/
theorem flatMap_filter_perm {α κ : Type} [DecidableEq κ] (key : α → κ) {keys : List κ}
    {xs : List α} (hn : keys.Nodup) (hc : ∀ x ∈ xs, key x ∈ keys) :
    (keys.flatMap fun k => xs.filter fun x => key x == k).Perm xs := by
  induction keys generalizing xs with
  | nil =>
      cases xs with
      | nil => exact .nil
      | cons x xs => exact absurd (hc x List.mem_cons_self) List.not_mem_nil
  | cons k ks ih =>
      obtain ⟨hk, hks⟩ := List.nodup_cons.mp hn
      have hrest : (ks.flatMap fun k => xs.filter fun x => key x == k) =
          ks.flatMap fun j => (xs.filter fun x => !key x == k).filter fun x => key x == j := by
        apply List.flatMap_congr
        intro j hj
        rw [List.filter_filter]
        apply List.filter_congr
        intro x _
        by_cases he : key x = j
        · subst he; simp [show key x ≠ k by rintro rfl; exact hk hj]
        · simp [he]
      rw [List.flatMap_cons, hrest]
      refine ((ih hks ?_).append_left _).trans (List.filter_append_perm _ xs)
      intro x hx
      obtain ⟨hx, hne⟩ := List.mem_filter.mp hx
      exact (List.mem_cons.mp (hc x hx)).resolve_left (by simpa using hne)

theorem pairwise_of_forall₂ {α β : Type} {S : α → β → Prop} {R : α → α → Prop}
    {R' : β → β → Prop} {xs : List α} {ys : List β} (hs : List.Forall₂ S xs ys)
    (hr : ∀ {a b c d}, S a c → S b d → R a b → R' c d) (h : xs.Pairwise R) : ys.Pairwise R' := by
  induction hs with
  | nil => exact .nil
  | @cons x y xs ys hxy hs ih =>
      obtain ⟨hx, h⟩ := List.pairwise_cons.mp h
      refine List.pairwise_cons.mpr ⟨fun z hz => ?_, ih h⟩
      obtain ⟨w, hw, hwz⟩ := mem_of_forall₂ hs hz
      exact hr hxy hwz (hx w hw)

section Stable

variable {α : Type} {le : α → α → Bool}

/-- A sort does not move members that stand in order already. -/
theorem filter_mergeSort (htrans : ∀ a b c, le a b → le b c → le a c)
    (htotal : ∀ a b, le a b || le b a) {xs : List α} {p : α → Bool}
    (h : (xs.filter p).Pairwise fun a b => le a b) :
    (xs.mergeSort le).filter p = xs.filter p := by
  have hsub : (xs.filter p).Sublist ((xs.mergeSort le).filter p) := by
    have := (List.sublist_mergeSort htrans htotal h List.filter_sublist).filter p
    simpa [List.filter_filter] using this
  exact (hsub.eq_of_length ((List.mergeSort_perm xs le).symm.filter p).length_eq).symm

/-- Sorted lists that agree on the members of each rank are equal. -/
theorem eq_of_filter_eq (htotal : ∀ a b, le a b || le b a) {xs ys : List α}
    (hx : xs.Pairwise fun a b => le a b) (hy : ys.Pairwise fun a b => le a b)
    (h : ∀ a, xs.filter (fun b => le a b && le b a) = ys.filter fun b => le a b && le b a) :
    xs = ys := by
  have hrefl (a : α) : le a a = true := by simpa using htotal a a
  induction xs generalizing ys with
  | nil =>
      cases ys with
      | nil => rfl
      | cons y ys =>
          have := h y
          rw [List.filter_cons_of_pos (by simp [hrefl])] at this
          cases this
  | cons x xs ih =>
      have hmem : x ∈ ys.filter fun b => le x b && le b x := by
        rw [← h x]
        simp [hrefl]
      cases ys with
      | nil => cases hmem
      | cons y ys =>
          obtain ⟨hx₁, hxs⟩ := List.pairwise_cons.mp hx
          obtain ⟨hy₁, hys⟩ := List.pairwise_cons.mp hy
          have hyx : le y x = true := by
            rcases List.mem_cons.mp (List.mem_filter.mp hmem).1 with rfl | hm
            · exact hrefl x
            · exact hy₁ x hm
          have hxy : le x y = true := by
            have hmem : y ∈ (x :: xs).filter fun b => le y b && le b y := by
              rw [h y]
              simp [hrefl]
            rcases List.mem_cons.mp (List.mem_filter.mp hmem).1 with rfl | hm
            · exact hrefl y
            · exact hx₁ y hm
          have hfirst := h x
          rw [List.filter_cons_of_pos (by simp [hrefl]),
            List.filter_cons_of_pos (by simp [hxy, hyx])] at hfirst
          cases (List.cons.inj hfirst).1
          refine congrArg (x :: ·) (ih hxs hys fun a => ?_)
          have hrest := h a
          rw [List.filter_cons, List.filter_cons] at hrest
          split at hrest
          · exact (List.cons.inj hrest).2
          · exact hrest

end Stable

/-- A member of a list in which any two are related, and others in its place that are related to all
that it is related to. -/
theorem pairwise_replace {α : Type} {R : α → α → Prop} {front back xs : List α} {x : α}
    (h : (front ++ x :: back).Pairwise R) (hx : xs.Pairwise R)
    (hl : ∀ a, R a x → ∀ y ∈ xs, R a y) (hr : ∀ b, R x b → ∀ y ∈ xs, R y b) :
    (front ++ xs ++ back).Pairwise R := by
  obtain ⟨hf, hxb, hcross⟩ := List.pairwise_append.mp h
  obtain ⟨hx', hb⟩ := List.pairwise_cons.mp hxb
  refine List.pairwise_append.mpr ⟨List.pairwise_append.mpr ⟨hf, hx, fun a ha y hy => ?_⟩, hb, ?_⟩
  · exact hl a (hcross a ha x List.mem_cons_self) y hy
  · intro a ha b hm
    rcases List.mem_append.mp ha with ha | ha
    · exact hcross a ha b (List.mem_cons_of_mem _ hm)
    · exact hr b (hx' b hm) a ha

end StructLayout
