import Mathlib.Data.List.Basic
import Mathlib.Data.List.TakeWhile
import StructLayout.Text.Blank

/-!
Texts without the blanks at their ends, and in pieces. A text that has been trimmed begins and ends
with what can be seen, and pieces put together with a separator come apart again.
-/

namespace StructLayout.Text

variable {cs ds : List Char} {c : Char} {p : Char → Bool}

/-! ## Ends -/

/-- No blank stands at the start. -/
def Starts (cs : List Char) : Prop :=
  ∀ c, cs.head? = some c → isBlank c = false

/-- No blank stands at the end. -/
def Stops (cs : List Char) : Prop :=
  ∀ c, cs.getLast? = some c → isBlank c = false

theorem Starts.append (h : Starts cs) (hne : cs ≠ []) (ds : List Char) : Starts (cs ++ ds) := by
  intro c hc
  rw [List.head?_append_of_ne_nil _ hne] at hc
  exact h c hc

theorem Stops.append (h : Stops ds) (hne : ds ≠ []) (cs : List Char) : Stops (cs ++ ds) := by
  intro c hc
  rw [List.getLast?_append_of_ne_nil _ hne] at hc
  exact h c hc

theorem stops_snoc (cs : List Char) (h : isBlank c = false) : Stops (cs ++ [c]) := by
  intro d hd
  rw [List.getLast?_concat] at hd
  cases hd
  exact h

theorem dropWhile_eq_self (h : ∀ c, cs.head? = some c → p c = false) : cs.dropWhile p = cs := by
  cases cs with
  | nil => rfl
  | cons c cs => exact List.dropWhile_cons_of_neg (Bool.eq_false_iff.mp (h c rfl))

theorem dropWhile_reverse_eq_self (h : ∀ c, cs.getLast? = some c → p c = false) :
    (cs.reverse.dropWhile p).reverse = cs := by
  rw [dropWhile_eq_self, List.reverse_reverse]
  exact fun c hc => h c (by rwa [List.head?_reverse] at hc)

theorem trimStart_eq_self (h : Starts cs) : trimStart cs = cs :=
  dropWhile_eq_self h

theorem trimEnd_eq_self (h : Stops cs) : trimEnd cs = cs :=
  dropWhile_reverse_eq_self h

theorem trim_eq_self (hs : Starts cs) (he : Stops cs) : trim cs = cs := by
  rw [trim, trimStart_eq_self hs, trimEnd_eq_self he]

theorem trimStart_append (h : ∀ c ∈ cs, isBlank c = true) (ds : List Char) :
    trimStart (cs ++ ds) = trimStart ds :=
  List.dropWhile_append_of_pos h

theorem trimEnd_append (h : ∀ c ∈ ds, isBlank c = true) (cs : List Char) :
    trimEnd (cs ++ ds) = trimEnd cs := by
  have hr : ∀ c ∈ ds.reverse, isBlank c = true := fun c hc => h c (List.mem_reverse.mp hc)
  rw [trimEnd, List.reverse_append, List.dropWhile_append_of_pos hr, trimEnd]

theorem dropWhile_append_of_mem (hc : c ∈ cs) (hp : p c = false) (ds : List Char) :
    (cs ++ ds).dropWhile p = cs.dropWhile p ++ ds := by
  have hne : cs.dropWhile p ≠ [] := by
    intro hnil
    rw [List.dropWhile_eq_nil_iff.mp hnil c hc] at hp
    cases hp
  rw [List.dropWhile_append, if_neg (by simpa using hne)]

theorem trimEnd_append_of_mem (hc : c ∈ ds) (hb : isBlank c = false) (cs : List Char) :
    trimEnd (cs ++ ds) = cs ++ trimEnd ds := by
  rw [trimEnd, List.reverse_append, dropWhile_append_of_mem (List.mem_reverse.mpr hc) hb,
    List.reverse_append, List.reverse_reverse, trimEnd]

theorem trimStart_starts (cs : List Char) : Starts (trimStart cs) := by
  intro c hc
  have h := List.head?_dropWhile_not isBlank cs
  rw [show cs.dropWhile isBlank = trimStart cs from rfl, hc] at h
  exact h

theorem suffix_trimStart (cs : List Char) : trimStart cs <:+ cs :=
  List.dropWhile_suffix _

theorem prefix_trimEnd (cs : List Char) : trimEnd cs <+: cs := by
  have h := List.reverse_prefix.mpr (List.dropWhile_suffix (l := cs.reverse) isBlank)
  rwa [List.reverse_reverse] at h

theorem trimEnd_stops (cs : List Char) : Stops (trimEnd cs) := by
  intro c hc
  rw [trimEnd, List.getLast?_reverse] at hc
  exact trimStart_starts cs.reverse c hc

theorem mem_trimEnd (hc : c ∈ cs) (hb : isBlank c = false) : c ∈ trimEnd cs := by
  have hr : c ∈ cs.reverse := List.mem_reverse.mpr hc
  rw [← List.takeWhile_append_dropWhile (p := isBlank) (l := cs.reverse)] at hr
  rcases List.mem_append.mp hr with hr | hr
  · rw [List.all_eq_true.mp List.all_takeWhile c hr] at hb
    cases hb
  · exact List.mem_reverse.mpr hr

theorem trim_sub (cs : List Char) : trim cs ⊆ cs :=
  fun _ hc => (suffix_trimStart _).subset ((prefix_trimEnd _).subset hc)

theorem trim_stops (cs : List Char) : Stops (trim cs) :=
  trimEnd_stops _

theorem trim_starts (cs : List Char) : Starts (trim cs) := by
  intro c hc
  obtain ⟨ds, hds⟩ := prefix_trimEnd (trimStart cs)
  refine trimStart_starts cs c ?_
  rw [← hds]
  change (trim cs).head? = some c at hc
  have hne : trim cs ≠ [] := by
    intro hnil
    rw [hnil] at hc
    cases hc
  exact (List.head?_append_of_ne_nil _ hne).trans hc

theorem trim_ne_nil (hc : c ∈ cs) (hb : isBlank c = false) : trim cs ≠ [] := by
  intro h
  have hall : ∀ d ∈ trimStart cs, isBlank d = true := by
    have hr := List.dropWhile_eq_nil_iff.mp (List.reverse_eq_nil_iff.mp h)
    exact fun d hd => hr d (List.mem_reverse.mpr hd)
  have hnil : trimStart cs = [] := by
    cases hs : trimStart cs with
    | nil => rfl
    | cons d ds =>
      have hd := hall d (by rw [hs]; exact List.mem_cons_self)
      rw [trimStart_starts cs d (by rw [hs]; rfl)] at hd
      cases hd
  rw [List.dropWhile_eq_nil_iff.mp hnil c hc] at hb
  cases hb

/-! ## Pieces -/

theorem split_of_forall (h : ∀ c ∈ cs, p c = false) : split p cs = [cs] := by
  induction cs with
  | nil => rfl
  | cons c cs ih =>
    obtain ⟨hc, hcs⟩ := List.forall_mem_cons.mp h
    simp [split, hc, ih hcs]

theorem split_append_cons (h : ∀ c ∈ cs, p c = false) (hc : p c = true) (ds : List Char) :
    split p (cs ++ c :: ds) = cs :: split p ds := by
  induction cs with
  | nil => simp [split, hc]
  | cons d cs ih =>
    obtain ⟨hd, hcs⟩ := List.forall_mem_cons.mp h
    simp [split, hd, ih hcs]

theorem split_intercalate {pieces : List (List Char)} (hne : pieces ≠ []) (hc : p c = true)
    (h : ∀ piece ∈ pieces, ∀ d ∈ piece, p d = false) : split p ([c].intercalate pieces) = pieces := by
  induction pieces with
  | nil => exact absurd rfl hne
  | cons piece pieces ih =>
    obtain ⟨hp, hps⟩ := List.forall_mem_cons.mp h
    cases pieces with
    | nil => simpa using split_of_forall hp
    | cons next pieces =>
      rw [List.intercalate_cons_cons, List.append_assoc, List.singleton_append,
        split_append_cons hp hc, ih (List.cons_ne_nil _ _) hps]

theorem mem_intercalate {pieces : List (List Char)} {d : Char} (h : d ∈ [c].intercalate pieces) :
    d = c ∨ ∃ piece ∈ pieces, d ∈ piece := by
  induction pieces with
  | nil => cases h
  | cons piece pieces ih =>
    cases pieces with
    | nil => exact .inr ⟨piece, List.mem_cons_self, by simpa using h⟩
    | cons next pieces =>
      rw [List.intercalate_cons_cons, List.append_assoc, List.mem_append, List.singleton_append,
        List.mem_cons] at h
      rcases h with h | rfl | h
      · exact .inr ⟨piece, List.mem_cons_self, h⟩
      · exact .inl rfl
      · exact (ih h).imp_right fun ⟨q, hq, hd⟩ => ⟨q, List.mem_cons_of_mem _ hq, hd⟩

/-- Pieces that can be seen make a text that can be seen at both ends. -/
theorem ends_intercalate {pieces : List (List Char)} (sep : List Char) (hne : pieces ≠ [])
    (h : ∀ piece ∈ pieces, piece ≠ [] ∧ Starts piece ∧ Stops piece) :
    sep.intercalate pieces ≠ [] ∧ Starts (sep.intercalate pieces) ∧
      Stops (sep.intercalate pieces) := by
  induction pieces with
  | nil => exact absurd rfl hne
  | cons piece pieces ih =>
    obtain ⟨⟨hp, hstarts, hstops⟩, hps⟩ := List.forall_mem_cons.mp h
    cases pieces with
    | nil =>
      rw [List.intercalate_singleton]
      exact ⟨hp, hstarts, hstops⟩
    | cons next pieces =>
      obtain ⟨hrest, -, hend⟩ := ih (List.cons_ne_nil _ _) hps
      rw [List.intercalate_cons_cons]
      refine ⟨by simp [hp], ?_, hend.append hrest _⟩
      rw [List.append_assoc]
      exact hstarts.append hp _

theorem mem_of_mem_split {piece : List Char} (h : piece ∈ split p cs) :
    piece ⊆ cs ∧ ∀ c ∈ piece, p c = false := by
  induction cs generalizing piece with
  | nil =>
    rw [List.mem_singleton.mp h]
    simp
  | cons c cs ih =>
    simp only [split] at h
    split at h
    · rcases List.mem_cons.mp h with rfl | h
      · simp
      · exact ⟨List.subset_cons_of_subset _ (ih h).1, (ih h).2⟩
    · rename_i hc
      split at h
      · exact absurd ‹_› (split_ne_nil p cs)
      · rename_i first rest hs
        rw [hs] at ih
        rcases List.mem_cons.mp h with rfl | h
        · obtain ⟨hsub, hall⟩ := ih List.mem_cons_self
          exact ⟨List.cons_subset_cons _ hsub,
            List.forall_mem_cons.mpr ⟨Bool.eq_false_iff.mpr hc, hall⟩⟩
        · obtain ⟨hsub, hall⟩ := ih (List.mem_cons_of_mem _ h)
          exact ⟨List.subset_cons_of_subset _ hsub, hall⟩

end StructLayout.Text
