import StructLayout.Proofs.Sequence
import StructLayout.Source.Printer

/-!
Rows of cells as lines. A line holds the cells of its row in their order, with spaces between them.
-/

namespace StructLayout

namespace Columns

/-- Cells on a line, with spaces between those that are not empty, and none behind the last. -/
inductive Spread : List String → List Char → Prop
  | nil : Spread [] []
  | empty {cells : List String} {line : List Char} (h : Spread cells line) :
      Spread ("" :: cells) line
  | last {cell : String} {cells : List String} (h : Spread cells []) :
      Spread (cell :: cells) cell.toList
  | cons {cell : String} {cells : List String} {gap line : List Char} (hc : cells ≠ [])
      (hne : gap ≠ []) (hg : ∀ c ∈ gap, c = ' ') (h : Spread cells line) :
      Spread (cell :: cells) (cell.toList ++ (gap ++ line))

variable {cells : List String} {line : List Char}

theorem spread_nil (h : ∀ cell ∈ cells, cell = "") : Spread cells [] := by
  induction cells with
  | nil => exact .nil
  | cons cell cells ih =>
      obtain ⟨hcell, hcells⟩ := List.forall_mem_cons.mp h
      rw [hcell]
      exact .empty (ih hcells)

/-- Empty cells at the end take no room. -/
theorem Spread.append {empties : List String} (h : Spread cells line)
    (he : ∀ cell ∈ empties, cell = "") : Spread (cells ++ empties) line := by
  induction h with
  | nil => exact spread_nil he
  | empty _ ih => exact .empty ih
  | last _ ih => exact .last ih
  | cons hc hne hg _ ih => exact .cons (by simp [hc]) hne hg ih

/-- Columns without a cell take no room. -/
theorem Spread.of_filter {p : Nat → Bool} {cell : Nat → String} {columns : List Nat}
    (hp : ∀ column ∈ columns, p column = false → cell column = "")
    (h : Spread ((columns.filter p).map cell) line) : Spread (columns.map cell) line := by
  induction columns generalizing line with
  | nil => exact h
  | cons column columns ih =>
      obtain ⟨hcolumn, hp⟩ := List.forall_mem_cons.mp hp
      rw [List.map_cons]
      by_cases hk : p column = true
      · rw [List.filter_cons_of_pos hk, List.map_cons] at h
        generalize cell column = first at h ⊢
        generalize hall : first :: (columns.filter p).map cell = all at h
        cases h with
        | nil => cases hall
        | empty h => cases hall; exact .empty (ih hp h)
        | last h => cases hall; exact .last (ih hp h)
        | cons hc hne hg h =>
            cases hall
            refine .cons ?_ hne hg (ih hp h)
            rintro hnil
            rw [List.map_eq_nil_iff] at hnil
            rw [hnil] at hc
            exact hc rfl
      · rw [List.filter_cons_of_neg hk] at h
        rw [hcolumn (by simpa using hk)]
        exact .empty (ih hp h)

/-! ## Lines -/

theorem toList_pushn (s : String) (c : Char) (n : Nat) :
    (s.pushn c n).toList = s.toList ++ List.replicate n c := by
  rw [String.pushn_eq_repeat_push]
  induction n with
  | zero => simp [Nat.repeat]
  | succ n ih =>
      rw [Nat.repeat, String.toList_push, ih, List.replicate_succ', List.append_assoc]

theorem le_maxima {xs ys : List Nat} {i x : Nat} (h : xs[i]? = some x ∨ ys[i]? = some x) :
    ∃ m, (maxima xs ys)[i]? = some m ∧ x ≤ m := by
  induction xs generalizing ys i with
  | nil => exact ⟨x, h.resolve_left (by simp), Nat.le_refl _⟩
  | cons a xs ih =>
      cases ys with
      | nil => exact ⟨x, h.resolve_right (by simp), Nat.le_refl _⟩
      | cons b ys =>
          cases i with
          | zero =>
              simp only [List.getElem?_cons_zero, Option.some.injEq] at h
              exact ⟨max a b, rfl, by omega⟩
          | succ i => exact ih (by simpa using h)

theorem le_foldl_maxima {columns : List Nat} {rows : List (List String)} {ws : List Nat} {i x : Nat}
    (h : ws[i]? = some x ∨ ∃ row ∈ rows, (demands columns row)[i]? = some x) :
    ∃ m, (rows.foldl (fun ws row => maxima ws (demands columns row)) ws)[i]? = some m ∧ x ≤ m := by
  induction rows generalizing ws x with
  | nil => exact ⟨x, h.resolve_right (by simp), Nat.le_refl _⟩
  | cons row rows ih =>
      rw [List.foldl_cons]
      have hfirst (hx : ws[i]? = some x ∨ (demands columns row)[i]? = some x) :
          ∃ m, (rows.foldl (fun ws row => maxima ws (demands columns row))
            (maxima ws (demands columns row)))[i]? = some m ∧ x ≤ m := by
        obtain ⟨m, hm, hle⟩ := le_maxima hx
        obtain ⟨m', hm', hle'⟩ := ih (.inl hm)
        exact ⟨m', hm', Nat.le_trans hle hle'⟩
      rcases h with hx | ⟨other, hother, hx⟩
      · exact hfirst (.inl hx)
      · rcases List.mem_cons.mp hother with rfl | hother
        · exact hfirst (.inr hx)
        · exact ih (.inr ⟨other, hother, hx⟩)

theorem length_demands {columns : List Nat} (h : cells.length ≤ columns.length) :
    (demands columns cells).length = cells.length := by
  fun_induction demands columns cells with
  | case1 column columns cell cells ih =>
      simpa using ih (by simpa using h)
  | case2 columns cells hne =>
      cases cells with
      | nil => rfl
      | cons cell cells =>
          cases columns with
          | nil => cases h
          | cons column columns => exact (hne column columns cell cells rfl rfl).elim

theorem length_cells_le (columns : List Nat) (row : List String) :
    (Columns.cells columns row).length ≤ columns.length := by
  unfold Columns.cells
  have hmap : (columns.map fun column => row[column]?.getD "").length = columns.length :=
    List.length_map _
  split
  · exact Nat.zero_le _
  · rename_i first rest heq
    rw [heq] at hmap
    have := (List.dropWhile_suffix (l := rest.reverse) String.isEmpty).length_le
    simp only [List.length_cons, List.length_reverse] at hmap this ⊢
    omega

/-- The widths that rows ask for, column by column. -/
def widths (rows : List (List String)) : List Nat :=
  (rows.map (Columns.cells (kept rows))).foldl
    (fun ws row => maxima ws (demands (kept rows) row)) []

/-- A column is as wide as every row asks for. -/
theorem le_widths {rows : List (List String)} {row : List String} {i x : Nat} (hrow : row ∈ rows)
    (h : (demands (kept rows) (Columns.cells (kept rows) row))[i]? = some x) :
    ∃ w, (widths rows)[i]? = some w ∧ x ≤ w :=
  le_foldl_maxima (.inr ⟨_, List.mem_map_of_mem hrow, h⟩)

/-- There are widths for all cells of every row. -/
theorem length_le_widths {rows : List (List String)} {row : List String} (hrow : row ∈ rows) :
    (Columns.cells (kept rows) row).length ≤ (widths rows).length := by
  refine Nat.le_of_not_lt fun hlt => ?_
  rw [← length_demands (length_cells_le (kept rows) row)] at hlt
  obtain ⟨w, hw, -⟩ := le_widths hrow (List.getElem?_eq_getElem hlt)
  rw [List.getElem?_eq_none (Nat.le_refl _)] at hw
  cases hw

theorem line_spread {ws : List Nat} (h : cells.length ≤ ws.length) :
    Spread cells (Columns.line ws cells).toList := by
  induction cells generalizing ws with
  | nil => cases ws <;> exact .nil
  | cons cell cells ih =>
      cases cells with
      | nil => cases ws <;> exact .last .nil
      | cons next cells =>
          cases ws with
          | nil => cases h
          | cons w ws =>
              have hgap : ("".pushn ' ' (w - cell.length + 1)).toList =
                  List.replicate (w - cell.length + 1) ' ' := by rw [toList_pushn]; rfl
              rw [Columns.line, String.toList_append, String.toList_append, List.append_assoc, hgap]
              exact .cons (List.cons_ne_nil _ _) (List.cons_ne_nil _ _) (fun c hc => List.eq_of_mem_replicate hc)
                (ih (Nat.le_of_succ_le_succ h))

theorem align_eq (rows : List (List String)) :
    align rows = rows.map fun row => Columns.line (widths rows) (Columns.cells (kept rows) row) := by
  unfold align widths
  rw [List.map_map]
  rfl

/-- Every row becomes a line with its cells on it. -/
theorem align_spread {rows : List (List String)} (h : ∀ row ∈ rows, row.length = 4) :
    List.Forall₂ (fun row line => Spread row line.toList) rows (align rows) := by
  rw [align_eq, List.forall₂_map_right_iff, List.forall₂_same]
  intro row hrow
  have hline := line_spread (length_le_widths hrow)
  -- back from the cells that are kept to all of them
  have hall : Spread ((kept rows).map fun column => row[column]?.getD "")
      (Columns.line (widths rows) (Columns.cells (kept rows) row)).toList := by
    unfold Columns.cells at hline ⊢
    split at hline
    · rename_i heq
      rw [heq]
      exact hline
    · rename_i first rest heq
      rw [heq]
      have hempty : ∀ cell ∈ (rest.reverse.takeWhile String.isEmpty).reverse, cell = "" := by
        intro cell hcell
        have := List.all_eq_true.mp List.all_takeWhile _ (List.mem_reverse.mp hcell)
        simpa using this
      have hsplit : (rest.reverse.dropWhile String.isEmpty).reverse ++
          (rest.reverse.takeWhile String.isEmpty).reverse = rest := by
        rw [← List.reverse_append, List.takeWhile_append_dropWhile, List.reverse_reverse]
      have := hline.append hempty
      rwa [List.cons_append, hsplit] at this
  have hrange : (List.range 4).map (fun column => row[column]?.getD "") = row := by
    match row, h row hrow with
    | [_, _, _, _], _ => rfl
  have := Spread.of_filter (fun column _ hcolumn => ?_) hall
  · rwa [hrange] at this
  · have := List.any_eq_false.mp hcolumn row hrow
    simpa using this

end Columns

end StructLayout
