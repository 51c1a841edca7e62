import Mathlib.Data.List.TakeWhile
import StructLayout.Proofs.Source.Columns

/-!
Where the columns of aligned rows begin. Every cell that is filled up is no wider than its column, so
that a column begins at the same place on every line that comes to it.
-/

namespace StructLayout

namespace Columns

/-- The cell of a row in a column. -/
def cellAt (row : List String) (col : Nat) : String :=
  row[col]?.getD ""

/-- Columns with the places where they begin: each leaves room for its width and a space. -/
def starts (start : Nat) : List Nat → List Nat → List (Nat × Nat)
  | [], _ => []
  | col :: cols, ws => (col, start) :: starts (start + ws.headD 0 + 1) cols ws.tail

/-- The cells of a row on a line, from the first of some columns on. Every cell begins where its
column does, with spaces between it and the one before, and the line ends with the last cell that is
not empty. -/
inductive Placed (row : List String) : List (Nat × Nat) → List Char → Prop
  | last {col start : Nat} {cols : List (Nat × Nat)} (hne : cellAt row col ≠ "")
      (hempty : ∀ c ∈ cols, cellAt row c.1 = "") :
      Placed row ((col, start) :: cols) (cellAt row col).toList
  | next {col start next stop : Nat} {cols : List (Nat × Nat)} {gap line : List Char}
      (hne : gap ≠ []) (hgap : ∀ c ∈ gap, c = ' ')
      (hstop : start + (cellAt row col).length + gap.length = stop)
      (h : Placed row ((next, stop) :: cols) line) :
      Placed row ((col, start) :: (next, stop) :: cols) ((cellAt row col).toList ++ gap ++ line)

variable {row cells : List String} {cols ws : List Nat} {col i : Nat} {cell : String}

theorem map_fst_starts (start : Nat) (cols ws : List Nat) :
    (starts start cols ws).map Prod.fst = cols := by
  induction cols generalizing start ws with
  | nil => rfl
  | cons col cols ih => rw [starts, List.map_cons, ih]

/-! ## Widths -/

/-- A cell that is not the last of its row asks for its own width. -/
theorem getElem?_demands (hlen : cells.length ≤ cols.length) (hi : i + 1 < cells.length)
    (hcell : cells[i]? = some cell) : (demands cols cells)[i]? = some cell.length := by
  induction cells generalizing cols i with
  | nil => cases hcell
  | cons first cells ih =>
    cases cols with
    | nil => cases hlen
    | cons col cols =>
      rw [List.length_cons] at hlen hi
      rw [demands]
      cases i with
      | zero =>
        cases hcell
        have hrest : cells ≠ [] := by
          rintro rfl
          simp at hi
        simp [hrest]
      | succ i => exact ih (Nat.le_of_succ_le_succ hlen) (by omega) hcell

/-- Every cell that is filled up has a width, and is no wider. -/
theorem length_le_width {rows : List (List String)} (hrow : row ∈ rows)
    (hi : i + 1 < (Columns.cells (kept rows) row).length)
    (hcell : (Columns.cells (kept rows) row)[i]? = some cell) :
    ∃ w, (widths rows)[i]? = some w ∧ cell.length ≤ w :=
  le_widths hrow (getElem?_demands (length_cells_le _ _) hi hcell)

/-! ## The cells of a row -/

theorem cells_of_empty (h : ∀ c ∈ cols, cellAt row c = "") :
    Columns.cells (col :: cols) row = [cellAt row col] := by
  have hall : (cols.map fun c => row[c]?.getD "").reverse.dropWhile String.isEmpty = [] := by
    rw [List.dropWhile_eq_nil_iff]
    intro cell hcell
    obtain ⟨c, hc, rfl⟩ := List.mem_map.mp (List.mem_reverse.mp hcell)
    exact String.isEmpty_iff.mpr (h c hc)
  rw [Columns.cells, List.map_cons]
  dsimp only
  rw [hall]
  rfl

theorem cells_cons (h : ∃ c ∈ cols, cellAt row c ≠ "") :
    Columns.cells (col :: cols) row = cellAt row col :: Columns.cells cols row := by
  cases cols with
  | nil => simp at h
  | cons next cols =>
    rw [Columns.cells, Columns.cells, List.map_cons, List.map_cons]
    dsimp only
    rw [List.reverse_cons, List.dropWhile_append]
    split
    · rename_i hempty
      have hnil := List.dropWhile_eq_nil_iff.mp (List.isEmpty_iff.mp hempty)
      have hnext : ¬(row[next]?.getD "").isEmpty = true := by
        intro he
        obtain ⟨c, hc, hne⟩ := h
        rcases List.mem_cons.mp hc with rfl | hc
        · exact hne (String.isEmpty_iff.mp he)
        · have hc := hnil _ (List.mem_reverse.mpr (List.mem_map_of_mem hc))
          exact hne (String.isEmpty_iff.mp hc)
      rw [List.isEmpty_iff.mp hempty, List.dropWhile_cons_of_neg hnext]
      rfl
    · rw [List.reverse_append]
      rfl

/-! ## Lines -/

/-- Without a cell behind it, a cell is the last of its line. -/
theorem placed_last (start : Nat) (hne : cellAt row col ≠ "") (h : ∀ c ∈ cols, cellAt row c = "") :
    Placed row (starts start (col :: cols) ws)
      (line ws (Columns.cells (col :: cols) row)).toList := by
  have hline : line ws [cellAt row col] = cellAt row col := by cases ws <;> rfl
  rw [cells_of_empty h, hline]
  refine .last hne fun c hc => h c.1 ?_
  have := List.mem_map_of_mem (f := Prod.fst) hc
  rwa [map_fst_starts] at this

/-- Cells that are no wider than their columns begin where the columns do. -/
theorem placed_line (start : Nat) (hne : ∃ c ∈ col :: cols, cellAt row c ≠ "")
    (hw : ∀ i cell, i + 1 < (Columns.cells (col :: cols) row).length →
      (Columns.cells (col :: cols) row)[i]? = some cell → ∃ w, ws[i]? = some w ∧ cell.length ≤ w) :
    Placed row (starts start (col :: cols) ws)
      (line ws (Columns.cells (col :: cols) row)).toList := by
  induction cols generalizing col ws start with
  | nil => exact placed_last start (by simpa using hne) (by simp)
  | cons next cols ih =>
    by_cases h : ∃ c ∈ next :: cols, cellAt row c ≠ ""
    · obtain ⟨second, rest, hrest⟩ :
          ∃ second rest, Columns.cells (next :: cols) row = second :: rest := ⟨_, _, rfl⟩
      rw [cells_cons h] at hw ⊢
      obtain ⟨w, hget, hle⟩ := hw 0 _ (by simp [hrest]) rfl
      obtain ⟨ws, rfl⟩ : ∃ ws', ws = w :: ws' := by
        cases ws with
        | nil => cases hget
        | cons _ ws =>
          cases hget
          exact ⟨ws, rfl⟩
      have hplaced := ih (start + w + 1) h fun i cell hi hcell =>
        hw (i + 1) cell (by simpa using hi) hcell
      have hgap : ("".pushn ' ' (w - (cellAt row col).length + 1)).toList =
          List.replicate (w - (cellAt row col).length + 1) ' ' := by
        rw [toList_pushn]
        rfl
      rw [hrest] at hplaced ⊢
      rw [line, String.toList_append, String.toList_append, hgap]
      refine .next (List.cons_ne_nil _ _) (fun c hc => List.eq_of_mem_replicate hc) ?_ hplaced
      rw [List.length_replicate]
      show start + _ + _ = start + w + 1
      omega
    · have hempty : ∀ c ∈ next :: cols, cellAt row c = "" := fun c hc =>
        Classical.byContradiction fun hc' => h ⟨c, hc, hc'⟩
      refine placed_last start ?_ hempty
      obtain ⟨c, hc, hne⟩ := hne
      rcases List.mem_cons.mp hc with rfl | hc
      · exact hne
      · exact absurd (hempty c hc) hne

/-! ## Columns -/

/-- The row has a cell that is not empty in a column or behind it. -/
def Reaches (row : List String) (col : Nat) : Prop :=
  ∃ c, col ≤ c ∧ cellAt row c ≠ ""

theorem mem_kept {rows : List (List String)} (hrow : row ∈ rows) (hlen : row.length = 4)
    (hne : cellAt row col ≠ "") : col ∈ kept rows := by
  have hlt : col < 4 := by
    refine Nat.lt_of_not_le fun hle => hne ?_
    rw [cellAt, List.getElem?_eq_none (by omega)]
    rfl
  refine List.mem_filter.mpr ⟨List.mem_range.mpr hlt, List.any_eq_true.mpr ⟨row, hrow, ?_⟩⟩
  simpa [cellAt] using hne

theorem kept_pairwise (rows : List (List String)) : (kept rows).Pairwise (· < ·) :=
  List.pairwise_lt_range.filter _

theorem Placed.ends {places : List (Nat × Nat)} {line : List Char} (h : Placed row places line) :
    ∃ col front, cellAt row col ≠ "" ∧ line = front ++ (cellAt row col).toList := by
  induction h with
  | last hne => exact ⟨_, [], hne, rfl⟩
  | next _ _ _ _ ih =>
    obtain ⟨col, front, hne, rfl⟩ := ih
    exact ⟨col, _, hne, (List.append_assoc _ _ _).symm⟩

/-- A column that a line comes to begins at its place, as far from the start of the first as the
places say. -/
theorem Placed.reached {places : List (Nat × Nat)} {line : List Char} (h : Placed row places line)
    (hsorted : (places.map Prod.fst).Pairwise (· < ·))
    (hkept : ∀ c, (places.headD (0, 0)).1 ≤ c → cellAt row c ≠ "" → c ∈ places.map Prod.fst)
    {col start : Nat} (hmem : (col, start) ∈ places) (hreach : Reaches row col) :
    ∃ before after, line = before ++ (cellAt row col).toList ++ after ∧
      (places.headD (0, 0)).2 + before.length = start := by
  induction h with
  | @last first base rest hne hempty =>
    rcases List.mem_cons.mp hmem with he | hmem
    · cases he
      exact ⟨[], [], by simp, rfl⟩
    · obtain ⟨c, hle, hc⟩ := hreach
      have hlt : first < c := Nat.lt_of_lt_of_le
        (List.rel_of_pairwise_cons hsorted (List.mem_map_of_mem hmem)) hle
      have hkept := List.mem_cons.mp (hkept c (Nat.le_of_lt hlt) hc)
      obtain ⟨p, hp, rfl⟩ := List.mem_map.mp (hkept.resolve_left (Nat.ne_of_gt hlt))
      exact absurd (hempty p hp) hc
  | @next first base second stop rest gap line hne hgap hstop h ih =>
    rcases List.mem_cons.mp hmem with he | hmem
    · cases he
      exact ⟨[], gap ++ line, by simp, rfl⟩
    · obtain ⟨hall, hsorted⟩ := List.pairwise_cons.mp hsorted
      have hrest (c : Nat) (hle : second ≤ c) (hc : cellAt row c ≠ "") :
          c ∈ ((second, stop) :: rest).map Prod.fst := by
        have hlt : first < c := Nat.lt_of_lt_of_le (hall second List.mem_cons_self) hle
        have hkept := List.mem_cons.mp (hkept c (Nat.le_of_lt hlt) hc)
        exact hkept.resolve_left (Nat.ne_of_gt hlt)
      obtain ⟨before, after, rfl, hbefore⟩ := ih hsorted hrest hmem
      refine ⟨(cellAt row first).toList ++ gap ++ before, after, by simp, ?_⟩
      simp only [List.headD_cons, List.length_append, String.length_toList] at hbefore ⊢
      omega

theorem kept_eq_cons {rows : List (List String)} (hrow : row ∈ rows) (hne : cellAt row 0 ≠ "") :
    ∃ cols, kept rows = 0 :: cols := by
  refine ⟨_, List.filter_cons_of_pos (l := [1, 2, 3]) (List.any_eq_true.mpr ⟨row, hrow, ?_⟩)⟩
  simpa [cellAt] using hne

theorem placed_row {rows : List (List String)} (hrow : row ∈ rows) (hne : cellAt row 0 ≠ "") :
    Placed row (starts 0 (kept rows) (widths rows))
      (line (widths rows) (Columns.cells (kept rows) row)).toList := by
  have hw := fun i cell => @length_le_width row i cell rows hrow
  obtain ⟨cols, hcols⟩ := kept_eq_cons hrow hne
  rw [hcols] at hw ⊢
  exact placed_line 0 ⟨0, List.mem_cons_self, hne⟩ hw

/-- The cells of a row on its line: each where its column begins, in all lines alike, and no space
behind the last of them. -/
structure Laid (places : List (Nat × Nat)) (row : List String) (line : List Char) : Prop where
  placed : Placed row places line
  ends : ∃ col front, cellAt row col ≠ "" ∧ line = front ++ (cellAt row col).toList
  begins : ∀ col start, (col, start) ∈ places → Reaches row col → ∃ front back,
    line = front ++ (cellAt row col).toList ++ back ∧ front.length = start

theorem laid_row {rows : List (List String)} (hrow : row ∈ rows) (hlen : row.length = 4)
    (hne : cellAt row 0 ≠ "") : Laid (starts 0 (kept rows) (widths rows)) row
      (line (widths rows) (Columns.cells (kept rows) row)).toList := by
  have hplaced := placed_row hrow hne
  refine ⟨hplaced, hplaced.ends, fun col start hmem hreach => ?_⟩
  obtain ⟨front, back, hline, hstart⟩ := hplaced.reached
    (by rw [map_fst_starts]; exact kept_pairwise rows)
    (fun c _ hc => by rw [map_fst_starts]; exact mem_kept hrow hlen hc) hmem hreach
  refine ⟨front, back, hline, ?_⟩
  obtain ⟨cols, hcols⟩ := kept_eq_cons hrow hne
  rw [hcols] at hstart
  simpa [starts] using hstart

/-- Rows of four cells, the first of them not empty, become one line each. The columns that are kept
stand in their order, and all cells that are not empty are in one of them; no cell that is filled up
is wider than its column. Every column begins at one place, on all lines that come to it. -/
theorem align_columns {rows : List (List String)} (hfour : ∀ row ∈ rows, row.length = 4)
    (hfirst : ∀ row ∈ rows, cellAt row 0 ≠ "") :
    (align rows).length = rows.length ∧
      align rows = rows.map (fun row => line (widths rows) (Columns.cells (kept rows) row)) ∧
      (∀ row ∈ rows, ∀ i cell, i + 1 < (Columns.cells (kept rows) row).length →
        (Columns.cells (kept rows) row)[i]? = some cell →
          ∃ w, (widths rows)[i]? = some w ∧ cell.length ≤ w) ∧
      (kept rows).Pairwise (· < ·) ∧
      (∀ row ∈ rows, ∀ col, cellAt row col ≠ "" → col ∈ kept rows) ∧
      ∃ places : List (Nat × Nat), places.map Prod.fst = kept rows ∧
        List.Forall₂ (fun row line => Laid places row line.toList) rows (align rows) := by
  refine ⟨by rw [align_eq, List.length_map], align_eq rows,
    fun row hrow i cell => length_le_width hrow, kept_pairwise rows,
    fun row hrow col => mem_kept hrow (hfour row hrow),
    starts 0 (kept rows) (widths rows), map_fst_starts _ _ _, ?_⟩
  rw [align_eq, List.forall₂_map_right_iff, List.forall₂_same]
  exact fun row hrow => laid_row hrow (hfour row hrow) (hfirst row hrow)

/-- Fields with a tag, with a comment only, with a name only, and with a tag at the end. -/
def commented : List (List String) :=
  [["ID", "int", "\x60json:\"id\"\x60", "// key"], ["Name", "string", "", "// shown"],
   ["a, b", "", "", ""], ["x", "bool", "\x60t\x60", ""]]

theorem align_columns_commented :
    (∀ row ∈ commented, row.length = 4) ∧ (∀ row ∈ commented, cellAt row 0 ≠ "") ∧
      align commented =
        ["ID   int    \x60json:\"id\"\x60 // key", "Name string             // shown", "a, b",
         "x    bool   \x60t\x60"] ∧
      ∃ places : List (Nat × Nat), places.map Prod.fst = [0, 1, 2, 3] ∧
        List.Forall₂ (fun row line => Laid places row line.toList) commented (align commented) := by
  have hfour : ∀ row ∈ commented, row.length = 4 := by decide
  have hfirst : ∀ row ∈ commented, cellAt row 0 ≠ "" := by decide
  obtain ⟨-, -, -, -, -, places, hplaces, hlaid⟩ := align_columns hfour hfirst
  exact ⟨hfour, hfirst, by decide +kernel, places, hplaces.trans (by decide), hlaid⟩

end Columns

end StructLayout
