import StructLayout.Proofs.Strategy.Gaps

/-!
Fields that each begin a cache line. The paddings behind the fields are made of their sizes alone, and
yet no gap is left for alignment: every field ends up at a multiple of the line, and so at one of its
own alignment, and no two of them have bytes in one line.
-/

namespace StructLayout

theorem Registry.stage_false_sharing_bytes (r : Registry) (names : List String) {n : Nat}
    (h : n < Text.wordBound) : r.stage names ("false_sharing_bytes_" ++ toString n) =
      .ok (.transform (.falseSharing n)) :=
  r.stage_bytes names (.head _) h

/-- Some byte of the one field and some byte of the other are in the same line. -/
def PlacedField.ShareLine (line : Nat) (p q : PlacedField) : Prop :=
  ∃ a b, p.offset ≤ a ∧ a < p.stop ∧ q.offset ≤ b ∧ b < q.stop ∧ a / line = b / line

namespace Struct

variable {fs : List Field} {line offset : Nat}

/-- Every field in front of as many whole lines as it has bytes for. -/
def linePlaces (line offset : Nat) : List Field → List PlacedField
  | [] => []
  | f :: fs => ⟨offset, f⟩ :: linePlaces line (offset + alignUp f.size line) fs

theorem map_field_linePlaces (line offset : Nat) (fs : List Field) :
    (linePlaces line offset fs).map PlacedField.field = fs := by
  induction fs generalizing offset with
  | nil => rfl
  | cons f fs ih => rw [linePlaces, List.map_cons, ih]

theorem le_offset_of_linePlaces : ∀ p ∈ linePlaces line offset fs, offset ≤ p.offset := by
  induction fs generalizing offset with
  | nil => exact List.forall_mem_nil _
  | cons f fs ih =>
    refine List.forall_mem_cons.mpr ⟨Nat.le_refl _, fun p hp => ?_⟩
    exact Nat.le_trans (Nat.le_add_right _ _) (ih p hp)

theorem dvd_offset_of_linePlaces (hpos : 0 < line) (ho : line ∣ offset) :
    ∀ p ∈ linePlaces line offset fs, line ∣ p.offset := by
  induction fs generalizing offset with
  | nil => exact List.forall_mem_nil _
  | cons f fs ih =>
    have hnext : line ∣ offset + alignUp f.size line := Nat.dvd_add ho (dvd_alignUp hpos f.size)
    exact List.forall_mem_cons.mpr ⟨ho, ih hnext⟩

/-- Between fields that are apart at a multiple of the line, a line ends. -/
theorem not_shareLine {p q : PlacedField} {edge : Nat} (hpos : 0 < line) (he : line ∣ edge)
    (hp : p.stop ≤ edge) (hq : edge ≤ q.offset) : ¬ p.ShareLine line q := by
  rintro ⟨a, b, -, ha, hb, -, hline⟩
  obtain ⟨k, rfl⟩ := he
  have hbefore : a / line < k := Nat.div_lt_of_lt_mul (by omega)
  have hbehind : k ≤ b / line := (Nat.le_div_iff_mul_le hpos).mpr (by rw [Nat.mul_comm]; omega)
  omega

theorem linePlaces_apart (hpos : 0 < line) (ho : line ∣ offset) :
    (linePlaces line offset fs).Pairwise fun p q => ¬ p.ShareLine line q := by
  induction fs generalizing offset with
  | nil => exact .nil
  | cons f fs ih =>
    have hnext : line ∣ offset + alignUp f.size line := Nat.dvd_add ho (dvd_alignUp hpos f.size)
    refine List.pairwise_cons.mpr ⟨fun q hq => ?_, ih hnext⟩
    have hstop : offset + f.size ≤ offset + alignUp f.size line :=
      Nat.add_le_add_left (le_alignUp _ _) _
    exact not_shareLine hpos hnext hstop (le_offset_of_linePlaces q hq)

/-- A field and its padding fill whole lines, so that each field stands at the start of one, where
its alignment allows it to stand. -/
theorem filled_padFields (hpos : 0 < line) (hle : line ≤ Nat.pow 2 63) (ho : line ∣ offset)
    (h : ∀ f ∈ fs, f.align ∣ line) :
    ∃ stop, Filled (linePlaces line offset fs) offset stop
      (fs.flatMap fun f => f :: remainderPad f.size line) := by
  induction fs generalizing offset with
  | nil => exact ⟨offset, .nil offset⟩
  | cons f fs ih =>
    obtain ⟨hf, hfs⟩ := List.forall_mem_cons.mp h
    have hnext : line ∣ offset + alignUp f.size line := Nat.dvd_add ho (dvd_alignUp hpos f.size)
    obtain ⟨stop, hrest⟩ := ih hnext hfs
    -- no gap stands in front of the field: its alignment divides the line, which divides the offset
    have hmax : max f.align 1 = f.align := Nat.max_eq_left (Nat.pos_of_dvd_of_pos hf hpos)
    have hstart : max f.align 1 ∣ offset := hmax.symm ▸ Nat.dvd_trans hf ho
    have hfill := filled_fill (offset + f.size) (alignUp f.size line - f.size)
    rw [Nat.add_assoc, Nat.add_sub_of_le (le_alignUp f.size line), ← remainderPad_eq hpos hle]
      at hfill
    exact ⟨stop, .keep f hstart (hfill.append hrest)⟩

/-- A field without bytes, one that is longer than a line, a padding, and one that fills a line. -/
def spread : Struct where
  name := "T"
  fields := [{ name := "a", align := 8 }, { name := "b", size := 30, align := 3 }, .pad 5,
    { name := "c", size := 24, align := 4 }, { name := "d", size := 1, align := 24 }]

end Struct

end StructLayout
