import StructLayout.Proofs.Layout.Extents

/-!
Where fields stand, and fields of which each stands right behind the one before. These leave no gap,
except where the tail is rounded up.
-/

namespace StructLayout

namespace Struct

variable {fs : List Field} {offset align system : Nat}

/-- Fields placed from `offset` on, each at its own alignment. -/
def places (offset : Nat) : List Field → List PlacedField
  | [] => []
  | f :: fs =>
    let start := alignUp offset (max f.align 1)
    ⟨start, f⟩ :: places (start + f.size) fs

theorem placeFrom_gapsFrom (offset align : Nat) (fs : List Field) :
    placeFrom offset (gapsFrom 0 offset align fs) = places offset fs := by
  induction fs generalizing offset align with
  | nil => rfl
  | cons f fs ih =>
    have hstart : offset + (alignUp offset (max f.align 1) - offset) =
        alignUp offset (max f.align 1) := Nat.add_sub_of_le (le_alignUp _ _)
    simp only [gapsFrom, alignIn_zero, placeFrom, places, hstart, ih]

theorem places_ofStruct (id : String) (st : Struct) :
    (Layout.ofStruct id st).fields = places 0 st.fields :=
  placeFrom_gapsFrom 0 1 st.fields

/-! ## Alignments -/

theorem le_foldl_align (align : Nat) (fs : List Field) :
    align ≤ fs.foldl (fun a f => max a f.align) align := by
  induction fs generalizing align with
  | nil => exact Nat.le_refl _
  | cons f fs ih => exact Nat.le_trans (Nat.le_max_left _ _) (ih _)

/-- The largest alignment is the first one or that of a field. -/
theorem foldl_align (P : Nat → Prop) (h : P align) (hfs : ∀ f ∈ fs, P f.align) :
    P (fs.foldl (fun a f => max a f.align) align) := by
  induction fs generalizing align with
  | nil => exact h
  | cons f fs ih =>
    obtain ⟨hf, hfs⟩ := List.forall_mem_cons.mp hfs
    have hmax : P (max align f.align) := by
      rcases Nat.le_total align f.align with hle | hle
      · rwa [Nat.max_eq_right hle]
      · rwa [Nat.max_eq_left hle]
    exact ih hmax hfs

/-- The multiple that the tail is rounded up to. -/
def tailIn (system align : Nat) (fs : List Field) : Nat :=
  if system = 0 then fs.foldl (fun a f => max a f.align) align else system

theorem tailIn_of_pos (h : 0 < system) (align : Nat) (fs : List Field) :
    tailIn system align fs = system :=
  if_neg (Nat.ne_of_gt h)

theorem tailIn_pos (h : 0 < align) (fs : List Field) : 0 < tailIn system align fs := by
  unfold tailIn
  split
  · exact Nat.lt_of_lt_of_le h (le_foldl_align align fs)
  · exact Nat.pos_of_ne_zero ‹_›

/-- Gaps are smaller than the alignments that they are left for. -/
theorem pad_lt_of_gapsFrom {bound : Nat} (hpos : 0 < align) (halign : align ≤ bound)
    (hsystem : system ≤ bound) (hfs : ∀ f ∈ fs, f.align ≤ bound) :
    ∀ g ∈ gapsFrom system offset align fs, g.pad < bound := by
  have gap {offset a : Nat} (ha : 0 < a) (hb : a ≤ bound) : alignUp offset a - offset < bound := by
    have hlt := alignUp_lt ha offset
    omega
  induction fs generalizing offset align with
  | nil =>
    refine List.forall_mem_singleton.mpr ?_
    dsimp only
    split
    · exact gap hpos halign
    · exact gap (Nat.pos_of_ne_zero ‹_›) hsystem
  | cons f fs ih =>
    obtain ⟨hf, hfs⟩ := List.forall_mem_cons.mp hfs
    have hin : alignIn system f ≤ f.align := by
      unfold alignIn
      split <;> omega
    refine List.forall_mem_cons.mpr ⟨gap (by omega) (by omega), ih (by omega) (by omega) hfs⟩

/-! ## Fields without gaps -/

/-- Fields that may each begin where the one before ends, the first one at `offset`. -/
def Flush (offset : Nat) : List Field → Prop
  | [] => True
  | f :: fs => max f.align 1 ∣ offset ∧ Flush (offset + f.size) fs

theorem Flush.endFrom_eq (h : Flush offset fs) :
    endFrom offset fs = offset + total (fs.map Field.size) := by
  induction fs generalizing offset with
  | nil => rfl
  | cons f fs ih =>
    rw [endFrom_cons, alignUp_of_dvd h.1, ih h.2, List.map_cons, total_cons, Nat.add_assoc]

/-- All that is left is the tail. -/
theorem Flush.gapsFrom_eq (h : Flush offset fs) (hs : ∀ f ∈ fs, alignIn system f = f.align)
    (align : Nat) : gapsFrom system offset align fs =
      fs.map (fun f => ⟨0, some f⟩) ++
        [⟨alignUp (endFrom offset fs) (tailIn system align fs) - endFrom offset fs, none⟩] := by
  induction fs generalizing offset align with
  | nil => rfl
  | cons f fs ih =>
    obtain ⟨hf, hfs⟩ := List.forall_mem_cons.mp hs
    rw [gapsFrom, hf, alignUp_of_dvd h.1, Nat.sub_self, ih h.2 hfs, endFrom_cons,
      alignUp_of_dvd h.1]
    rfl

theorem Flush.pad_eq_zero (h : Flush offset fs) (align : Nat) :
    ∀ g ∈ gapsFrom 0 offset align fs, g.before.isSome → g.pad = 0 := by
  rw [h.gapsFrom_eq fun f _ => alignIn_zero f]
  intro g hg hb
  rcases List.mem_append.mp hg with hg | hg
  · obtain ⟨f, -, rfl⟩ := List.mem_map.mp hg
    rfl
  · rw [List.mem_singleton.mp hg] at hb
    cases hb

/-- Not even the tail is left if the end need not be rounded up. -/
theorem Flush.gapsFrom_of_dvd (h : Flush offset fs) (hs : ∀ f ∈ fs, alignIn system f = f.align)
    (hd : tailIn system align fs ∣ endFrom offset fs) :
    gapsFrom system offset align fs = fs.map (fun f => ⟨0, some f⟩) ++ [⟨0, none⟩] := by
  rw [h.gapsFrom_eq hs, alignUp_of_dvd hd, Nat.sub_self]

end Struct

end StructLayout
