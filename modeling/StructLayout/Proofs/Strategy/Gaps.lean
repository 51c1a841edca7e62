import StructLayout.Proofs.Layout.Places
import StructLayout.Proofs.Layout.Types
import StructLayout.Proofs.Strategy.Packing
import StructLayout.Proofs.Strategy.RealFields

/-!
Gaps made explicit. With a padding in the place of every gap the fields stand where they stood, each
right behind the one before, and a second time there is nothing to fill.
-/

namespace StructLayout

/-! ## Paddings between fields -/

/-- The second list is the first one with paddings put in. -/
inductive PlacedField.Padded : List PlacedField → List PlacedField → Prop
  | nil : Padded [] []
  | keep {fs gs} (f : PlacedField) : Padded fs gs → Padded (f :: fs) (f :: gs)
  | insert {fs gs} (offset size : Nat) : Padded fs gs → Padded fs (⟨offset, .pad size⟩ :: gs)

/-- The last list lies between two offsets without a gap, and is made of the placed fields, which
stand at their places in it, and of paddings. -/
inductive Filled : List PlacedField → Nat → Nat → List Field → Prop
  | nil (offset : Nat) : Filled [] offset offset []
  | keep {ps offset stop out} (f : Field) : max f.align 1 ∣ offset →
      Filled ps (offset + f.size) stop out → Filled (⟨offset, f⟩ :: ps) offset stop (f :: out)
  | pad {ps offset stop out} (n : Nat) :
      Filled ps (offset + n) stop out → Filled ps offset stop (.pad n :: out)

namespace Filled

variable {ps qs : List PlacedField} {offset middle stop : Nat} {fs out more : List Field}

theorem append (h : Filled ps offset middle out) (hm : Filled qs middle stop more) :
    Filled (ps ++ qs) offset stop (out ++ more) := by
  induction h with
  | nil => exact hm
  | keep f hf _ ih => exact .keep f hf (ih hm)
  | pad n _ ih => exact .pad n (ih hm)

theorem flush (h : Filled ps offset stop out) : Struct.Flush offset out := by
  induction h with
  | nil => trivial
  | keep f hf _ ih => exact ⟨hf, ih⟩
  | pad n _ ih => exact ⟨Nat.one_dvd _, ih⟩

theorem add_total (h : Filled ps offset stop out) : offset + total (out.map Field.size) = stop := by
  induction h with
  | nil => rfl
  | keep f _ _ ih => rw [List.map_cons, total_cons, ← Nat.add_assoc, ih]
  | pad n _ ih =>
    rw [List.map_cons, total_cons, ← Nat.add_assoc]
    exact ih

theorem endFrom_eq (h : Filled ps offset stop out) : Struct.endFrom offset out = stop := by
  rw [h.flush.endFrom_eq, h.add_total]

theorem padded (h : Filled ps offset stop out) :
    PlacedField.Padded ps (Struct.places offset out) := by
  induction h with
  | nil => exact .nil
  | keep f hf _ ih =>
    rw [Struct.places, alignUp_of_dvd hf]
    exact .keep _ ih
  | @pad ps offset stop out n _ ih =>
    have hoffset : alignUp offset 1 = offset := alignUp_of_dvd (Nat.one_dvd _)
    simpa [Struct.places, Field.pad, hoffset] using ih.insert offset n

/-- Paddings do not raise the alignment. -/
theorem foldl_align (h : Filled ps offset stop out) {align : Nat} (ha : 1 ≤ align) :
    out.foldl (fun a f => max a f.align) align =
      (ps.map PlacedField.field).foldl (fun a f => max a f.align) align := by
  induction h generalizing align with
  | nil => rfl
  | keep f _ _ ih => exact ih (Nat.le_trans ha (Nat.le_max_left _ _))
  | pad n _ ih =>
    have hmax : max align (Field.pad n).align = align := Nat.max_eq_left ha
    rw [List.foldl_cons, hmax, ih ha]

theorem alignIn_eq (h : Filled ps offset stop out) {system : Nat}
    (hs : ∀ p ∈ ps, Struct.alignIn system p.field = p.field.align) :
    ∀ f ∈ out, Struct.alignIn system f = f.align := by
  induction h with
  | nil => simp
  | keep f _ _ ih =>
    obtain ⟨hf, hps⟩ := List.forall_mem_cons.mp hs
    exact List.forall_mem_cons.mpr ⟨hf, ih hps⟩
  | pad n _ ih =>
    refine List.forall_mem_cons.mpr ⟨?_, ih hs⟩
    simp only [Struct.alignIn, Field.pad]
    split <;> omega

end Filled

/-! ## Gaps -/

/-- A padding of some bytes, or none. -/
def Field.fill (n : Nat) : List Field :=
  if n = 0 then [] else [.pad n]

theorem filled_fill (offset n : Nat) : Filled [] offset (offset + n) (Field.fill n) := by
  unfold Field.fill
  split
  · subst n
    exact .nil offset
  · exact .pad n (.nil _)

/-- What is missing to the next multiple of a line, if it can be counted. -/
theorem remainderPad_eq {line : Nat} (hpos : 0 < line) (hle : line ≤ Nat.pow 2 63) (size : Nat) :
    remainderPad size line = Field.fill (alignUp size line - size) := by
  by_cases hd : line ∣ size
  · rw [alignUp_of_dvd hd, Nat.sub_self, remainderPad, if_pos (.inr (Nat.mod_eq_zero_of_dvd hd))]
    rfl
  · have hpad := alignUp_sub_of_not_dvd hpos hd
    have hrest : 0 < size % line := Nat.emod_pos_of_not_dvd hd
    have hlt := Nat.mod_lt size hpos
    rw [remainderPad, if_neg (by omega), hpad, signedBytes_of_lt (by omega), Field.fill,
      if_neg (by omega)]

namespace Struct

variable {fs : List Field} {system offset align : Nat}

theorem map_field_places (offset : Nat) (fs : List Field) :
    (places offset fs).map PlacedField.field = fs := by
  induction fs generalizing offset with
  | nil => rfl
  | cons f fs ih => simp [places, ih]

theorem explicit_eq {g : Gap} (h : g.pad < Nat.pow 2 63) :
    g.explicit = Field.fill g.pad ++ g.before.toList := by
  rw [Gap.explicit, Field.fill, signedBytes_of_lt h]

/-- Filling leaves every field at its place, and no gap. The system alignment must not pull a field
to a place that its own alignment does not allow. -/
theorem filled_explicit (hs : ∀ f ∈ fs, alignIn system f = f.align)
    (hp : ∀ g ∈ gapsFrom system offset align fs, g.pad < Nat.pow 2 63) :
    Filled (places offset fs) offset (alignUp (endFrom offset fs) (tailIn system align fs))
      ((gapsFrom system offset align fs).flatMap Gap.explicit) := by
  induction fs generalizing offset align with
  | nil =>
    have hn := List.forall_mem_singleton.mp hp
    have hend := Nat.add_sub_of_le (le_alignUp offset (tailIn system align []))
    have hfill := filled_fill offset (alignUp offset (tailIn system align []) - offset)
    rw [hend] at hfill
    rw [gapsFrom, List.flatMap_singleton, explicit_eq hn, Option.toList_none, List.append_nil]
    exact hfill
  | cons f fs ih =>
    obtain ⟨hf, hfs⟩ := List.forall_mem_cons.mp hs
    rw [gapsFrom, hf] at hp ⊢
    obtain ⟨hn, hp⟩ := List.forall_mem_cons.mp hp
    have hstart := Nat.add_sub_of_le (le_alignUp offset (max f.align 1))
    have hfill := filled_fill offset (alignUp offset (max f.align 1) - offset)
    rw [hstart] at hfill
    rw [List.flatMap_cons, explicit_eq hn, List.append_assoc]
    exact hfill.append (.keep f (dvd_alignUp (by omega) offset) (ih hfs hp))

theorem padGaps_eq (system : Option Nat) (st : Struct) : st.padGaps system =
    { st with fields := (st.gaps (system.getD 0)).flatMap Gap.explicit } := by
  unfold padGaps
  split
  · rename_i he
    have hzero (a : Nat) : alignUp 0 a = 0 := alignUp_of_dvd (Nat.dvd_zero a)
    obtain ⟨name, doc, comment, fields⟩ := st
    obtain rfl : fields = [] := List.isEmpty_iff.mp he
    simp [gaps, gapsFrom, Gap.explicit, hzero]
  · rfl

theorem padGaps_of_flush {system : Option Nat} {st : Struct} (h : Flush 0 st.fields)
    (hs : ∀ f ∈ st.fields, alignIn (system.getD 0) f = f.align)
    (hd : tailIn (system.getD 0) 1 st.fields ∣ endFrom 0 st.fields) : st.padGaps system = st := by
  have hnone : Gap.explicit ⟨0, none⟩ = [] := rfl
  have hsome (f : Field) : Gap.explicit ⟨0, some f⟩ = [f] := rfl
  rw [padGaps_eq, gaps, h.gapsFrom_of_dvd hs hd]
  simp [hnone, hsome, List.flatMap_map]

/-- What a structure gets by paddings that leave no gap. -/
structure Explicit (stop : Nat) (st out : Struct) : Prop where
  rest : out = { st with fields := out.fields }
  filled : Filled (places 0 st.fields) 0 stop out.fields
  dvd : st.align ∣ stop

namespace Explicit

variable {stop : Nat} {st out : Struct}

theorem padded (h : Explicit stop st out) (id : String) :
    PlacedField.Padded (Layout.ofStruct id st).fields (Layout.ofStruct id out).fields := by
  rw [places_ofStruct, places_ofStruct]
  exact h.filled.padded

theorem align_eq (h : Explicit stop st out) : out.align = st.align := by
  have hfold := h.filled.foldl_align (Nat.le_refl 1)
  rwa [map_field_places] at hfold

theorem fieldsSize_eq (h : Explicit stop st out) : out.fieldsSize = stop := by
  have htotal := h.filled.add_total
  rwa [Nat.zero_add] at htotal

theorem size_eq (h : Explicit stop st out) : out.size = stop := by
  rw [Struct.size_eq, h.filled.endFrom_eq, h.align_eq, alignUp_of_dvd h.dvd]

theorem pad_eq_zero (h : Explicit stop st out) : ∀ g ∈ out.gaps 0, g.pad = 0 := by
  have htail : tailIn 0 1 out.fields = st.align := h.align_eq
  have hd : tailIn 0 1 out.fields ∣ endFrom 0 out.fields := by
    rw [h.filled.endFrom_eq, htail]
    exact h.dvd
  rw [Struct.gaps, h.filled.flush.gapsFrom_of_dvd (fun f _ => alignIn_zero f) hd]
  simp +contextual [or_imp]

theorem round {line : Nat} (h : Explicit stop st out) (hline : 0 < line)
    (hle : line ≤ Nat.pow 2 63) (hd : st.align ∣ line) :
    Explicit (alignUp stop line) st (out.roundToLine line) := by
  have hfilled := h.filled.append (filled_fill stop (alignUp stop line - stop))
  rw [List.append_nil, Nat.add_sub_of_le (le_alignUp stop line)] at hfilled
  refine ⟨?_, ?_, Nat.dvd_trans hd (dvd_alignUp hline stop)⟩
  · rw [roundToLine, h.rest]
  · rw [roundToLine, h.fieldsSize_eq, remainderPad_eq hline hle]
    exact hfilled

end Explicit

/-! ## Filling all gaps -/

/-- With this system alignment the fields stand as they do at their own alignments, the tail is
rounded up to a multiple of all of these, and gaps can be counted. -/
structure Suits (system : Nat) (st : Struct) : Prop where
  alignIn : ∀ f ∈ st.fields, alignIn system f = f.align
  align_dvd : st.align ∣ tailIn system 1 st.fields
  align_le : ∀ f ∈ st.fields, f.align ≤ Nat.pow 2 63
  system_le : system ≤ Nat.pow 2 63

theorem suits_zero {st : Struct} (h : ∀ f ∈ st.fields, f.align ≤ Nat.pow 2 63) : Suits 0 st where
  alignIn _ _ := rfl
  align_dvd := Nat.dvd_refl _
  align_le := h
  system_le := Nat.zero_le _

theorem suits_of_dvd {st : Struct} (hpos : 0 < system) (hle : system ≤ Nat.pow 2 63)
    (h : ∀ f ∈ st.fields, f.align ∣ system) : Suits system st where
  alignIn f hf := by
    rw [Struct.alignIn, if_neg (by omega), Nat.min_eq_left (Nat.le_of_dvd hpos (h f hf))]
  align_dvd := by
    rw [tailIn_of_pos hpos]
    exact foldl_align (· ∣ system) (Nat.one_dvd system) h
  align_le f hf := Nat.le_trans (Nat.le_of_dvd hpos (h f hf)) hle
  system_le := hle

theorem Suits.align_dvd_of_pos {st : Struct} (h : Suits system st) (hpos : 0 < system) :
    st.align ∣ system := by
  rw [← tailIn_of_pos hpos 1 st.fields]
  exact h.align_dvd

section

variable (mode : Option Nat) {st : Struct} (h : Suits (mode.getD 0) st)

include h

theorem explicit_padGaps :
    Explicit (alignUp (endFrom 0 st.fields) (tailIn (mode.getD 0) 1 st.fields)) st
      (st.padGaps mode) := by
  have hp : ∀ g ∈ st.gaps (mode.getD 0), g.pad < Nat.pow 2 63 :=
    pad_lt_of_gapsFrom Nat.one_pos (by decide) h.system_le h.align_le
  have hpos : 0 < tailIn (mode.getD 0) 1 st.fields := tailIn_pos Nat.one_pos st.fields
  rw [padGaps_eq]
  exact ⟨rfl, filled_explicit h.alignIn hp, Nat.dvd_trans h.align_dvd (dvd_alignUp hpos _)⟩

theorem padGaps_padGaps : (st.padGaps mode).padGaps mode = st.padGaps mode := by
  have he := explicit_padGaps mode h
  have htail : tailIn (mode.getD 0) 1 (st.padGaps mode).fields =
      tailIn (mode.getD 0) 1 st.fields := by
    unfold tailIn
    split
    · exact he.align_eq
    · rfl
  refine padGaps_of_flush he.filled.flush (he.filled.alignIn_eq ?_) ?_
  · intro p hp
    have hmem := List.mem_map_of_mem (f := PlacedField.field) hp
    rw [map_field_places] at hmem
    exact h.alignIn p.field hmem
  · rw [he.filled.endFrom_eq, htail]
    exact dvd_alignUp (tailIn_pos Nat.one_pos st.fields) _

end

end Struct

/-! ## The natural alignment -/

theorem Registry.alone_explicit_paddings_type_natural (r : Registry) (st : Struct) :
    r.alone "explicit_paddings_type_natural" st = .ok (st.padGaps none) := rfl

/-- Alignments that are no powers of two, one of them zero. -/
def Struct.uneven : Struct where
  name := "T"
  fields := [{ name := "a", size := 5 }, { name := "b", size := 3, align := 12 },
    { name := "c", size := 7, align := 6 }, { name := "d", align := 1 }]

namespace Registry

theorem stage_explicit_paddings_system_alignment {r : Registry}
    (h : 0 < r.platform.sizes.maxAlign) (names : List String) :
    r.stage names "explicit_paddings_system_alignment" =
      .ok (.transform (.padGaps (some r.platform.sizes.maxAlign))) := by
  have hstage : r.stage names "explicit_paddings_system_alignment" =
      .ok (.transform (.padGaps (some (max r.platform.sizes.maxAlign 1)))) := rfl
  rwa [Nat.max_eq_left h] at hstage

theorem stage_cache_rounding_bytes (r : Registry) (names : List String) {n : Nat}
    (h : n < Text.wordBound) : r.stage names ("cache_rounding_bytes_" ++ toString n) =
      .ok (.transform (.cacheRounding n)) :=
  r.stage_bytes names (.tail _ (.head _)) h

theorem alone_of_stage {r : Registry} {name : String} {t : Transform}
    (h : r.stage (recorded [name]) name = .ok (.transform t)) (st : Struct) :
    r.alone name st = .ok (t.apply st) := by
  simp only [alone, pipe, List.mapM_cons, List.mapM_nil, h]
  rfl

theorem pair_of_stages {r : Registry} {first second : String} {t u : Transform}
    (hfirst : r.stage (recorded [first, second]) first = .ok (.transform t))
    (hsecond : r.stage (recorded [first, second]) second = .ok (.transform u)) (st : Struct) :
    ∃ pipe, r.pipe [first, second] = .ok pipe ∧
      pipe.apply none st = .ok (u.apply (t.apply st)) := by
  refine ⟨[.transform t, .transform u], ?_, rfl⟩
  simp only [pipe, List.mapM_cons, List.mapM_nil, hfirst, hsecond]
  rfl

end Registry

namespace Struct

/-- The fields of types stand at the alignment of their platform as they stand at their own. -/
theorem suits_ofType {p : Platform} {compiler arch : String} {lines : List Int}
    (hof : Platform.of compiler arch lines = .ok p) (name : String) (sizes : List (Option Nat))
    (fields : List TyField) : Suits p.sizes.maxAlign (Struct.ofType p name sizes fields) := by
  have h := Platform.regular_of hof
  have hle := Nat.le_trans (Platform.maxAlign_le_of hof) (by decide : 8 ≤ Nat.pow 2 63)
  refine suits_of_dvd (Nat.pos_of_isPowerOfTwo h.maxAlign) hle fun f hf => ?_
  obtain ⟨g, own, rfl⟩ := Struct.mem_ofType hf
  rw [g.align_toField]
  exact h.typeAlign_dvd g.ty

theorem explicit_padGaps_some {system : Nat} {st : Struct} (h : Suits system st)
    (hpos : 0 < system) : Explicit (alignUp st.size system) st (st.padGaps (some system)) := by
  have he := explicit_padGaps (some system) h
  rwa [Option.getD_some, tailIn_of_pos hpos, ← alignUp_alignUp hpos (h.align_dvd_of_pos hpos),
    ← st.size_eq] at he

/-- A byte, a struct that is handed over with five bytes, and two bytes. -/
def ofHandedOver (p : Platform) : Struct :=
  let field := fun name ty => { name, ty, tag := "", embedded := false, exported := false }
  let held := Ty.struct [field "x" (.basic .int32), field "y" (.basic .bool)]
  Struct.ofType p "T" [none, some 5, none]
    [field "a" (.basic .bool), field "b" (.named "S" 9 held), field "c" (.basic .uint16)]

end Struct

end StructLayout
