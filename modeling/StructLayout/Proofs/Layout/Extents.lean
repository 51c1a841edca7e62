import Mathlib.Order.Bounds.Basic
import StructLayout.Layout.Offsets
import StructLayout.Visit.Convert

/-!
Where fields end that are placed one behind the other. The size of a structure is this end rounded
up, the offsets of its layout lead to it, and for the structure of a struct type it is the end that
the size of the type is made of.
-/

namespace StructLayout

/-! ## Rounding up -/

theorem alignUp_of_dvd {offset alignment : Nat} (h : alignment ∣ offset) :
    alignUp offset alignment = offset := by
  rcases Nat.eq_zero_or_pos alignment with rfl | hpos
  · exact alignUp_zero offset
  · exact Nat.le_antisymm (alignUp_le hpos h (Nat.le_refl _)) (le_alignUp _ _)

theorem alignUp_mono {a b : Nat} (alignment : Nat) (h : a ≤ b) :
    alignUp a alignment ≤ alignUp b alignment := by
  rcases Nat.eq_zero_or_pos alignment with rfl | hpos
  · simpa using h
  · exact alignUp_le hpos (dvd_alignUp hpos b) (Nat.le_trans h (le_alignUp b _))

theorem isLeast_alignUp {alignment : Nat} (h : 0 < alignment) (offset : Nat) :
    IsLeast {n | offset ≤ n ∧ alignment ∣ n} (alignUp offset alignment) :=
  ⟨⟨le_alignUp _ _, dvd_alignUp h _⟩, fun _ hn => alignUp_le h hn.2 hn.1⟩

/-- Rounding up twice, the second time to a multiple, rounds up to the multiple. -/
theorem alignUp_alignUp {a b : Nat} (hb : 0 < b) (h : a ∣ b) (offset : Nat) :
    alignUp (alignUp offset a) b = alignUp offset b := by
  refine Nat.le_antisymm ?_ (alignUp_mono b (le_alignUp offset a))
  have ha := Nat.pos_of_dvd_of_pos h hb
  have hle := alignUp_le ha (Nat.dvd_trans h (dvd_alignUp hb offset)) (le_alignUp offset b)
  exact alignUp_le hb (dvd_alignUp hb offset) hle

/-- What is missing to the next multiple. -/
theorem alignUp_sub_of_not_dvd {offset alignment : Nat} (hpos : 0 < alignment)
    (h : ¬ alignment ∣ offset) :
    alignUp offset alignment - offset = alignment - offset % alignment := by
  have hsplit := Nat.div_add_mod offset alignment
  have hrest := Nat.emod_pos_of_not_dvd h
  have hlt := Nat.mod_lt offset hpos
  have hnext : alignment ∣ alignment * (offset / alignment) + alignment :=
    Nat.dvd_add_self_right.mpr (Nat.dvd_mul_right _ _)
  have hle := alignUp_le hpos hnext (by omega : offset ≤ _)
  have hstart := le_alignUp offset alignment
  have hge := Nat.le_of_lt_add_of_dvd (by omega) hnext (dvd_alignUp hpos offset)
  omega

/-! ## The end of fields -/

/-- What a field takes in memory. -/
def Field.extent (f : Field) : Extent :=
  ⟨f.size, f.align⟩

namespace Struct

def extent (st : Struct) : Extent :=
  ⟨st.size, st.align⟩

/-- Where fields end that are placed from `offset` on. -/
def endFrom (offset : Nat) : List Field → Nat
  | [] => offset
  | f :: fs => endFrom (alignUp offset (max f.align 1) + f.size) fs

@[simp] theorem endFrom_nil (offset : Nat) : endFrom offset [] = offset := rfl

@[simp] theorem endFrom_cons (offset : Nat) (f : Field) (fs : List Field) :
    endFrom offset (f :: fs) = endFrom (alignUp offset (max f.align 1) + f.size) fs := rfl

@[simp] theorem alignIn_zero (f : Field) : alignIn 0 f = f.align := rfl

theorem add_total_gapsFrom (offset align : Nat) (fs : List Field) :
    offset + total ((gapsFrom 0 offset align fs).map Gap.width) =
      alignUp (endFrom offset fs) (fs.foldl (fun a f => max a f.align) align) := by
  -- each width is the way from one end to the next, so the sum has only the last end left
  induction fs generalizing offset align with
  | nil =>
    have h := le_alignUp offset align
    simp only [gapsFrom, List.map_cons, List.map_nil, total_cons, total_nil, Gap.width,
      Option.map_none, Option.getD_none, if_true, endFrom_nil, List.foldl_nil]
    omega
  | cons f fs ih =>
    have h := le_alignUp offset (max f.align 1)
    rw [endFrom_cons, List.foldl_cons, ← ih]
    simp only [gapsFrom, List.map_cons, total_cons, Gap.width, alignIn_zero, Option.map_some,
      Option.getD_some]
    omega

/-- The size of a structure is the end of its fields, rounded up to its alignment. -/
theorem size_eq (st : Struct) : st.size = alignUp (endFrom 0 st.fields) st.align := by
  have h := add_total_gapsFrom 0 1 st.fields
  rwa [Nat.zero_add] at h

theorem add_total_le_endFrom (offset : Nat) (fs : List Field) :
    offset + total (fs.map Field.size) ≤ endFrom offset fs := by
  induction fs generalizing offset with
  | nil => simp
  | cons f fs ih =>
    have h := ih (alignUp offset (max f.align 1) + f.size)
    have := le_alignUp offset (max f.align 1)
    rw [List.map_cons, total_cons, endFrom_cons]
    omega

theorem fieldsSize_le_end (st : Struct) : st.fieldsSize ≤ endFrom 0 st.fields := by
  have h := add_total_le_endFrom 0 st.fields
  rwa [Nat.zero_add] at h

theorem align_eq (st : Struct) : st.align = (st.fields.map Field.align).foldl max 1 := by
  rw [List.foldl_map]
  rfl

/-! ## Sizes and alignments -/

/-- A structure in memory depends on the extents of its fields only. -/
theorem endFrom_congr {fs gs : List Field} (h : fs.map Field.extent = gs.map Field.extent)
    (offset : Nat) : endFrom offset fs = endFrom offset gs := by
  induction fs generalizing gs offset with
  | nil => rw [List.map_eq_nil_iff.mp h.symm]
  | cons f fs ih =>
    cases gs with
    | nil => cases h
    | cons g gs =>
      obtain ⟨he, hrest⟩ := List.cons.inj h
      obtain ⟨hsize, halign⟩ := Extent.mk.inj he
      rw [endFrom_cons, endFrom_cons, hsize, halign, ih hrest]

theorem align_congr {a b : Struct}
    (h : a.fields.map Field.extent = b.fields.map Field.extent) : a.align = b.align := by
  have hfold (st : Struct) :
      st.align = ((st.fields.map Field.extent).map Extent.align).foldl max 1 := by
    rw [align_eq, List.map_map]
    rfl
  rw [hfold, hfold, h]

theorem size_congr {a b : Struct}
    (h : a.fields.map Field.extent = b.fields.map Field.extent) : a.size = b.size := by
  rw [size_eq, size_eq, endFrom_congr h, align_congr h]

end Struct

/-! ## Offsets -/

namespace PlacedField

def stop (f : PlacedField) : Nat :=
  f.offset + f.field.size

/-- Fields from `start` on, each at the first multiple of its alignment behind the one before. -/
def Tight (start : Nat) : List PlacedField → Prop
  | [] => True
  | f :: fs => IsLeast {n | start ≤ n ∧ f.field.align ∣ n} f.offset ∧ Tight f.stop fs

/-- The byte behind the last field. -/
def lastStop (start : Nat) (fs : List PlacedField) : Nat :=
  (fs.getLast?.map stop).getD start

theorem lastStop_cons (start : Nat) (f : PlacedField) (fs : List PlacedField) :
    lastStop start (f :: fs) = lastStop f.stop fs := by
  cases fs with
  | nil => rfl
  | cons g gs => rw [lastStop, lastStop, List.getLast?_cons_cons, List.getLast?_cons]; rfl

namespace Tight

variable {start : Nat} {fs : List PlacedField}

theorem start_le (h : Tight start fs) : ∀ f ∈ fs, start ≤ f.offset := by
  induction fs generalizing start with
  | nil => simp
  | cons f fs ih =>
    obtain ⟨hf, hfs⟩ := h
    refine List.forall_mem_cons.mpr ⟨hf.1.1, fun g hg => ?_⟩
    calc start ≤ f.offset := hf.1.1
      _ ≤ f.stop := Nat.le_add_right _ _
      _ ≤ g.offset := ih hfs g hg

theorem pairwise (h : Tight start fs) : fs.Pairwise fun f g => f.stop ≤ g.offset := by
  induction fs generalizing start with
  | nil => exact .nil
  | cons f fs ih => exact List.pairwise_cons.mpr ⟨start_le h.2, ih h.2⟩

end Tight

end PlacedField

open PlacedField in
theorem tight_placeFrom {fs : List Field} (h : ∀ f ∈ fs, 0 < f.align) (offset align : Nat) :
    Tight offset (placeFrom offset (Struct.gapsFrom 0 offset align fs)) ∧
      lastStop offset (placeFrom offset (Struct.gapsFrom 0 offset align fs)) =
        Struct.endFrom offset fs := by
  induction fs generalizing offset align with
  | nil => exact ⟨trivial, rfl⟩
  | cons f fs ih =>
    obtain ⟨hf, hfs⟩ := List.forall_mem_cons.mp h
    have hmax : max f.align 1 = f.align := by omega
    have hstart : offset + (alignUp offset f.align - offset) = alignUp offset f.align :=
      Nat.add_sub_of_le (le_alignUp _ _)
    obtain ⟨htight, hlast⟩ := ih hfs (alignUp offset f.align + f.size) (max align f.align)
    simp only [Struct.gapsFrom, Struct.alignIn_zero, placeFrom, hmax, hstart, Tight, lastStop_cons,
      Struct.endFrom_cons]
    exact ⟨⟨isLeast_alignUp hf offset, htight⟩, hlast⟩

theorem filterMap_gapsFrom (system offset align : Nat) (fs : List Field) :
    (Struct.gapsFrom system offset align fs).filterMap Gap.before = fs := by
  induction fs generalizing offset align with
  | nil => rfl
  | cons f fs ih => simp [Struct.gapsFrom, ih]

namespace Layout

variable (id : String) {st : Struct}

theorem ofStruct_map_field : (ofStruct id st).fields.map PlacedField.field = st.fields := by
  rw [ofStruct, placeFrom_map_field, Struct.gaps, filterMap_gapsFrom]

/-- A layout in full: every field at the first offset that its alignment allows, no two of them in
one place, and nothing but the rounding behind the last one. -/
structure Fits (l : Layout) : Prop where
  tight : PlacedField.Tight 0 l.fields
  apart : l.fields.Pairwise fun f g => f.stop ≤ g.offset
  size : alignUp (PlacedField.lastStop 0 l.fields) l.align = l.size

theorem ofStruct_fits (h : ∀ f ∈ st.fields, 0 < f.align) : (ofStruct id st).Fits := by
  obtain ⟨htight, hlast⟩ := tight_placeFrom h 0 1
  refine ⟨htight, htight.pairwise, ?_⟩
  exact (congrArg (alignUp · st.align) hlast).trans st.size_eq.symm

end Layout

/-! ## Structures of struct types -/

namespace Platform

variable (p : Platform)

theorem limit_pos (align : Nat) : 0 < p.limit align := by
  unfold limit
  omega

theorem limit_le (align : Nat) : p.limit align ≤ max p.sizes.maxAlign 1 := by
  unfold limit
  omega

theorem limit_eq {align : Nat} (hpos : 0 < align) (hle : align ≤ max p.sizes.maxAlign 1) :
    p.limit align = align := by
  unfold limit
  omega

theorem limit_one : p.limit 1 = 1 :=
  p.limit_eq Nat.one_pos (Nat.le_max_right _ _)

theorem typeAlign_eq_limit (ty : Ty) : ∃ align, p.typeAlign ty = p.limit align := by
  cases ty <;> exact ⟨_, by rw [typeAlign]⟩

theorem typeAlign_pos (ty : Ty) : 0 < p.typeAlign ty := by
  obtain ⟨align, h⟩ := p.typeAlign_eq_limit ty
  exact h ▸ p.limit_pos align

theorem typeAlign_le (ty : Ty) : p.typeAlign ty ≤ max p.sizes.maxAlign 1 := by
  obtain ⟨align, h⟩ := p.typeAlign_eq_limit ty
  exact h ▸ p.limit_le align

theorem limit_typeAlign (ty : Ty) : p.limit (p.typeAlign ty) = p.typeAlign ty :=
  p.limit_eq (p.typeAlign_pos ty) (p.typeAlign_le ty)

theorem max_typeAlign (ty : Ty) : max (p.typeAlign ty) 1 = p.typeAlign ty :=
  Nat.max_eq_left (p.typeAlign_pos ty)

@[simp] theorem fieldAlign_eq (f : TyField) : p.fieldAlign f = p.typeAlign f.ty := by
  obtain ⟨name, ty, tag, embedded, exported⟩ := f
  rw [fieldAlign]

@[simp] theorem fieldEnd_eq (offset : Nat) (f : TyField) :
    p.fieldEnd offset f = alignUp offset (p.typeAlign f.ty) + p.typeSize f.ty := by
  obtain ⟨name, ty, tag, embedded, exported⟩ := f
  rw [fieldEnd]

theorem fieldsAlign_le (fs : List TyField) : p.fieldsAlign fs ≤ max p.sizes.maxAlign 1 := by
  induction fs with
  | nil => simp [fieldsAlign]
  | cons f fs ih =>
    rw [fieldsAlign, fieldAlign_eq]
    exact Nat.max_le.mpr ⟨p.typeAlign_le f.ty, ih⟩

/-- A struct type is aligned as the field that is aligned most. -/
theorem typeAlign_struct (fs : List TyField) :
    p.typeAlign (.struct fs) = max (p.fieldsAlign fs) 1 := by
  have h := p.fieldsAlign_le fs
  rw [typeAlign, limit]
  omega

theorem extent_underlying : (ty : Ty) → p.extent ty.underlying = p.extent ty
  | .named _ _ u => by
    have h := extent_underlying u
    rw [Ty.underlying, h, extent_eq, extent_eq, typeSize, typeAlign]
    rw [p.limit_typeAlign]
  | .basic _ | .pointer _ | .slice _ | .map .. | .chan _ | .func _ | .interface _ | .array ..
  | .struct _ | .foreign _ => by simp [Ty.underlying]

theorem extent_bytes (n : Nat) :
    p.typeSize (.array n (.basic .byte)) = n ∧ p.typeAlign (.array n (.basic .byte)) = 1 := by
  have hsize : p.basicSize .byte = 1 := rfl
  have halign : p.basicAlign .byte = 1 := rfl
  constructor
  · cases n with
    | zero => rw [typeSize]
    | succ n => simp [typeSize, typeAlign, hsize, halign, limit_one, alignUp]
  · simp [typeAlign, halign, limit_one]

end Platform

/-- The structure of a struct type in which every field has the size of its type. -/
def Struct.plain (p : Platform) (name : String) (fs : List TyField) : Struct :=
  .ofType p name (fs.map fun _ => none) fs

section

variable {p : Platform} {fs : List TyField}

theorem TyField.extent_toField (f : TyField) :
    (f.toField p none).extent = ⟨p.typeSize f.ty, max (p.typeAlign f.ty) 1⟩ := by
  rw [toField, p.extent_eq]
  rfl

namespace Struct

theorem plain_fields (name : String) :
    (plain p name fs).fields = fs.map (TyField.toField p none) := by
  rw [plain, ofType, List.zipWith_map_right, List.zipWith_self]

/-- Every field has the size and the alignment of its type. -/
theorem plain_extents (name : String) :
    (plain p name fs).fields.map Field.extent =
      fs.map fun f => ⟨p.typeSize f.ty, p.typeAlign f.ty⟩ := by
  rw [plain_fields, List.map_map]
  refine List.map_congr_left fun f _ => ?_
  rw [Function.comp_apply, f.extent_toField, p.max_typeAlign]

theorem endFrom_toField (offset : Nat) (fs : List TyField) :
    endFrom offset (fs.map (TyField.toField p none)) = p.fieldsEnd offset fs := by
  induction fs generalizing offset with
  | nil => rw [Platform.fieldsEnd]; rfl
  | cons f fs ih =>
    obtain ⟨hsize, halign⟩ := Extent.mk.inj (f.extent_toField (p := p))
    rw [List.map_cons, endFrom_cons, ih, hsize, halign, p.max_typeAlign, p.max_typeAlign,
      Platform.fieldsEnd, p.fieldEnd_eq]

theorem foldl_align_toField (align : Nat) (fs : List TyField) :
    (fs.map (TyField.toField p none)).foldl (fun a f => max a f.align) align =
      max align (p.fieldsAlign fs) := by
  induction fs generalizing align with
  | nil => rw [Platform.fieldsAlign, Nat.max_zero]; rfl
  | cons f fs ih =>
    obtain ⟨-, halign⟩ := Extent.mk.inj (f.extent_toField (p := p))
    rw [List.map_cons, List.foldl_cons, ih, halign, p.max_typeAlign, Platform.fieldsAlign,
      p.fieldAlign_eq, Nat.max_assoc]

/-- The structure of a struct type takes what the type takes. -/
theorem plain_extent (name : String) :
    (plain p name fs).extent = ⟨p.typeSize (.struct fs), p.typeAlign (.struct fs)⟩ := by
  have halign : (plain p name fs).align = max (p.fieldsAlign fs) 1 := by
    rw [align, plain_fields, foldl_align_toField, Nat.max_comm]
  have hsize : (plain p name fs).size = p.typeSize (.struct fs) := by
    rw [size_eq, halign, plain_fields, endFrom_toField, Platform.typeSize]
  rw [extent, hsize, halign, p.typeAlign_struct]

end Struct

end

end StructLayout
