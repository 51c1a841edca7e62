import StructLayout.Proofs.Layout.Extents
import StructLayout.Proofs.Sequence

/-!
Sizes and alignments of types on the targets. Alignments are powers of two that do not exceed the
largest one of the target, and sizes are multiples of them, however deep types are nested.
-/

namespace StructLayout

/-! ## Powers of two -/

theorem dvd_of_isPowerOfTwo {m n : Nat} (hm : m.isPowerOfTwo) (hn : n.isPowerOfTwo) (h : m ≤ n) :
    m ∣ n := by
  obtain ⟨i, rfl⟩ := hm
  obtain ⟨j, rfl⟩ := hn
  exact Nat.pow_dvd_pow 2 ((Nat.pow_le_pow_iff_right Nat.one_lt_two).mp h)

theorem isPowerOfTwo_max {m n : Nat} (hm : m.isPowerOfTwo) (hn : n.isPowerOfTwo) :
    (max m n).isPowerOfTwo := by
  rcases Nat.le_total m n with h | h
  · rwa [Nat.max_eq_right h]
  · rwa [Nat.max_eq_left h]

/-- The alignment is a power of two, and the size a multiple of it. -/
def Extent.Regular (e : Extent) : Prop :=
  e.align.isPowerOfTwo ∧ e.align ∣ e.size

/-! ## Types -/

namespace Platform

/-- The word and the largest alignment are powers of two. -/
structure Regular (p : Platform) : Prop where
  word : p.sizes.word.isPowerOfTwo
  maxAlign : p.sizes.maxAlign.isPowerOfTwo

variable {p : Platform} {compiler arch : String} {lines : List Int}

theorem sizes_of (h : Platform.of compiler arch lines = .ok p) :
    p.sizes ∈ [⟨4, 4⟩, ⟨4, 8⟩, (⟨8, 8⟩ : WordSizes)] := by
  unfold Platform.of at h
  split at h
  · cases h
  · rename_i sizes hs
    split at h
    · cases h
    · cases h
      have hm := mem_of_lookup hs
      have hall : ∀ e ∈ WordSizes.gc ++ WordSizes.gccgo,
          e.2 ∈ [⟨4, 4⟩, ⟨4, 8⟩, (⟨8, 8⟩ : WordSizes)] := by decide
      refine hall (arch, sizes) (List.mem_append.mpr ?_)
      unfold WordSizes.targets at hm
      split at hm
      · exact .inl hm
      · exact .inr hm
      · cases hm

/-- All targets are like that. -/
theorem regular_of (h : Platform.of compiler arch lines = .ok p) : p.Regular := by
  have hsizes := sizes_of h
  have h4 : (4 : Nat).isPowerOfTwo := ⟨2, rfl⟩
  have h8 : (8 : Nat).isPowerOfTwo := ⟨3, rfl⟩
  simp only [List.mem_cons, List.not_mem_nil, or_false] at hsizes
  rcases hsizes with hs | hs | hs
  · exact ⟨hs ▸ h4, hs ▸ h4⟩
  · exact ⟨hs ▸ h4, hs ▸ h8⟩
  · exact ⟨hs ▸ h8, hs ▸ h8⟩

theorem maxAlign_le_of (h : Platform.of compiler arch lines = .ok p) : p.sizes.maxAlign ≤ 8 := by
  have hall : ∀ s ∈ [⟨4, 4⟩, ⟨4, 8⟩, (⟨8, 8⟩ : WordSizes)], s.maxAlign ≤ 8 := by decide
  exact hall _ (sizes_of h)

/-- The limit of a power of two is one that divides it. -/
theorem Regular.limit (h : p.Regular) {align : Nat} (ha : align.isPowerOfTwo) :
    (p.limit align).isPowerOfTwo ∧ p.limit align ∣ align := by
  have hpos := Nat.pos_of_isPowerOfTwo ha
  have hmax := Nat.pos_of_isPowerOfTwo h.maxAlign
  rcases Nat.le_total align p.sizes.maxAlign with hle | hle
  · have hlimit : p.limit align = align := by unfold Platform.limit; omega
    rw [hlimit]
    exact ⟨ha, Nat.dvd_refl _⟩
  · have hlimit : p.limit align = p.sizes.maxAlign := by unfold Platform.limit; omega
    rw [hlimit]
    exact ⟨h.maxAlign, dvd_of_isPowerOfTwo h.maxAlign ha hle⟩

theorem Regular.extent_limit (h : p.Regular) {size align : Nat} (ha : align.isPowerOfTwo)
    (hs : align ∣ size) : Extent.Regular ⟨size, p.limit align⟩ :=
  ⟨(h.limit ha).1, Nat.dvd_trans (h.limit ha).2 hs⟩

theorem Regular.basic (h : p.Regular) (kind : BasicKind) :
    Extent.Regular ⟨p.basicSize kind, p.basicAlign kind⟩ := by
  cases kind with
  | bool | int8 | uint8 | byte => exact ⟨⟨0, rfl⟩, Nat.dvd_refl _⟩
  | int16 | uint16 => exact ⟨⟨1, rfl⟩, Nat.dvd_refl _⟩
  | int32 | uint32 | rune | float32 => exact ⟨⟨2, rfl⟩, Nat.dvd_refl _⟩
  | int64 | uint64 | float64 => exact ⟨⟨3, rfl⟩, Nat.dvd_refl _⟩
  | complex64 =>
    change Extent.Regular ⟨8, 8 / 2⟩
    exact ⟨⟨2, rfl⟩, by simp⟩
  | complex128 =>
    change Extent.Regular ⟨16, 16 / 2⟩
    exact ⟨⟨3, rfl⟩, by simp⟩
  | int | uint | uintptr | unsafePointer => exact ⟨h.word, Nat.dvd_refl _⟩
  | string => exact ⟨h.word, Nat.dvd_mul_left _ _⟩

mutual

/-- Every type has a size that is a multiple of its alignment, and this is a power of two. -/
theorem Regular.type (h : p.Regular) :
    (ty : Ty) → Extent.Regular ⟨p.typeSize ty, p.typeAlign ty⟩
  | .basic kind => by
    obtain ⟨ha, hs⟩ := h.basic kind
    rw [typeAlign, typeSize]
    exact h.extent_limit ha hs
  | .pointer _ | .map .. | .chan _ | .func _ | .foreign _ => by
    rw [typeAlign, typeSize]
    exact h.extent_limit h.word (Nat.dvd_refl _)
  | .interface _ | .slice _ => by
    rw [typeAlign, typeSize]
    exact h.extent_limit h.word (Nat.dvd_mul_left _ _)
  | .array 0 elem => by
    rw [typeAlign, typeSize, p.limit_typeAlign]
    exact ⟨(h.type elem).1, Nat.dvd_zero _⟩
  | .array (n + 1) elem => by
    obtain ⟨ha, hs⟩ := h.type elem
    rw [typeAlign, typeSize, p.limit_typeAlign, alignUp_of_dvd hs]
    exact ⟨ha, Nat.dvd_add (Nat.dvd_mul_right_of_dvd hs n) hs⟩
  | .struct fields => by
    rw [p.typeAlign_struct, typeSize]
    exact ⟨h.fields fields, dvd_alignUp (Nat.pos_of_isPowerOfTwo (h.fields fields)) _⟩
  | .named _ _ u => by
    rw [typeAlign, typeSize, p.limit_typeAlign]
    exact h.type u
termination_by ty => sizeOf ty

theorem Regular.fields (h : p.Regular) :
    (fs : List TyField) → (max (p.fieldsAlign fs) 1).isPowerOfTwo
  | [] => by
    rw [fieldsAlign]
    exact Nat.isPowerOfTwo_one
  | ⟨name, ty, tag, embedded, exported⟩ :: fs => by
    rw [fieldsAlign, fieldAlign, Nat.max_assoc]
    exact isPowerOfTwo_max (h.type ty).1 (h.fields fs)
termination_by fs => sizeOf fs

end

theorem Regular.typeAlign_le (h : p.Regular) (ty : Ty) : p.typeAlign ty ≤ p.sizes.maxAlign := by
  have hmax := Nat.pos_of_isPowerOfTwo h.maxAlign
  exact Nat.le_trans (p.typeAlign_le ty) (Nat.max_le.mpr ⟨Nat.le_refl _, hmax⟩)

theorem Regular.typeAlign_dvd (h : p.Regular) (ty : Ty) : p.typeAlign ty ∣ p.sizes.maxAlign :=
  dvd_of_isPowerOfTwo (h.type ty).1 h.maxAlign (h.typeAlign_le ty)

/-- As the size of an element is a multiple of its alignment, the next one follows at once. -/
theorem Regular.typeSize_array (h : p.Regular) (n : Nat) (ty : Ty) :
    p.typeSize (.array n ty) = n * p.typeSize ty := by
  cases n with
  | zero => rw [typeSize, Nat.zero_mul]
  | succ n => rw [typeSize, alignUp_of_dvd (h.type ty).2, Nat.succ_mul, Nat.mul_comm]

/-- Complex numbers behind bytes in an array, an empty array and an empty struct, and a string. -/
def deepType : Ty :=
  let field := fun name ty => { name, ty, tag := "", embedded := false, exported := false }
  let pair := Ty.struct [field "x" (.basic .int8), field "y" (.basic .complex128)]
  .named "T" 9 (.struct [field "a" (.array 3 pair), field "b" (.array 0 (.basic .int64)),
    field "c" (.struct []), field "d" (.basic .string)])

end Platform

/-! ## Fields of types -/

section

variable {p : Platform} {own : Option Nat} {f : TyField}

theorem TyField.align_toField (p : Platform) (own : Option Nat) (f : TyField) :
    (f.toField p own).align = p.typeAlign f.ty := by
  have halign : (f.toField p own).align = max (p.extent f.ty).align 1 := rfl
  rw [halign, p.extent_eq, p.max_typeAlign]

/-- A field is regular if its size is, wherever it comes from. -/
theorem TyField.regular_toField (h : p.Regular)
    (hs : (f.toField p own).align ∣ (f.toField p own).size) :
    (f.toField p own).extent.Regular := by
  have halign : (f.toField p own).extent.align = p.typeAlign f.ty := f.align_toField p own
  exact ⟨halign ▸ (h.type f.ty).1, hs⟩

theorem Struct.mem_ofType {name : String} {sizes : List (Option Nat)} {fields : List TyField}
    {g : Field} (hg : g ∈ (Struct.ofType p name sizes fields).fields) :
    ∃ f own, g = TyField.toField p own f := by
  obtain ⟨i, hi, rfl⟩ := List.getElem_of_mem hg
  exact ⟨_, _, List.getElem_zipWith ..⟩

end

end StructLayout
