import StructLayout.Proofs.Layout.Places
import StructLayout.Proofs.Layout.Types
import StructLayout.Strategy.Pipe

/-!
Packing leaves no gap in front of a field, and so no order of the fields is smaller, as long as the
alignments divide one another and each field ends where one of its alignment may begin.
-/

namespace StructLayout

/-- Fields as types make them. -/
def Struct.Regular (st : Struct) : Prop :=
  ∀ f ∈ st.fields, f.extent.Regular

theorem total_perm {ms ns : List Nat} (h : ms.Perm ns) : total ms = total ns := by
  induction h with
  | nil => rfl
  | cons n _ ih => rw [total_cons, total_cons, ih]
  | swap m n ns => simp only [total_cons]; omega
  | trans _ _ ih₁ ih₂ => exact ih₁.trans ih₂

/-! ## The order of a pack -/

theorem packLe_trans (a b c : Field) (hab : packLe a b) (hbc : packLe b c) : packLe a c := by
  simp only [packLe, Bool.or_eq_true, Bool.and_eq_true, decide_eq_true_eq, beq_iff_eq] at *
  omega

theorem packLe_total (a b : Field) : packLe a b || packLe b a := by
  simp only [packLe, Bool.or_eq_true, Bool.and_eq_true, decide_eq_true_eq, beq_iff_eq]
  omega

theorem align_le_of_packLe {a b : Field} (h : packLe a b) : b.align ≤ a.align := by
  simp only [packLe, Bool.or_eq_true, Bool.and_eq_true, decide_eq_true_eq, beq_iff_eq] at h
  omega

namespace Struct

variable {st other : Struct}

theorem pack_perm (st : Struct) : st.pack.fields.Perm st.fields :=
  List.mergeSort_perm _ _

theorem pack_pairwise (st : Struct) : st.pack.fields.Pairwise fun a b => packLe a b :=
  List.pairwise_mergeSort packLe_trans packLe_total _

/-- Fields of one alignment and size stay in their order. -/
theorem pack_stable (st : Struct) (align size : Nat) :
    (st.pack.fields.filter fun f => f.align == align && f.size == size) =
      st.fields.filter fun f => f.align == align && f.size == size := by
  refine filter_mergeSort packLe_trans packLe_total ?_
  refine List.pairwise_of_forall_mem_list fun a ha b hb => ?_
  have ha := (List.mem_filter.mp ha).2
  have hb := (List.mem_filter.mp hb).2
  simp only [Bool.and_eq_true, beq_iff_eq] at ha hb
  simp [packLe, ha, hb]

theorem pack_pack (st : Struct) : st.pack.pack = st.pack :=
  congrArg (fun fields => { st with fields }) (List.mergeSort_of_pairwise st.pack_pairwise)

theorem Regular.perm (h : st.Regular) (hp : other.fields.Perm st.fields) : other.Regular :=
  fun f hf => h f (hp.mem_iff.mp hf)

theorem fieldsSize_perm (h : other.fields.Perm st.fields) : other.fieldsSize = st.fieldsSize :=
  total_perm (h.map Field.size)

theorem align_perm (h : other.fields.Perm st.fields) : other.align = st.align := by
  rw [align_eq, align_eq]
  exact (h.map Field.align).foldl_eq 1

/-! ## Fields without gaps -/

/-- Fields whose alignments divide those of the fields before them, and the sizes too. -/
def Snug (fs : List Field) : Prop :=
  (∀ f ∈ fs, 0 < f.align ∧ f.align ∣ f.size) ∧ fs.Pairwise fun a b => b.align ∣ a.align

theorem Snug.of_cons {f : Field} {fs : List Field} (h : Snug (f :: fs)) : Snug fs :=
  ⟨fun g hg => h.1 g (List.mem_cons_of_mem _ hg), h.2.of_cons⟩

/-- Behind a field that stands at a multiple of its alignment, all the others may begin. -/
theorem Snug.dvd_next {f : Field} {fs : List Field} {offset : Nat} (h : Snug (f :: fs))
    (hf : f.align ∣ offset) : ∀ g ∈ fs, g.align ∣ offset + f.size := by
  intro g hg
  have hgf := (List.pairwise_cons.mp h.2).1 g hg
  exact Nat.dvd_trans hgf (Nat.dvd_add hf (h.1 f List.mem_cons_self).2)

/-- The running offset is a multiple of all alignments that are left, so that there is nothing to
round up. -/
theorem Snug.flush {fs : List Field} (h : Snug fs) {offset : Nat}
    (ho : ∀ f ∈ fs, f.align ∣ offset) : Flush offset fs := by
  induction fs generalizing offset with
  | nil => trivial
  | cons f fs ih =>
    have hf := ho f List.mem_cons_self
    have hmax : max f.align 1 = f.align := Nat.max_eq_left (h.1 f List.mem_cons_self).1
    exact ⟨hmax.symm ▸ hf, ih h.of_cons (h.dvd_next hf)⟩

theorem Regular.snug_pack (h : st.Regular) : Snug st.pack.fields := by
  have hr := h.perm st.pack_perm
  refine ⟨fun f hf => ⟨Nat.pos_of_isPowerOfTwo (hr f hf).1, (hr f hf).2⟩, ?_⟩
  refine st.pack_pairwise.imp_of_mem fun {a b} ha hb hab => ?_
  exact dvd_of_isPowerOfTwo (hr b hb).1 (hr a ha).1 (align_le_of_packLe hab)

theorem Regular.flush_pack (h : st.Regular) : Flush 0 st.pack.fields :=
  h.snug_pack.flush fun f _ => Nat.dvd_zero f.align

theorem Regular.gaps_pack (h : st.Regular) :
    ∀ g ∈ st.pack.gaps 0, g.before.isSome → g.pad = 0 :=
  h.flush_pack.pad_eq_zero 1

theorem Regular.size_pack (h : st.Regular) : st.pack.size = alignUp st.fieldsSize st.align := by
  rw [size_eq, h.flush_pack.endFrom_eq, Nat.zero_add, align_perm st.pack_perm]
  exact congrArg (alignUp · st.align) (fieldsSize_perm st.pack_perm)

theorem alignUp_fieldsSize_le (h : other.fields.Perm st.fields) :
    alignUp st.fieldsSize st.align ≤ other.size := by
  rw [size_eq, align_perm h, ← fieldsSize_perm h]
  exact alignUp_mono _ other.fieldsSize_le_end

theorem Regular.isLeast_size_pack (h : st.Regular) :
    IsLeast {n | ∃ other : Struct, other.fields.Perm st.fields ∧ other.size = n} st.pack.size := by
  refine ⟨⟨st.pack, st.pack_perm, rfl⟩, ?_⟩
  rintro n ⟨other, hp, rfl⟩
  exact h.size_pack ▸ alignUp_fieldsSize_le hp

theorem Regular.size_pack_le (h : st.Regular) : st.pack.size ≤ st.size :=
  h.isLeast_size_pack.2 ⟨st, .refl _, rfl⟩

end Struct

/-! ## The strategy -/

/-- What becomes of a structure under one strategy alone. -/
def Registry.alone (r : Registry) (name : String) (st : Struct) : Except StrategyError Struct :=
  r.pipe [name] >>= fun p => p.apply none st

@[simp] theorem Registry.alone_memory_pack (r : Registry) (st : Struct) :
    r.alone "memory_pack" st = .ok st.pack := rfl

theorem Pipe.eq_pack_of_apply {r : Registry} {p : Pipe} {st out : Struct}
    {status : Option ContextError} (hp : r.pipe ["memory_pack"] = .ok p)
    (h : p.apply status st = .ok out) : out = st.pack := by
  have hpack : r.pipe ["memory_pack"] = .ok [.transform .pack] := rfl
  cases hpack.symm.trans hp
  cases status with
  | none => cases h; rfl
  | some cause => cases h

end StructLayout
