import Mathlib.Data.Multiset.AddSub
import Mathlib.Data.Multiset.MapFold
import StructLayout.Proofs.Sequence
import StructLayout.Strategy.Pipe

/-!
The real fields of a structure under strategies. A signature holds all of a field that no strategy
may change, and the signatures of a structure are those of its real fields. Whatever a pipe does,
they shrink at most, and they stay unless a filter or `void` is at work.
-/

namespace StructLayout

/-- What a strategy leaves alone in a field. -/
structure Signature where
  name : String
  typeName : String
  size : Nat
  align : Nat
  exported : Bool
  embedded : Bool
  deriving DecidableEq, Repr

def Field.signature (f : Field) : Signature where
  name := f.name
  typeName := f.typeName
  size := f.size
  align := f.align
  exported := f.exported
  embedded := f.embedded

/-- The signatures of the fields that are no paddings. -/
def signatures (fs : List Field) : Multiset Signature :=
  ((fs.map Field.signature).filter fun s => s.name != padName : List Signature)

def Struct.signatures (st : Struct) : Multiset Signature :=
  StructLayout.signatures st.fields

@[simp] theorem signatures_append (fs gs : List Field) :
    signatures (fs ++ gs) = signatures fs + signatures gs := by
  simp [signatures]

theorem signatures_perm {fs gs : List Field} (h : fs.Perm gs) : signatures fs = signatures gs :=
  Multiset.coe_eq_coe.mpr ((h.map _).filter _)

theorem signatures_sublist {fs gs : List Field} (h : fs.Sublist gs) :
    signatures fs ≤ signatures gs :=
  Multiset.coe_le.mpr ((h.map _).filter _).subperm

/-- Changes of tags and notes are none of the signatures. -/
theorem signatures_congr {fs gs : List Field}
    (h : fs.map Field.signature = gs.map Field.signature) : signatures fs = signatures gs := by
  rw [signatures, h, signatures]

theorem mem_signatures {fs : List Field} {s : Signature} :
    s ∈ signatures fs ↔ ∃ f ∈ fs, f.isPadding = false ∧ f.signature = s := by
  rw [signatures, Multiset.mem_coe, List.mem_filter, List.mem_map]
  constructor
  · rintro ⟨⟨f, hf, rfl⟩, hn⟩
    rw [bne, Bool.not_eq_true'] at hn
    exact ⟨f, hf, hn, rfl⟩
  · rintro ⟨f, hf, hp, rfl⟩
    exact ⟨⟨f, hf, rfl⟩, by rw [bne, Bool.not_eq_true']; exact hp⟩

/-- The names of the real fields are those of their signatures. -/
theorem map_name_signatures (fs : List Field) : (signatures fs).map Signature.name =
    ((fs.map Field.name).filter (· != padName) : List String) := by
  rw [signatures, Multiset.map_coe, List.filter_map, List.filter_map, List.map_map]
  rfl

/-! ## Fields that are no paddings -/

/-- The fields that are no paddings, in their order. -/
def realFields (fs : List Field) : List Field :=
  fs.filter fun f => !f.isPadding

@[simp] theorem realFields_append (fs gs : List Field) :
    realFields (fs ++ gs) = realFields fs ++ realFields gs :=
  List.filter_append fs gs

@[simp] theorem realFields_pad_cons (size : Nat) (fs : List Field) :
    realFields (.pad size :: fs) = realFields fs := rfl

theorem realFields_cons (f : Field) (fs : List Field) :
    realFields (f :: fs) = realFields [f] ++ realFields fs :=
  realFields_append [f] fs

theorem realFields_remainderPad (size line : Nat) : realFields (remainderPad size line) = [] := by
  unfold remainderPad
  split <;> rfl

theorem realFields_padFields (line : Nat) (fs : List Field) :
    realFields (fs.flatMap fun f => f :: remainderPad f.size line) = realFields fs := by
  induction fs with
  | nil => rfl
  | cons f fs ih =>
      rw [List.flatMap_cons, List.cons_append, realFields_cons, realFields_cons f fs,
        realFields_append, ih, realFields_remainderPad, List.nil_append]

theorem realFields_explicit (g : Gap) : realFields g.explicit = realFields g.before.toList := by
  unfold Gap.explicit
  split <;> simp

theorem realFields_gapsFrom (system offset align : Nat) (fs : List Field) :
    realFields ((Struct.gapsFrom system offset align fs).flatMap Gap.explicit) = realFields fs := by
  induction fs generalizing offset align with
  | nil => simp [Struct.gapsFrom, realFields_explicit]
  | cons f fs ih =>
      rw [Struct.gapsFrom, List.flatMap_cons, realFields_append, realFields_explicit, ih,
        realFields_cons f fs]
      rfl

theorem signatures_realFields (fs : List Field) : signatures (realFields fs) = signatures fs := by
  rw [signatures, signatures, realFields, List.filter_map, List.filter_map, List.filter_filter]
  apply congrArg
  apply congrArg
  apply List.filter_congr
  intro f _
  exact Bool.and_self _

/-- The transforms that add paddings, and do nothing else. -/
def Transform.addsPaddings : Transform → Bool
  | .padGaps _ | .falseSharing _ | .cacheRounding _ | .separate .. => true
  | _ => false

/-- Paddings are put between the real fields, which stay in their order. -/
theorem Transform.realFields_apply {t : Transform} (h : t.addsPaddings = true) (st : Struct) :
    realFields (t.apply st).fields = realFields st.fields := by
  cases t with
  | padGaps system =>
      simp only [Transform.apply, Struct.padGaps]
      split
      · rfl
      · exact realFields_gapsFrom _ 0 1 st.fields
  | falseSharing line => exact realFields_padFields line st.fields
  | cacheRounding line =>
      refine (realFields_append _ _).trans ?_
      rw [realFields_remainderPad, List.append_nil]
  | separate size top =>
      simp only [Transform.apply, Struct.separate]
      split
      · rfl
      · cases top with
        | true => rfl
        | false => exact (realFields_append _ _).trans (List.append_nil _)
  | _ => cases h

/-! ## Orders -/

theorem interleave_perm {α : Type} {xs ys : List α} (h : ys.length ≤ xs.length) :
    (interleave xs ys).Perm (xs ++ ys) := by
  induction xs generalizing ys with
  | nil =>
      obtain rfl : ys = [] := List.eq_nil_of_length_eq_zero (Nat.le_zero.mp h)
      exact .nil
  | cons x xs ih =>
      cases ys with
      | nil => exact (ih (Nat.zero_le _)).cons x
      | cons y ys =>
          have hle : ys.length ≤ xs.length := Nat.le_of_succ_le_succ h
          have hmiddle : (x :: xs ++ y :: ys).Perm (y :: (x :: xs ++ ys)) := List.perm_middle
          exact (((ih hle).cons x).cons y).trans hmiddle.symm

theorem unpack_perm (st : Struct) : st.unpack.fields.Perm st.fields := by
  let packed := st.fields.mergeSort packLe
  let middle := (packed.length + 1) / 2
  have hlen : (packed.drop middle).reverse.length ≤ (packed.take middle).length := by
    simp only [List.length_reverse, List.length_drop, List.length_take]; omega
  have hsplit : (packed.take middle ++ (packed.drop middle).reverse).Perm packed := by
    refine ((List.reverse_perm _).append_left _).trans ?_
    rw [List.take_append_drop]
  exact ((interleave_perm hlen).trans hsplit).trans (List.mergeSort_perm _ _)

/-- The transforms that may leave out fields that are no paddings. -/
def Transform.dropsFields : Transform → Bool
  | .filter kind => kind != .pads
  | .void => true
  | _ => false

@[simp] theorem Transform.apply_name (t : Transform) (st : Struct) :
    (t.apply st).name = st.name := by
  cases t with
  | annotate place => cases place <;> rfl
  | markCurated place => cases place <;> rfl
  | padGaps system => simp only [Transform.apply, Struct.padGaps]; split <;> rfl
  | separate size top => simp only [Transform.apply, Struct.separate]; split <;> rfl
  | _ => rfl

/-! ## Where fields come from -/

/-- A field that a strategy leaves is a new padding, or one of the fields before: its tag may have been
written anew, and its notes, but nothing else of it. -/
def Transform.Leaves (t : Transform) (fs : List Field) (f : Field) : Prop :=
  (∃ size, f = .pad size) ∨ ∃ g ∈ fs, f.signature = g.signature ∧
    (f.tag = g.tag ∨ ∃ how i, t = .tagging how ∧ f.tag = how.retag i g.tag)

theorem mem_remainderPad {size line : Nat} {f : Field} (h : f ∈ remainderPad size line) :
    ∃ size, f = .pad size := by
  unfold remainderPad at h
  split at h
  · cases h
  · exact ⟨_, List.mem_singleton.mp h⟩

theorem mem_gapsFrom {fs : List Field} {system offset align : Nat} {g : Gap} {f : Field}
    (h : g ∈ Struct.gapsFrom system offset align fs) (hf : g.before = some f) : f ∈ fs := by
  induction fs generalizing offset align with
  | nil =>
    rw [List.mem_singleton.mp h] at hf
    cases hf
  | cons f' fs ih =>
    rcases List.mem_cons.mp h with rfl | h
    · cases hf
      exact List.mem_cons_self
    · exact List.mem_cons_of_mem _ (ih h)

theorem Transform.leaves {t : Transform} {st : Struct} {f : Field} (h : f ∈ (t.apply st).fields) :
    t.Leaves st.fields f := by
  have kept (hf : f ∈ st.fields) : t.Leaves st.fields f := .inr ⟨f, hf, rfl, .inl rfl⟩
  cases t with
  | pack => exact kept ((List.mergeSort_perm _ _).mem_iff.mp h)
  | unpack => exact kept ((unpack_perm st).mem_iff.mp h)
  | padGaps system =>
    simp only [Transform.apply, Struct.padGaps] at h
    split at h
    · exact kept h
    · obtain ⟨g, hg, hf⟩ := List.mem_flatMap.mp h
      rcases List.mem_append.mp hf with hf | hf
      · split at hf
        · cases hf
        · exact .inl ⟨_, List.mem_singleton.mp hf⟩
      · exact kept (mem_gapsFrom hg (Option.mem_toList.mp hf))
  | falseSharing line =>
    obtain ⟨g, hg, hf⟩ := List.mem_flatMap.mp h
    rcases List.mem_cons.mp hf with rfl | hf
    · exact kept hg
    · exact .inl (mem_remainderPad hf)
  | cacheRounding line =>
    rcases List.mem_append.mp h with hf | hf
    · exact kept hf
    · exact .inl (mem_remainderPad hf)
  | separate size top =>
    simp only [Transform.apply, Struct.separate] at h
    split at h
    · exact kept h
    · cases top with
      | true => exact (List.mem_cons.mp h).elim (fun hf => .inl ⟨_, hf⟩) kept
      | false =>
        exact (List.mem_append.mp h).elim kept fun hf => .inl ⟨_, List.mem_singleton.mp hf⟩
  | tagging how =>
    obtain ⟨i, hi, rfl⟩ := List.getElem_of_mem h
    simp only [Transform.apply, Struct.retag, List.getElem_mapIdx]
    exact .inr ⟨_, List.getElem_mem _, rfl, .inr ⟨how, i, rfl, rfl⟩⟩
  | annotateFields place =>
    obtain ⟨g, hg, rfl⟩ := List.mem_map.mp h
    exact .inr ⟨g, hg, by cases place <;> rfl, .inl (by cases place <;> rfl)⟩
  | annotate place => exact kept (by cases place <;> exact h)
  | markCurated place => exact kept (by cases place <;> exact h)
  | sortBy key ascending => exact kept ((List.mergeSort_perm _ _).mem_iff.mp h)
  | filter kind => exact kept (List.mem_filter.mp h).1
  | ignore => exact kept h
  | void => cases h

/-! ## What stays of the signatures -/

theorem Transform.signatures_of_addsPaddings {t : Transform} (h : t.addsPaddings = true)
    (st : Struct) : (t.apply st).signatures = st.signatures := by
  rw [Struct.signatures, ← signatures_realFields, t.realFields_apply h, signatures_realFields]
  rfl

/-- Transforms that drop no fields keep all signatures, wherever they put paddings. -/
theorem Transform.apply_signatures_eq {t : Transform} (h : t.dropsFields = false) (st : Struct) :
    (t.apply st).signatures = st.signatures := by
  cases t with
  | pack => exact signatures_perm (List.mergeSort_perm _ _)
  | unpack => exact signatures_perm (unpack_perm st)
  | padGaps _ | falseSharing _ | cacheRounding _ | separate _ _ =>
      exact signatures_of_addsPaddings rfl st
  | tagging t =>
      apply signatures_congr
      refine List.ext_getElem (by simp [Transform.apply, Struct.retag]) fun i _ _ => ?_
      simp [Transform.apply, Struct.retag, Field.signature]
  | annotateFields place =>
      apply signatures_congr
      cases place <;> simp [Transform.apply, Struct.annotateFields, Field.onNotes, Field.signature]
  | annotate place => cases place <;> rfl
  | markCurated place => cases place <;> rfl
  | sortBy key ascending => exact signatures_perm (List.mergeSort_perm _ _)
  | filter kind =>
      obtain rfl : kind = .pads := by simpa [Transform.dropsFields] using h
      exact signatures_realFields st.fields
  | ignore => rfl
  | void => cases h

theorem Transform.apply_signatures_le (t : Transform) (st : Struct) :
    (t.apply st).signatures ≤ st.signatures := by
  cases h : t.dropsFields with
  | false => exact (t.apply_signatures_eq h st).le
  | true =>
      cases t with
      | filter kind => exact signatures_sublist List.filter_sublist
      | void => exact Multiset.zero_le _
      | _ => cases h

theorem Transform.applyAll_signatures_le (ts : List Transform) (st : Struct) :
    (applyAll ts st).signatures ≤ st.signatures := by
  induction ts generalizing st with
  | nil => exact le_refl _
  | cons t ts ih => exact (ih _).trans (t.apply_signatures_le st)

theorem Transform.applyAll_signatures_eq {ts : List Transform}
    (h : ∀ t ∈ ts, t.dropsFields = false) (st : Struct) :
    (applyAll ts st).signatures = st.signatures := by
  induction ts generalizing st with
  | nil => rfl
  | cons t ts ih =>
      obtain ⟨ht, hts⟩ := List.forall_mem_cons.mp h
      exact (ih hts _).trans (t.apply_signatures_eq ht st)

end StructLayout
