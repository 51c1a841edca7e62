import StructLayout.Proofs.Strategy.Packing
import StructLayout.Proofs.Strategy.RealFields

/-!
Unpacking takes the packed fields from both ends in turn: the last one, the first one, the last but
one, and so on, up to the one in the middle of an odd number of fields.
-/

namespace StructLayout

/-! ## Members in turn -/

section

variable {α : Type} {xs ys : List α} {i : Nat}

/-- The members of both lists at one position follow each other. -/
theorem getElem?_interleave (h : ys.length ≤ xs.length) (hi : i < ys.length) :
    (interleave xs ys)[2 * i]? = ys[i]? ∧ (interleave xs ys)[2 * i + 1]? = xs[i]? := by
  fun_induction interleave xs ys generalizing i with
  | case1 => exact absurd hi (Nat.not_lt_of_le (Nat.le_trans h (Nat.zero_le i)))
  | case2 => exact absurd hi (Nat.not_lt_zero i)
  | case3 x xs y ys ih =>
    cases i with
    | zero => exact ⟨rfl, rfl⟩
    | succ i => exact ih (Nat.le_of_succ_le_succ h) (Nat.lt_of_succ_lt_succ hi)

/-- What the first list has more than the second one comes last. -/
theorem getElem?_interleave_last (h : xs.length = ys.length + 1) :
    (interleave xs ys)[2 * ys.length]? = xs[ys.length]? := by
  fun_induction interleave xs ys with
  | case1 => cases h
  | case2 => rfl
  | case3 x xs y ys ih => exact ih (Nat.succ.inj h)

end

/-! ## Fields in turn -/

namespace Struct

variable (st : Struct) {i : Nat}

/-- The packed fields up to the middle. -/
def front : List Field :=
  st.pack.fields.take ((st.pack.fields.length + 1) / 2)

/-- The packed fields behind the middle, from the last one on. -/
def back : List Field :=
  (st.pack.fields.drop ((st.pack.fields.length + 1) / 2)).reverse

theorem unpack_fields : st.unpack.fields = interleave st.front st.back := rfl

theorem length_front : st.front.length = (st.pack.fields.length + 1) / 2 := by
  rw [front, List.length_take]
  omega

theorem length_back : st.back.length = st.pack.fields.length / 2 := by
  rw [back, List.length_reverse, List.length_drop]
  omega

theorem length_back_le : st.back.length ≤ st.front.length := by
  rw [length_back, length_front]
  omega

variable {st}

theorem getElem?_front (hi : i < st.front.length) : st.front[i]? = st.pack.fields[i]? := by
  rw [length_front] at hi
  exact List.getElem?_take_of_lt hi

theorem getElem?_back (hi : i < st.back.length) :
    st.back[i]? = st.pack.fields[st.pack.fields.length - 1 - i]? := by
  have hlen : st.back.length = st.pack.fields.length / 2 := st.length_back
  rw [back, List.length_reverse] at hi hlen
  rw [back, List.getElem?_reverse hi, List.getElem?_drop, hlen]
  congr 1
  omega

end Struct

@[simp] theorem Registry.alone_memory_unpack (r : Registry) (st : Struct) :
    r.alone "memory_unpack" st = .ok st.unpack := rfl

/-- Unpacking changes nothing but the order of the fields: packed fields from the end stand at even
positions, those from the front at odd ones, and the one in the middle of an odd number comes last. -/
theorem Struct.memory_unpack_interleaves (r : Registry) (st : Struct) :
    ∃ p out, r.alone "memory_pack" st = .ok p ∧ r.alone "memory_unpack" st = .ok out ∧
      p.fields.length = st.fields.length ∧ out.fields.Perm st.fields ∧
      out = { st with fields := out.fields } ∧
      (∀ i < st.fields.length / 2,
        out.fields[2 * i]? = p.fields[st.fields.length - 1 - i]? ∧
          out.fields[2 * i + 1]? = p.fields[i]?) ∧
      (st.fields.length % 2 = 1 →
        out.fields[st.fields.length - 1]? = p.fields[(st.fields.length - 1) / 2]?) := by
  have hlength : st.pack.fields.length = st.fields.length := st.pack_perm.length_eq
  have hback : st.back.length = st.fields.length / 2 := hlength ▸ st.length_back
  have hfront : st.front.length = (st.fields.length + 1) / 2 := hlength ▸ st.length_front
  refine ⟨st.pack, st.unpack, r.alone_memory_pack st, r.alone_memory_unpack st, hlength,
    unpack_perm st, rfl, fun i hi => ?_, fun hodd => ?_⟩
  · have hib : i < st.back.length := hback ▸ hi
    have hif : i < st.front.length := Nat.lt_of_lt_of_le hib st.length_back_le
    obtain ⟨heven, hodd⟩ := getElem?_interleave st.length_back_le hib
    rw [unpack_fields, heven, hodd, getElem?_back hib, getElem?_front hif, hlength]
    exact ⟨rfl, rfl⟩
  · have hmore : st.front.length = st.back.length + 1 := by omega
    have hlast : st.fields.length - 1 = 2 * st.back.length := by omega
    have hmiddle : (st.fields.length - 1) / 2 = st.back.length := by omega
    rw [unpack_fields, hlast, getElem?_interleave_last hmore, ← hlast, hmiddle]
    exact getElem?_front (hmore ▸ Nat.lt_succ_self _)

/-- Five fields, two of them of one size and alignment. -/
def Struct.scrambled : Struct where
  name := "S"
  fields := [{ name := "a", size := 1, align := 1 }, { name := "b", size := 2, align := 2 },
    { name := "c", size := 4, align := 4 }, { name := "d", size := 8, align := 8 },
    { name := "e", size := 1, align := 1 }]

theorem Struct.memory_unpack_interleaves_scrambled :
    1 < scrambled.fields.length / 2 ∧ scrambled.fields.length % 2 = 1 ∧
      ∃ out, Registry.amd64.alone "memory_unpack" scrambled = .ok out ∧
        out.fields[2]?.map Field.name = some "a" ∧ out.fields[3]?.map Field.name = some "c" ∧
        out.fields[4]?.map Field.name = some "b" := by
  have hhalf : 1 < scrambled.fields.length / 2 := by decide
  have hodd : scrambled.fields.length % 2 = 1 := by decide
  obtain ⟨p, out, hp, hout, -, -, -, hends, hmiddle⟩ := memory_unpack_interleaves .amd64 scrambled
  obtain ⟨hback, hfront⟩ := hends 1 hhalf
  have hmiddle := hmiddle hodd
  cases hp
  refine ⟨hhalf, hodd, out, hout, ?_, ?_, ?_⟩
  · rw [hback]
    cbv
  · rw [hfront]
    cbv
  · change out.fields[4]? = _ at hmiddle
    rw [hmiddle]
    cbv

end StructLayout
