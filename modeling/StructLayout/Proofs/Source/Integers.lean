import StructLayout.Proofs.Numeral
import StructLayout.Source.Literal

/-!
Integer literals. A number has many spellings: by its decimal digits, with a letter behind a zero
that names another base, or with a zero in front of its octal digits; letters are of either case, and
underscores may stand anywhere. All of them are read as the number if it is held in 64 bits, and none
of them otherwise.
-/

namespace StructLayout.Literal

open Text

/-- Digits of a number in a base. Letters are of either case, and zeros may stand in front. -/
def IsDigits (base n : Nat) (cs : List Char) : Prop :=
  ∃ zeros, cs.map Char.toLower = List.replicate zeros '0' ++ Nat.toDigits base n

/-- The letters that name a base behind a zero. -/
def baseMarks : List (Char × Nat) :=
  [('x', 16), ('X', 16), ('b', 2), ('B', 2), ('o', 8), ('O', 8)]

/-- The spellings of a number, without underscores. -/
inductive Spells (n : Nat) : List Char → Prop
  | decimal : Spells n (Nat.toDigits 10 n)
  | marked {mark : Char} {base : Nat} {ds : List Char} (hmark : (mark, base) ∈ baseMarks)
      (hds : IsDigits base n ds) : Spells n ('0' :: mark :: ds)
  | octal {ds : List Char} (hds : IsDigits 8 n ds) : Spells n ('0' :: ds)

variable {base n : Nat} {cs ds : List Char}

theorem IsDigits.ne_nil (h : IsDigits base n ds) : ds ≠ [] := by
  obtain ⟨zeros, h⟩ := h
  rintro rfl
  exact Nat.toDigits_ne_nil (List.append_eq_nil_iff.mp h.symm).2

theorem IsDigits.readDigits (h : IsDigits base n ds) (hb : 1 < base) (hle : base ≤ 16) :
    readDigits base 0 ds = some n := by
  obtain ⟨zeros, h⟩ := h
  rw [← readDigits_toLower, h, readDigits_zeros (by omega), readDigits_toDigits hb hle]

/-! ## Bases -/

theorem baseOf_toDigits (n : Nat) :
    baseOf (Nat.toDigits 10 n) = (10, Nat.toDigits 10 n) := by
  by_cases hn : n = 0
  · rw [hn, Nat.toDigits_zero]
    rfl
  · have hhead := mt (toDigits_head n) hn
    unfold baseOf
    split
    · rename_i heq
      rw [heq] at hhead
      exact absurd rfl hhead
    · rename_i heq
      rw [heq] at hhead
      exact absurd rfl hhead
    · rfl

theorem baseOf_marked {mark : Char} (h : (mark, base) ∈ baseMarks) (ds : List Char) :
    baseOf ('0' :: mark :: ds) = (base, ds) := by
  simp only [baseMarks, List.mem_cons, List.not_mem_nil, or_false, Prod.mk.injEq] at h
  rcases h with ⟨rfl, rfl⟩ | ⟨rfl, rfl⟩ | ⟨rfl, rfl⟩ | ⟨rfl, rfl⟩ | ⟨rfl, rfl⟩ | ⟨rfl, rfl⟩ <;> rfl

/-- No octal digit is taken for a letter that names a base. -/
theorem baseOf_octal (h : IsDigits 8 n ds) : baseOf ('0' :: ds) = (8, ds) := by
  obtain ⟨d, ds, rfl⟩ := List.exists_cons_of_ne_nil h.ne_nil
  have hd : (digitValue 8 d).isSome :=
    digitValue_of_readDigits (h.readDigits (by decide) (by decide)) d List.mem_cons_self
  have hmark {c : Char} (hc : (digitValue 8 c).isSome = false) : d ≠ c := by
    rintro rfl
    rw [hd] at hc
    cases hc
  rw [baseOf, if_neg, if_neg, if_neg]
  · exact not_or.mpr ⟨hmark rfl, hmark rfl⟩
  · exact not_or.mpr ⟨hmark rfl, hmark rfl⟩
  · exact not_or.mpr ⟨hmark rfl, hmark rfl⟩

/-! ## Values -/

/-- A spelling names the base of its digits, and they are read as the number. -/
theorem Spells.readNat (h : Spells n cs) :
    readNat (baseOf cs).1 (baseOf cs).2 = if n < wordBound then some n else none := by
  cases h with
  | decimal =>
    have hdigits := @readDigits_toDigits 10 (by decide) (by decide) n
    rw [baseOf_toDigits]
    exact readNat_of_readDigits Nat.toDigits_ne_nil hdigits
  | marked hmark hds =>
    have hbases : ∀ m ∈ baseMarks, 1 < m.2 ∧ m.2 ≤ 16 := by decide
    obtain ⟨hb, hle⟩ := hbases _ hmark
    rw [baseOf_marked hmark]
    exact readNat_of_readDigits hds.ne_nil (hds.readDigits hb hle)
  | octal hds =>
    rw [baseOf_octal hds]
    exact readNat_of_readDigits hds.ne_nil (hds.readDigits (by decide) (by decide))

/-- A number below the bound is read from its digits. -/
theorem parseInt_toDigits {n : Nat} (h : n < wordBound) :
    parseInt (Nat.toDigits 10 n) = some n := by
  have hfilter : (Nat.toDigits 10 n).filter (· != '_') = Nat.toDigits 10 n := by
    refine List.filter_eq_self.mpr fun c hc => ?_
    simpa using ne_of_isDigit (toDigits_isDigit n c hc) rfl
  have hread := (@Spells.decimal n).readNat
  rw [if_pos h] at hread
  unfold parseInt
  rw [hfilter]
  exact hread

/-- However a number is spelled, and wherever underscores are put, it is read if it is held in 64
bits and refused if it is not. -/
theorem parseInt_spelling (h : Spells n (cs.filter (· != '_'))) :
    parseInt cs = if n < wordBound then some n else none :=
  h.readNat

theorem parseInt_spelling_mixed :
    Spells 48879 ("0X_bE__Ef_".toList.filter (· != '_')) ∧
      parseInt "0X_bE__Ef_".toList = some 48879 ∧
      Spells wordBound ("0_2000_0000_0000_0000_0000_00".toList.filter (· != '_')) ∧
      parseInt "0_2000_0000_0000_0000_0000_00".toList = none := by
  have hmarked : Spells 48879 ("0X_bE__Ef_".toList.filter (· != '_')) :=
    @Spells.marked 48879 'X' 16 "bEEf".toList (by decide) ⟨0, by decide⟩
  have hoctal : Spells wordBound ("0_2000_0000_0000_0000_0000_00".toList.filter (· != '_')) :=
    @Spells.octal wordBound "2000000000000000000000".toList ⟨0, by decide⟩
  exact ⟨hmarked, parseInt_spelling hmarked, hoctal, parseInt_spelling hoctal⟩

end StructLayout.Literal
