/-! Rounding an offset up to an alignment. -/

namespace StructLayout

/-- The smallest multiple of `alignment` that is not below `offset`. No alignment leaves the offset
as it is, and an alignment need not be a power of two. -/
def alignUp (offset alignment : Nat) : Nat :=
  if alignment = 0 then offset
  else
    let top := offset + alignment - 1
    top - top % alignment

@[simp] theorem alignUp_zero (offset : Nat) : alignUp offset 0 = offset := by
  simp [alignUp]

theorem le_alignUp (offset alignment : Nat) : offset ≤ alignUp offset alignment := by
  unfold alignUp
  split
  · exact Nat.le_refl _
  · have := Nat.mod_lt (offset + alignment - 1) (by omega : alignment > 0)
    dsimp only; omega

theorem dvd_alignUp {alignment : Nat} (h : 0 < alignment) (offset : Nat) :
    alignment ∣ alignUp offset alignment := by
  rw [alignUp, if_neg (by omega)]
  exact Nat.dvd_sub_mod _

theorem alignUp_lt {alignment : Nat} (h : 0 < alignment) (offset : Nat) :
    alignUp offset alignment < offset + alignment := by
  rw [alignUp, if_neg (by omega)]
  dsimp only; omega

theorem alignUp_le {offset alignment bound : Nat} (h : 0 < alignment) (hb : alignment ∣ bound)
    (ho : offset ≤ bound) : alignUp offset alignment ≤ bound := by
  obtain ⟨k, hk⟩ := dvd_alignUp h offset
  obtain ⟨m, rfl⟩ := hb
  have hlt := alignUp_lt h offset
  rw [hk] at hlt ⊢
  apply Nat.mul_le_mul_left
  have : alignment * k < alignment * (m + 1) := by rw [Nat.mul_add, Nat.mul_one]; omega
  exact Nat.lt_succ_iff.1 (Nat.lt_of_mul_lt_mul_left this)

/-- A count of bytes held in a signed 64-bit number, where counts from 2^63 on turn negative and
then stand for no bytes. -/
def signedBytes (n : Nat) : Nat :=
  if n % Nat.pow 2 64 < Nat.pow 2 63 then n % Nat.pow 2 64 else 0

theorem signedBytes_of_lt {n : Nat} (h : n < Nat.pow 2 63) : signedBytes n = n := by
  have hm : n % Nat.pow 2 64 = n := Nat.mod_eq_of_lt (Nat.lt_trans h (by decide))
  rw [signedBytes, hm, if_pos h]

end StructLayout
