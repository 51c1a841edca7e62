import Mathlib.Data.List.Basic
import StructLayout.Text.Numeral

/-! Numbers as they are written: by digits, from which they can be read back in either case. -/

namespace StructLayout

namespace Text

theorem ne_of_isDigit {c d : Char} (h : c.isDigit = true) (hd : d.isDigit = false) : c ≠ d := by
  rintro rfl
  rw [h] at hd
  cases hd

theorem toDigits_isDigit (n : Nat) : ∀ c ∈ Nat.toDigits 10 n, c.isDigit = true :=
  fun _ hc => Nat.isDigit_of_mem_toDigits (by decide) (by decide) hc

/-- Only zero starts with a zero. -/
theorem toDigits_head (n : Nat) (h : (Nat.toDigits 10 n).head? = some '0') : n = 0 := by
  induction n using Nat.strongRecOn with
  | _ n ih =>
      rw [Nat.toDigits_eq_if (by decide)] at h
      split at h
      · simpa using h
      · have hlt : n / 10 < n := Nat.div_lt_self (by omega) (by decide)
        rw [List.head?_append_of_ne_nil _ Nat.toDigits_ne_nil] at h
        have := ih _ hlt h
        omega

/-! ## Digits -/

theorem readDigits_append (base acc : Nat) (cs ds : List Char) :
    readDigits base acc (cs ++ ds) =
      (readDigits base acc cs).bind fun n => readDigits base n ds := by
  induction cs generalizing acc with
  | nil => rfl
  | cons c cs ih =>
      rw [List.cons_append, readDigits, readDigits]
      cases digitValue base c with
      | none => rfl
      | some v => exact ih _

theorem digitValue_of_readDigits {base acc n : Nat} {cs : List Char}
    (h : readDigits base acc cs = some n) : ∀ c ∈ cs, (digitValue base c).isSome := by
  induction cs generalizing acc with
  | nil => simp
  | cons c cs ih =>
      rw [readDigits] at h
      split at h
      · rename_i d hd
        exact List.forall_mem_cons.mpr ⟨by rw [hd]; rfl, ih h⟩
      · cases h

theorem digitValue_digitChar {base d : Nat} (hd : d < base) (hb : base ≤ 16) :
    digitValue base d.digitChar = some d := by
  have hvalue : ∀ d < 16, digitValue 16 d.digitChar = some d := by decide
  have h := hvalue d (by omega)
  unfold digitValue at h ⊢
  dsimp only at h ⊢
  obtain ⟨hsome, -⟩ := Option.filter_eq_some_iff.mp h
  exact Option.filter_eq_some_iff.mpr ⟨hsome, by simpa using hd⟩

/-- The digits of a number are worth the number. -/
theorem readDigits_toDigits {base : Nat} (h : 1 < base) (hb : base ≤ 16) (n : Nat) :
    readDigits base 0 (Nat.toDigits base n) = some n := by
  induction n using Nat.strongRecOn with
  | _ n ih =>
      rw [Nat.toDigits_eq_if h]
      split
      · rename_i hn
        simp [readDigits, digitValue_digitChar hn hb]
      · rw [readDigits_append, ih _ (Nat.div_lt_self (by omega) h), Option.bind_some, readDigits,
          digitValue_digitChar (Nat.mod_lt n (by omega)) hb]
        show some (n / base * base + n % base) = some n
        rw [Nat.div_add_mod']

/-- Zeros in front are worth nothing. -/
theorem readDigits_zeros {base : Nat} (h : 0 < base) (zeros : Nat) (cs : List Char) :
    readDigits base 0 (List.replicate zeros '0' ++ cs) = readDigits base 0 cs := by
  have hzero : digitValue base '0' = some 0 := by
    simp [digitValue, Option.filter, h]
  induction zeros with
  | zero => rfl
  | succ zeros ih =>
      rw [List.replicate_succ, List.cons_append, readDigits, hzero]
      simpa using ih

theorem toNat_toLower (c : Char) :
    c.toLower.toNat = if 65 ≤ c.toNat ∧ c.toNat ≤ 90 then c.toNat + 32 else c.toNat := by
  have hiff : (c.val ≥ 'A'.val ∧ c.val ≤ 'Z'.val) ↔ 65 ≤ c.toNat ∧ c.toNat ≤ 90 := Iff.rfl
  unfold Char.toLower
  split
  · rename_i h
    have hle : c.val.toNat ≤ 90 := (hiff.mp h).2
    rw [if_pos (hiff.mp h)]
    show (c.val + ('a'.val - 'A'.val)).toNat = c.val.toNat + 32
    rw [UInt32.toNat_add]
    show (c.val.toNat + 32) % _ = _
    omega
  · rename_i h
    rw [if_neg (mt hiff.mpr h)]

/-- The case of a digit does not matter. -/
theorem digitValue_toLower (base : Nat) (c : Char) :
    digitValue base c.toLower = digitValue base c := by
  have hvalue (c : Char) : digitValue base c =
      (if 48 ≤ c.toNat ∧ c.toNat ≤ 57 then some (c.toNat - 48)
        else if 97 ≤ c.toNat ∧ c.toNat ≤ 122 then some (c.toNat - 97 + 10)
        else if 65 ≤ c.toNat ∧ c.toNat ≤ 90 then some (c.toNat - 65 + 10)
        else none : Option Nat).filter (· < base) := rfl
  rw [hvalue, hvalue, toNat_toLower]
  by_cases h : 65 ≤ c.toNat ∧ c.toNat ≤ 90
  · have heq : c.toNat + 32 - 97 + 10 = c.toNat - 65 + 10 := by omega
    rw [if_pos h, if_neg (by omega), if_pos (by omega), if_neg (by omega), if_neg (by omega),
      if_pos h, heq]
  · rw [if_neg h]

theorem readDigits_toLower (base acc : Nat) (cs : List Char) :
    readDigits base acc (cs.map Char.toLower) = readDigits base acc cs := by
  induction cs generalizing acc with
  | nil => rfl
  | cons c cs ih =>
      rw [List.map_cons, readDigits, readDigits, digitValue_toLower]
      cases digitValue base c with
      | none => rfl
      | some v => exact ih _

theorem digitValue_of_isDigit {c : Char} (h : c.isDigit = true) :
    digitValue 10 c = some (c.toNat - '0'.toNat) := by
  obtain ⟨hlow, hhigh⟩ := Char.isDigit_iff_toNat.mp h
  have hrange : '0' ≤ c ∧ c ≤ '9' := ⟨hlow, hhigh⟩
  have hlt : c.toNat - '0'.toNat < 10 := by
    show c.toNat - 48 < 10
    have hle : c.toNat ≤ 57 := hhigh
    omega
  unfold digitValue
  dsimp only
  rw [if_pos hrange, Option.filter_some, if_pos (by simpa using hlt)]

theorem readDigits_of_isDigit {cs : List Char} (h : ∀ c ∈ cs, c.isDigit = true) (acc : Nat) :
    readDigits 10 acc cs = some (Nat.ofDigitChars 10 cs acc) := by
  induction cs generalizing acc with
  | nil => rfl
  | cons c cs ih =>
      obtain ⟨hc, hcs⟩ := List.forall_mem_cons.mp h
      rw [readDigits, digitValue_of_isDigit hc, Nat.ofDigitChars_cons, Nat.mul_comm 10]
      exact ih hcs _

/-! ## Numbers -/

/-- Digits are read as what they are worth, if that is held in 64 bits. -/
theorem readNat_of_readDigits {base n : Nat} {cs : List Char} (hne : cs ≠ [])
    (h : readDigits base 0 cs = some n) :
    readNat base cs = if n < wordBound then some n else none := by
  have hplus : cs.head? ≠ some '+' := by
    intro hp
    cases digitValue_of_readDigits h _ (List.mem_of_head? hp)
  unfold readNat
  dsimp only
  rw [if_neg hplus, if_neg (by simpa using hne), h, Option.filter_some]
  simp only [decide_eq_true_eq]

theorem readNat_toDigits {n : Nat} (h : n < wordBound) :
    readNat 10 (Nat.toDigits 10 n) = some n := by
  have hdigits := @readDigits_toDigits 10 (by decide) (by decide) n
  rw [readNat_of_readDigits Nat.toDigits_ne_nil hdigits, if_pos h]

end Text

theorem toList_toString (n : Nat) : (toString n).toList = Nat.toDigits 10 n := by
  rw [Nat.toString_eq_ofList_toDigits, String.toList_ofList]

theorem not_mem_toString {c : Char} (hc : c.isDigit = false) (n : Nat) :
    c ∉ (toString n).toList := by
  intro h
  rw [toList_toString] at h
  exact Text.ne_of_isDigit (Text.toDigits_isDigit n c h) hc rfl

theorem toString_inj {m n : Nat} (h : (toString m).toList = (toString n).toList) : m = n := by
  have := congrArg (fun ds => Nat.ofDigitChars 10 ds 0) h
  simpa [toList_toString] using this

end StructLayout
