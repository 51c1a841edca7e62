import Mathlib.Data.List.Basic
import Mathlib.Tactic.SplitIfs
import StructLayout.Source.Position

/-!
Lines and columns in the bytes of a text: as many lines start up to a byte as there are line breaks
in front of it, and the last of them is the line of the byte.
-/

namespace StructLayout

namespace Text

/-- The byte of a line break. -/
def newline : UInt8 := 10

/-- The bytes of a text in UTF-8. -/
def bytes (cs : List Char) : List UInt8 :=
  cs.flatMap String.utf8EncodeChar

@[simp] theorem bytes_nil : bytes [] = [] := rfl

@[simp] theorem bytes_cons (c : Char) (cs : List Char) :
    bytes (c :: cs) = String.utf8EncodeChar c ++ bytes cs := rfl

/-- No other character has the byte of a line break in it. -/
theorem newline_not_mem_encode {c : Char} (h : c ≠ '\n') : newline ∉ String.utf8EncodeChar c := by
  have hv : c.val.toNat ≠ 10 := fun he => h (Char.ext (UInt32.toNat_inj.mp he))
  have hbyte (n : Nat) (hn : n % 256 ≠ 10) : newline ≠ UInt8.ofNat n := by
    intro he
    have := congrArg UInt8.toNat he
    rw [UInt8.toNat_ofNat'] at this
    exact hn this.symm
  unfold String.utf8EncodeChar
  dsimp only
  split_ifs with h₁ h₂ h₃ <;>
    simp only [List.mem_cons, List.not_mem_nil, or_false, not_or]
  · exact hbyte _ (by omega)
  · exact ⟨hbyte _ (by omega), hbyte _ (by omega)⟩
  · exact ⟨hbyte _ (by omega), hbyte _ (by omega), hbyte _ (by omega)⟩
  · exact ⟨hbyte _ (by omega), hbyte _ (by omega), hbyte _ (by omega), hbyte _ (by omega)⟩

/-- In front of the last byte of a character there is no line break. -/
theorem newline_not_mem_take {n : Nat} {c : Char} {bs : List UInt8} (h : n < c.utf8Size) :
    newline ∉ (String.utf8EncodeChar c ++ bs).take n := by
  rw [List.take_append_of_le_length (by rw [String.length_utf8EncodeChar]; omega)]
  by_cases hc : c = '\n'
  · subst hc
    obtain rfl : n = 0 := Nat.lt_one_iff.mp h
    exact List.not_mem_nil
  · exact fun hm => newline_not_mem_encode hc (List.mem_of_mem_take hm)

/-- The line of the byte `offset` starts at `start`: behind the last line break in front of the
byte, or with the text. -/
structure StartsLine (bytes : List UInt8) (start offset : Nat) : Prop where
  le : start ≤ offset
  head : start = 0 ∨ bytes[start - 1]? = some newline
  inside : newline ∉ (bytes.take offset).drop start

namespace StartsLine

variable {front back : List UInt8} {start n : Nat}

theorem first : StartsLine [] 0 0 :=
  ⟨Nat.le_refl 0, .inl rfl, List.not_mem_nil⟩

theorem behind (front : List UInt8) :
    StartsLine (front ++ [newline]) (front.length + 1) (front.length + 1) where
  le := Nat.le_refl _
  head := .inr List.getElem?_concat_length
  inside := by
    rw [List.drop_eq_nil_of_le (by simp)]
    exact List.not_mem_nil

/-- A line goes on up to the next line break. -/
theorem append (h : StartsLine front start front.length) (hn : newline ∉ back.take n) :
    StartsLine (front ++ back) start (front.length + n) where
  le := Nat.le_trans h.le (Nat.le_add_right _ _)
  head := h.head.imp_right fun hs => by
    rw [List.getElem?_append_left (List.getElem?_eq_some_iff.mp hs).1]
    exact hs
  inside := by
    have hfront := h.inside
    rw [List.take_length] at hfront
    rw [List.take_length_add_append, List.drop_append_of_le_length h.le, List.mem_append]
    exact not_or.mpr ⟨hfront, hn⟩

end StartsLine

end Text

open Text

theorem le_of_mem_lineStartsFrom {offset start : Nat} {c : Char} {cs : List Char}
    (h : start ∈ lineStartsFrom offset (c :: cs)) : offset + c.utf8Size ≤ start := by
  induction cs generalizing offset c with
  | nil =>
    simp only [lineStartsFrom, List.mem_ite_nil_right, List.mem_singleton] at h
    omega
  | cons d cs ih =>
    have later (h : start ∈ lineStartsFrom (offset + c.utf8Size) (d :: cs)) :
        offset + c.utf8Size ≤ start :=
      Nat.le_trans (Nat.le_add_right _ _) (ih h)
    unfold lineStartsFrom at h
    split at h
    · rcases List.mem_cons.mp h with rfl | h
      · exact Nat.le_refl _
      · exact later h
    · exact later h

/-- No line starts in front of the end of the first character. -/
theorem takeWhile_lineStartsFrom {offset n : Nat} {c : Char} {cs : List Char}
    (h : n < c.utf8Size) : (lineStartsFrom offset (c :: cs)).takeWhile (· ≤ offset + n) = [] := by
  cases hs : lineStartsFrom offset (c :: cs) with
  | nil => rfl
  | cons start starts =>
    have := le_of_mem_lineStartsFrom (hs ▸ List.mem_cons_self)
    rw [List.takeWhile_cons_of_neg (by simp; omega)]

theorem length_takeWhile_lineStartsFrom (offset n : Nat) (cs : List Char) :
    ((lineStartsFrom offset cs).takeWhile (· ≤ offset + n)).length =
      ((bytes cs).take n).count newline := by
  induction cs generalizing offset n with
  | nil => rw [bytes_nil, List.take_nil]; rfl
  | cons c cs ih =>
    rw [bytes_cons]
    by_cases hn : n < c.utf8Size
    · rw [takeWhile_lineStartsFrom hn, List.count_eq_zero_of_not_mem (newline_not_mem_take hn)]
      rfl
    · obtain ⟨m, rfl⟩ := Nat.exists_eq_add_of_le (Nat.le_of_not_lt hn)
      have hih := ih (offset + c.utf8Size) m
      rw [← Nat.add_assoc, ← String.length_utf8EncodeChar c, List.take_length_add_append,
        List.count_append, ← hih, String.length_utf8EncodeChar, lineStartsFrom]
      split
      · rename_i hc
        subst hc
        rw [List.takeWhile_cons_of_pos (by simp), List.length_cons, Nat.add_comm]
        rfl
      · rename_i hc
        rw [List.count_eq_zero_of_not_mem (newline_not_mem_encode hc), Nat.zero_add]

/-- Behind `front`, whose last line starts at `start`, the last line that starts up to a byte is
the line of the byte. -/
theorem startsLine_getLast? {front : List UInt8} {start : Nat} (n : Nat) (cs : List Char)
    (h : StartsLine front start front.length) :
    StartsLine (front ++ bytes cs)
      (((lineStartsFrom front.length cs).takeWhile (· ≤ front.length + n)).getLast?.getD start)
      (front.length + n) := by
  -- By the characters: those up to the byte move into `front`, with the start of their line.
  induction cs generalizing front start n with
  | nil => exact h.append (by simp)
  | cons c cs ih =>
    rw [bytes_cons]
    by_cases hn : n < c.utf8Size
    · rw [takeWhile_lineStartsFrom hn]
      exact h.append (newline_not_mem_take hn)
    · obtain ⟨m, rfl⟩ := Nat.exists_eq_add_of_le (Nat.le_of_not_lt hn)
      have hlen : (front ++ String.utf8EncodeChar c).length = front.length + c.utf8Size := by
        rw [List.length_append, String.length_utf8EncodeChar]
      have behind {start : Nat} (h : StartsLine (front ++ String.utf8EncodeChar c) start
          (front ++ String.utf8EncodeChar c).length) := ih m h
      rw [hlen, List.append_assoc, Nat.add_assoc] at behind
      rw [lineStartsFrom]
      split
      · rename_i hc
        subst hc
        rw [List.takeWhile_cons_of_pos (by simp), List.getLast?_cons, Option.getD_some]
        exact behind (.behind front)
      · rename_i hc
        exact behind (h.append fun hm => newline_not_mem_encode hc (List.mem_of_mem_take hm))

/-- The line of a byte is told by the line breaks in front of it, and its column by where the line
starts. -/
theorem FileInfo.lineColumn_ofText (name : String) (base : Nat) (text : List Char) (o : Nat) :
    ∃ start, StartsLine (bytes text) start o ∧ (ofText name base text).lineColumn o =
      (1 + ((bytes text).take o).count newline, o - start + 1) := by
  have hstart := startsLine_getLast? o text .first
  have hlen := length_takeWhile_lineStartsFrom 0 o text
  rw [List.length_nil, Nat.zero_add, List.nil_append] at hstart
  rw [Nat.zero_add] at hlen
  refine ⟨_, hstart, ?_⟩
  rw [lineColumn, ofText]
  dsimp only
  rw [List.takeWhile_cons_of_pos (by simp), List.length_cons, List.getLast?_cons, Option.getD_some,
    hlen, Nat.add_comm]

end StructLayout
