import StructLayout.Total

/-! Text measured and cut in UTF-8 bytes. -/

namespace StructLayout.Text

/-- Length in bytes. -/
def byteLen (cs : List Char) : Nat :=
  total (cs.map Char.utf8Size)

@[simp] theorem byteLen_nil : byteLen [] = 0 := rfl

@[simp] theorem byteLen_cons (c : Char) (cs : List Char) :
    byteLen (c :: cs) = c.utf8Size + byteLen cs := by
  simp [byteLen]

@[simp] theorem byteLen_append (xs ys : List Char) :
    byteLen (xs ++ ys) = byteLen xs + byteLen ys := by
  simp [byteLen]

/-- What is left after `n` bytes; a character that the cut would split goes too. -/
def dropBytes : Nat → List Char → List Char
  | 0, cs => cs
  | _ + 1, [] => []
  | n + 1, c :: cs => dropBytes (n + 1 - c.utf8Size) cs

/-- The first `n` bytes; a character that the cut would split stays. -/
def takeBytes : Nat → List Char → List Char
  | 0, _ => []
  | _ + 1, [] => []
  | n + 1, c :: cs => c :: takeBytes (n + 1 - c.utf8Size) cs

theorem takeBytes_append_dropBytes (n : Nat) (cs : List Char) :
    takeBytes n cs ++ dropBytes n cs = cs := by
  induction cs generalizing n with
  | nil => cases n <;> rfl
  | cons c cs ih => cases n with
    | zero => rfl
    | succ n => simp [takeBytes, dropBytes, ih]

theorem dropBytes_byteLen (xs ys : List Char) : dropBytes (byteLen xs) (xs ++ ys) = ys := by
  induction xs with
  | nil => simp [dropBytes]
  | cons c cs ih =>
    have h := c.utf8Size_pos
    obtain ⟨k, hk⟩ : ∃ k, c.utf8Size + byteLen cs = k + 1 := ⟨c.utf8Size + byteLen cs - 1, by omega⟩
    simp only [byteLen_cons, hk, List.cons_append, dropBytes]
    rw [← hk, Nat.add_sub_cancel_left, ih]

theorem takeBytes_byteLen (xs ys : List Char) : takeBytes (byteLen xs) (xs ++ ys) = xs := by
  have h := takeBytes_append_dropBytes (byteLen xs) (xs ++ ys)
  rw [dropBytes_byteLen] at h
  exact List.append_cancel_right h

/-- The bytes from `start` up to `stop`. -/
def slice (start stop : Nat) (cs : List Char) : List Char :=
  takeBytes (stop - start) (dropBytes start cs)

theorem slice_append (xs ys zs : List Char) :
    slice (byteLen xs) (byteLen xs + byteLen ys) (xs ++ ys ++ zs) = ys := by
  rw [slice, Nat.add_sub_cancel_left, List.append_assoc, dropBytes_byteLen, takeBytes_byteLen]

/-- Goes over `n` bytes of a text and gives what is in front of them on their last line, of which
`len` bytes of `line` come before the text. -/
def lineHeadFrom (line : List Char) (len : Nat) : Nat → List Char → List Char
  | 0, _ => takeBytes len line
  | _ + 1, [] => takeBytes len line
  | n + 1, c :: cs =>
    let n := n + 1 - c.utf8Size
    if c = '\n' then lineHeadFrom cs 0 n cs else lineHeadFrom line (len + c.utf8Size) n cs

theorem takeBytes_self (cs : List Char) : takeBytes (byteLen cs) cs = cs := by
  simpa using takeBytes_byteLen cs []

/-- The line head is what is left of a text when it is cut behind its last line break. -/
theorem lineHeadFrom_eq (head : List Char) (n : Nat) (cs : List Char) (h : '\n' ∉ head) :
    lineHeadFrom (head ++ cs) (byteLen head) n cs =
      ((head ++ takeBytes n cs).reverse.takeWhile (· != '\n')).reverse := by
  have hp : ∀ c ∈ head.reverse, (c != '\n') = true := by
    intro c hc
    rw [bne_iff_ne]
    rintro rfl
    exact h (List.mem_reverse.1 hc)
  have whole : (head.reverse.takeWhile (· != '\n')).reverse = head := by
    have all : (head.reverse ++ []).takeWhile (· != '\n') = head.reverse ++ [] :=
      List.takeWhile_append_of_pos hp
    simpa using congrArg List.reverse all
  induction cs generalizing head n with
  | nil => cases n <;> simp [lineHeadFrom, takeBytes, takeBytes_self, whole]
  | cons c cs ih =>
    cases n with
    | zero => simp [lineHeadFrom, takeBytes, takeBytes_byteLen, whole]
    | succ n =>
      by_cases hc : c = '\n'
      · have := ih [] (n + 1 - c.utf8Size) (by simp) (by simp) rfl
        simp only [List.nil_append, byteLen_nil] at this
        rw [lineHeadFrom, takeBytes]
        simp only [hc, if_true] at this ⊢
        rw [this, List.reverse_append, List.reverse_cons, List.append_assoc, List.takeWhile_append]
        split
        next whole => simp [(List.takeWhile_prefix _).eq_of_length whole]
        next => rfl
      · have := ih (head ++ [c]) (n + 1 - c.utf8Size) (by simp [h, Ne.symm hc])
          (by simpa [hc] using hp) (by simp [whole, hc])
        simp only [List.append_assoc, List.singleton_append, byteLen_append, byteLen_cons,
          byteLen_nil, Nat.add_zero] at this
        simpa [lineHeadFrom, takeBytes, hc] using this

end StructLayout.Text
