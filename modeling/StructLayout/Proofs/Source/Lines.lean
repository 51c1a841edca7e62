import StructLayout.Proofs.Source.Tokens
import StructLayout.Source.SpecReader

/-!
Where lines start, told by tokens. A declaration starts where its first token does, or right behind
the line break in front of it.
-/

namespace StructLayout

namespace Text

/-- What stands behind the last line break of a text. -/
def lastLine (cs : List Char) : List Char :=
  (cs.reverse.takeWhile (· != '\n')).reverse

theorem lastLine_append {gap : List Char} (front : List Char) (hg : '\n' ∉ gap) :
    lastLine (front ++ gap) = lastLine front ++ gap := by
  have hall : ∀ c ∈ gap.reverse, (c != '\n') = true := by
    intro c hc
    rw [bne_iff_ne]
    rintro rfl
    exact hg (List.mem_reverse.mp hc)
  rw [lastLine, List.reverse_append, List.takeWhile_append_of_pos hall, List.reverse_append,
    List.reverse_reverse, lastLine]

theorem lastLine_eq_nil {cs : List Char} (h : cs.getLast? = some '\n') : lastLine cs = [] := by
  obtain ⟨init, rfl⟩ := List.getLast?_eq_some_iff.mp h
  simp [lastLine]

theorem mem_lastLine {cs : List Char} {b : Char} (h : cs.getLast? = some b) (hb : b ≠ '\n') :
    b ∈ lastLine cs := by
  obtain ⟨init, rfl⟩ := List.getLast?_eq_some_iff.mp h
  rw [lastLine_append init (by simpa using hb.symm)]
  simp

end Text

namespace Token

open Text

theorem Heads.scanned {t : Token} {cs rest : List Char} (h : t.Heads cs rest) :
    ∃ c tail n, cs = c :: tail ∧ isGap c = false ∧ Scanned c tail t.kind n ∧
      t.text.toList = c :: tail.take n ∧ rest = tail.drop n := by
  obtain ⟨c, tail, n, hcs, hc, hs, ht, hr⟩ := h
  exact ⟨c, tail, n, hcs, hc, scanned_of_scan hs, by rw [ht, String.toList_ofList], hr⟩

theorem Scanned.lineBreak_inv {c : Char} {cs : List Char} {n : Nat}
    (h : Scanned c cs .lineBreak n) : c = '\n' ∧ n = 0 := by
  generalize hk : TokenKind.lineBreak = kind at h
  cases h with
  | lineBreak hc => exact ⟨hc, rfl⟩
  | number => unfold Token.number at hk; dsimp only at hk; split at hk <;> cases hk
  | delimiter hd => subst hk; unfold delimiter? at hd; split at hd <;> cases hd
  | _ => cases hk

theorem Heads.lineBreak_text {t : Token} {cs rest : List Char} (h : t.Heads cs rest)
    (hk : t.kind = .lineBreak) : t.text.toList = ['\n'] := by
  obtain ⟨c, tail, n, _, _, hs, ht, _⟩ := h.scanned
  rw [hk] at hs
  obtain ⟨rfl, rfl⟩ := hs.lineBreak_inv
  exact ht

theorem isGap_ne {c : Char} (h : isGap c = true) : c ≠ '\n' := by
  rintro rfl
  cases h

/-- Behind a line comment stands a line break. -/
theorem EndsLine.kind {offset : Nat} {rest : List Char} {t : Token} {ts : List Token}
    (h : EndsLine rest) (ht : Tile offset rest (t :: ts)) : t.kind = .lineBreak := by
  obtain ⟨gap, body, after, rfl, hg, _, ht, _⟩ := ht.cons_inv
  obtain ⟨c, tail, n, rfl, hc, hs, _, _⟩ := ht
  have newline {cs : List Char} (he : c :: tail = '\n' :: cs) : t.kind = .lineBreak := by
    cases he
    injection hs with hs
    exact (congrArg Prod.fst hs).symm
  cases gap with
  | nil =>
      rcases h with h | ⟨cs, h⟩ | h | ⟨cs, h⟩
      · cases h
      · exact newline h
      · cases h; cases hc
      · cases h; cases hc
  | cons g gap =>
      have hg := List.forall_mem_cons.mp hg
      rcases h with h | ⟨cs, h⟩ | h | ⟨cs, h⟩
      · cases h
      · cases h; cases hg.1
      · cases gap <;> cases h
      · cases gap with
        | nil => cases h; exact newline rfl
        | cons g gap => cases h; cases hg.2 _ List.mem_cons_self

/-- Two tokens in a row and the text in front of the second. -/
theorem Tile.adjacent {cs : List Char} {us ts : List Token} {u t : Token}
    (h : Tile 0 cs (us ++ u :: t :: ts)) :
    ∃ front gap body rest, cs = front ++ u.text.toList ++ gap ++ body ∧
      byteLen (front ++ u.text.toList) = u.stop ∧
      byteLen (front ++ u.text.toList ++ gap) = t.start ∧ (∀ c ∈ gap, isGap c = true) ∧
      u.Heads (u.text.toList ++ (gap ++ body)) (gap ++ body) ∧ t.Heads body rest ∧
      Tile u.stop (gap ++ body) (t :: ts) := by
  obtain ⟨front, cs, rfl, h, _⟩ := h.append_inv
  obtain ⟨gap₀, body₀, rest₀, rfl, _, hu, hu', h⟩ := h.cons_inv
  have ht := h
  obtain ⟨gap, body, rest, rfl, hg, ht, ht', _⟩ := h.cons_inv
  have hb := hu'.append
  subst hb
  refine ⟨front ++ gap₀, gap, body, rest, by simp, ?_, ?_, hg, hu', ht', by assumption⟩
  · rw [stop_eq, hu, byteLen_append, byteLen_append]
    omega
  · rw [ht, stop_eq, hu, byteLen_append, byteLen_append, byteLen_append]
    omega

end Token

namespace SourceText

open Token Text

variable {s : SourceText} {us ts : List Token} {u t : Token}

theorem lineHead_append {front rest : List Char} (h : s.chars = front ++ rest) :
    s.lineHead (byteLen front) = lastLine front := by
  rw [lineHead_eq, h, takeBytes_byteLen, lastLine]

/-- The line of a token behind a line break starts there. -/
theorem lineStart_of_lineBreak (h : Tile 0 s.chars (us ++ u :: t :: ts))
    (hk : u.kind = .lineBreak) : s.lineStart t.start = u.stop := by
  obtain ⟨front, gap, body, rest, hs, hu, ht, hg, hu', -, -⟩ := h.adjacent
  have hn : '\n' ∉ gap := fun hm => isGap_ne (hg _ hm) rfl
  rw [lineStart, ← ht, lineHead_append hs, lastLine_append _ hn, lastLine_eq_nil, List.nil_append,
    byteLen_append, hu, Nat.add_sub_cancel]
  rw [hu'.lineBreak_text hk]
  simp

/-- A declaration starts with its first token or right behind the token in front. -/
theorem declStart_eq (h : Tile 0 s.chars (us ++ u :: t :: ts)) (hk : t.kind ≠ .lineBreak) :
    s.declStart t.start = u.stop ∨ s.declStart t.start = t.start := by
  obtain ⟨front, gap, body, rest, hs, hu, ht, hg, hu', -, htile⟩ := h.adjacent
  have hn : '\n' ∉ gap := fun hm => isGap_ne (hg _ hm) rfl
  have hhead : s.lineHead t.start = lastLine (front ++ u.text.toList) ++ gap := by
    rw [← ht, lineHead_append hs, lastLine_append _ hn]
  unfold declStart
  dsimp only
  rw [hhead]
  split
  · rename_i hall
    left
    obtain ⟨c, tail, n, hc, hg, hscan, htext, hrest⟩ := hu'.scanned
    obtain ⟨b, hb⟩ : ∃ b, u.text.toList.getLast? = some b := by
      rw [htext, List.getLast?_cons]
      exact ⟨_, rfl⟩
    have hlast : (front ++ u.text.toList).getLast? = some b := by
      rw [List.getLast?_append, hb]
      rfl
    by_cases hbn : b = '\n'
    · rw [lastLine_eq_nil (hbn ▸ hlast), List.nil_append, ← ht, byteLen_append, hu,
        Nat.add_sub_cancel]
    · have hblank := List.all_eq_true.mp hall b
        (List.mem_append_left _ (mem_lastLine hlast hbn))
      rw [htext] at hb
      have hend := hscan.endsLine hg hb hblank
      rw [← hrest] at hend
      exact absurd (hend.kind htile) hk
  · exact .inr rfl

end SourceText

end StructLayout
