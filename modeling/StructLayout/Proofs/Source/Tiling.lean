import Mathlib
import StructLayout.Proofs.Source.Spans

/-!
Tokens tile their text. They stand in it in order and between characters, with nothing but blanks
between them, so that the blanks and the tokens together are the text, and what lies between the start
of a token and the end of a later one can be cut out.
-/

namespace StructLayout

namespace Text

variable {cs front mid : List Char} {m n : Nat}

/-- A part of a text that splits no character. -/
structure Cut (cs : List Char) (m n : Nat) : Prop where
  le : m ≤ n
  left : Boundary cs m
  right : Boundary cs n

theorem cut_of_append (rest : List Char) (h : cs = front ++ mid ++ rest) (hm : byteLen front = m)
    (hn : m + byteLen mid = n) : Cut cs m n ∧ slice m n cs = mid := by
  subst h hm hn
  refine ⟨⟨Nat.le_add_right _ _, ⟨front, mid ++ rest, List.append_assoc _ _ _, rfl⟩, ?_⟩,
    slice_append front mid rest⟩
  exact ⟨front ++ mid, rest, rfl, byteLen_append _ _⟩

end Text

namespace Token

open Text

variable {cs front : List Char} {p : Nat} {t u : Token} {xs ts : List Token}

/-! ## Blanks and tokens -/

/-- The blanks in front of tokens and their texts, taken from a text at their places. -/
def interleave (cs : List Char) : Nat → List Token → List Char
  | _, [] => []
  | p, t :: ts => slice p t.start cs ++ slice t.start t.stop cs ++ interleave cs t.stop ts

/-- A token stands behind a byte with nothing but blanks in front of it, and has the text at its
place. -/
structure Seam (cs : List Char) (p : Nat) (t : Token) : Prop where
  gap : Cut cs p t.start
  blank : ∀ c ∈ slice p t.start cs, isGap c = true
  token : Cut cs t.start t.stop
  text : slice t.start t.stop cs = t.text.toList

/-- The token at the end of a text. -/
def last (cs : List Char) : Token :=
  ⟨.eof, byteLen cs, ""⟩

theorem stop_last (cs : List Char) : (last cs).stop = byteLen cs :=
  Nat.add_zero _

theorem Tile.blank (h : Tile p cs []) : ∀ c ∈ cs, isGap c = true := by
  generalize hts : [] = ts at h
  induction h with
  | nil => exact List.forall_mem_nil _
  | gap hc _ ih => exact List.forall_mem_cons.mpr ⟨hc, ih hts⟩
  | token => cases hts

theorem seam_of_append {gap rest : List Char} (h : cs = front ++ gap ++ t.text.toList ++ rest)
    (hp : byteLen front = p) (hg : ∀ c ∈ gap, isGap c = true) (ht : t.start = p + byteLen gap) :
    Seam cs p t ∧ slice p t.start cs = gap := by
  have hgap : cs = front ++ gap ++ (t.text.toList ++ rest) := by rw [h, List.append_assoc]
  obtain ⟨hcut, hslice⟩ := cut_of_append _ hgap hp ht.symm
  obtain ⟨htoken, htext⟩ := cut_of_append (m := t.start) (n := t.stop) _ h
    (by rw [byteLen_append, hp, ht]) (stop_eq t).symm
  exact ⟨⟨hcut, by rwa [hslice], htoken, htext⟩, hslice⟩

/-- Each token is joined to what is in front of it, and the last one to the end. -/
theorem Tile.seam (h : Tile 0 cs ts) {rest : List Token} (hts : ts ++ [last cs] = xs ++ t :: rest) :
    Seam cs ((xs.getLast?.map stop).getD 0) t := by
  rcases List.eq_nil_or_concat rest with rfl | ⟨init, u, rfl⟩
  · obtain ⟨rfl, ht⟩ := List.append_inj' hts rfl
    cases ht
    rw [← ts.append_nil] at h
    obtain ⟨front, gap, hcs, htile, hend⟩ := h.append_inv
    rw [Nat.zero_add] at hend
    have hstart : (last cs).start = byteLen front + byteLen gap := by
      rw [← byteLen_append, ← hcs]
      rfl
    have hcs : cs = front ++ gap ++ (last cs).text.toList ++ [] := by simpa [last] using hcs
    rw [← hend]
    exact (seam_of_append hcs rfl htile.blank hstart).1
  · have hts : ts ++ [last cs] = (xs ++ t :: init) ++ [u] := by simpa using hts
    obtain ⟨rfl, -⟩ := List.append_inj' hts rfl
    obtain ⟨front, cs, rfl, htile, hend⟩ := h.append_inv
    rw [Nat.zero_add] at htile hend
    obtain ⟨gap, body, rest, rfl, hg, hstart, hheads, -⟩ := htile.cons_inv
    have hcs : front ++ (gap ++ body) = front ++ gap ++ t.text.toList ++ rest := by
      rw [hheads.append]
      simp
    rw [← hend]
    exact (seam_of_append hcs rfl hg hstart).1

/-- Blanks and tokens together are the text. -/
theorem Tile.interleave (front : List Char) (h : Tile (byteLen front) cs ts) :
    interleave (front ++ cs) (byteLen front) (ts ++ [last (front ++ cs)]) = cs := by
  induction ts generalizing front cs with
  | nil =>
      have hgap : slice (byteLen front) (last (front ++ cs)).start (front ++ cs) = cs :=
        (cut_of_append [] (List.append_nil _).symm rfl (byteLen_append front cs).symm).2
      have hend : slice (last (front ++ cs)).start (last (front ++ cs)).stop (front ++ cs) = [] := by
        rw [stop_last, last, slice, Nat.sub_self, takeBytes]
      rw [List.nil_append, Token.interleave, Token.interleave, hgap, hend, List.append_nil,
        List.append_nil]
  | cons t ts ih =>
      obtain ⟨gap, body, rest, rfl, hg, hstart, hheads, htail⟩ := h.cons_inv
      obtain rfl := hheads.append
      have hcs : front ++ (gap ++ (t.text.toList ++ rest)) = front ++ gap ++ t.text.toList ++ rest := by
        simp
      obtain ⟨hseam, hslice⟩ := seam_of_append hcs rfl hg hstart
      have hstop : t.stop = byteLen (front ++ gap ++ t.text.toList) := by
        rw [stop_eq, hstart, byteLen_append, byteLen_append]
      rw [hstop] at htail
      have hrest := ih _ htail
      rw [← hstop, ← hcs] at hrest
      rw [List.cons_append, Token.interleave, hslice, hseam.text, hrest, List.append_assoc]

/-- Tokens stand behind a byte in order, inside the text, and are not empty. -/
theorem Tile.apart (h : Tile p cs ts) :
    (∀ t ∈ ts, p ≤ t.start ∧ t.start < t.stop ∧ t.stop ≤ p + byteLen cs) ∧
      ts.Pairwise fun t u => t.stop ≤ u.start := by
  induction ts generalizing p cs with
  | nil => exact ⟨List.forall_mem_nil _, .nil⟩
  | cons t ts ih =>
      obtain ⟨gap, body, rest, rfl, -, hstart, hheads, h⟩ := h.cons_inv
      obtain ⟨hall, hapart⟩ := ih h
      have hlt := hheads.start_lt_stop
      have hlen : p + byteLen (gap ++ body) = t.stop + byteLen rest := by
        rw [hheads.append, stop_eq, hstart]
        simp only [byteLen_append]
        omega
      rw [hlen]
      refine ⟨List.forall_mem_cons.mpr ⟨⟨by omega, hlt, by omega⟩, fun u hu => ?_⟩,
        List.pairwise_cons.mpr ⟨fun u hu => (hall u hu).1, hapart⟩⟩
      obtain ⟨hle, hu, hstop⟩ := hall u hu
      exact ⟨by omega, hu, hstop⟩

theorem Scanned.kind_ne {c : Char} {cs : List Char} {kind : TokenKind} {n : Nat}
    (h : Scanned c cs kind n) : kind ≠ .eof := by
  cases h with
  | number =>
      unfold Token.number
      dsimp only
      split <;> decide
  | delimiter hk =>
      rintro rfl
      unfold delimiter? at hk
      split at hk <;> cases hk
  | _ => decide

theorem Tile.kind_ne (h : Tile p cs ts) : ∀ t ∈ ts, t.kind ≠ .eof := by
  induction h with
  | nil => exact List.forall_mem_nil _
  | gap _ _ ih => exact ih
  | token ht _ ih =>
      obtain ⟨c, tail, n, -, -, hscan, -, -⟩ := ht.scanned
      exact List.forall_mem_cons.mpr ⟨hscan.kind_ne, ih⟩

/-- Tokens tile a text: the last one, and only that one, is empty and marks the end, and each is joined
to the one in front of it. -/
structure Tiling (cs : List Char) (ts : List Token) : Prop where
  last : ∃ init, ts = init ++ [last cs] ∧ ∀ t ∈ init, t.kind ≠ .eof ∧ t.start < t.stop
  seam : ∀ xs t rest, ts = xs ++ t :: rest → Seam cs ((xs.getLast?.map stop).getD 0) t
  apart : ts.Pairwise fun t u => t.stop ≤ u.start
  whole : interleave cs 0 ts = cs

theorem Tile.tiling (h : Tile 0 cs ts) : Tiling cs (ts ++ [last cs]) := by
  obtain ⟨hall, hapart⟩ := h.apart
  refine ⟨⟨ts, rfl, fun t ht => ⟨h.kind_ne t ht, (hall t ht).2.1⟩⟩,
    fun xs t rest hts => h.seam hts, ?_, h.interleave []⟩
  rw [List.pairwise_append]
  refine ⟨hapart, List.pairwise_singleton _ _, fun t ht u hu => ?_⟩
  rw [List.mem_singleton.mp hu]
  exact (hall t ht).2.2.trans (Nat.le_of_eq (Nat.zero_add _))

theorem Tiling.seam_of_mem (h : Tiling cs ts) (ht : t ∈ ts) : ∃ p, Seam cs p t := by
  obtain ⟨xs, rest, rfl⟩ := List.append_of_mem ht
  exact ⟨_, h.seam xs t rest rfl⟩

/-- The text from a token up to a later one can be cut out. -/
theorem Tiling.cut {rest : List Token} (h : Tiling cs (xs ++ t :: rest)) (hu : u ∈ t :: rest) :
    Cut cs t.start u.stop := by
  obtain ⟨p, hfirst⟩ := h.seam_of_mem (List.mem_append_right xs List.mem_cons_self)
  obtain ⟨q, hlast⟩ := h.seam_of_mem (List.mem_append_right xs hu)
  refine ⟨?_, hfirst.token.left, hlast.token.right⟩
  rcases List.mem_cons.mp hu with rfl | hu
  · exact hfirst.token.le
  · have hapart := (List.pairwise_append.mp h.apart).2.1
    have := (List.pairwise_cons.mp hapart).1 u hu
    have := hfirst.token.le
    have := hlast.token.le
    omega

end Token

/-! ## What readers cut out -/

namespace SourceText

open Token Text

variable {s : SourceText}

/-- What is in front of a place on its line, and the blanks at the start of that line. -/
theorem lineStart_cut {n : Nat} (h : Boundary s.chars n) : Cut s.chars (s.lineStart n) n ∧
    Cut s.chars (s.lineStart n) (s.lineStart n + byteLen (s.lineIndent n).toList) := by
  obtain ⟨front, rest, hs, rfl⟩ := h
  obtain ⟨init, hinit⟩ : ∃ init, front = init ++ lastLine front := by
    refine ⟨(front.reverse.dropWhile (· != '\n')).reverse, ?_⟩
    rw [lastLine, ← List.reverse_append, List.takeWhile_append_dropWhile, List.reverse_reverse]
  have hstart : s.lineStart (byteLen front) = byteLen init := by
    have hlen := congrArg byteLen hinit
    rw [byteLen_append] at hlen
    rw [lineStart, lineHead_append hs, hlen, Nat.add_sub_cancel]
  have hline : s.chars = init ++ (lastLine front ++ rest) := by
    rw [hs, ← List.append_assoc, ← hinit]
  have hindent := List.takeWhile_append_dropWhile (p := isIndentChar) (l := lastLine front ++ rest)
  rw [hstart, lineIndent, hstart, String.toList_ofList]
  conv in dropBytes _ _ => rw [hline, dropBytes_byteLen]
  constructor
  · refine (cut_of_append rest (by rw [hs, ← hinit]) rfl ?_).1
    rw [← byteLen_append, ← hinit]
  · refine (cut_of_append ((lastLine front ++ rest).dropWhile isIndentChar) ?_ rfl rfl).1
    rw [List.append_assoc, hindent, hline]

/-- Whatever readers of these tokens cut out of the text can be cut out: the text from a token up to a
later one, wherever they stand, and what is in front of a token on its line. -/
structure Sliceable (s : SourceText) (ts : List Token) : Prop where
  between : ∀ xs t rest, ts = xs ++ t :: rest → ∀ u ∈ t :: rest, Cut s.chars t.start u.stop
  passed : ∀ xs c seg d, (Cursor.ofTokens ts (byteLen s.chars)).Passes xs c → c.Passes seg d →
    seg ≠ [] → Cut s.chars c.token.start d.lastStop
  line : ∀ t ∈ ts, Cut s.chars (s.lineStart t.start) t.start ∧
    Cut s.chars (s.lineStart t.start) (s.lineStart t.start + byteLen (s.lineIndent t.start).toList)

theorem sliceable_of_tiling {ts : List Token} (h : Tiling s.chars ts) : s.Sliceable ts := by
  have between (xs : List Token) (t : Token) (rest : List Token) (hts : ts = xs ++ t :: rest) :
      ∀ u ∈ t :: rest, Cut s.chars t.start u.stop := fun u hu => (hts ▸ h).cut hu
  refine ⟨between, fun xs c seg d hc hd hne => ?_, fun t ht => ?_⟩
  · obtain ⟨init, hts, -⟩ := h.last
    have hahead : init = xs ++ (seg ++ d.ahead) := by
      have hahead : ts.dropLast = xs ++ c.ahead := hc.ahead
      rw [hts, List.dropLast_concat] at hahead
      rw [hahead, hd.ahead]
    cases seg with
    | nil => exact absurd rfl hne
    | cons t seg =>
        have htoken : c.token = t := by
          rw [Cursor.token, Cursor.peek, hd.ahead]
          rfl
        have hlast : d.lastStop = ((t :: seg).getLast hne).stop := by
          rw [Cursor.lastStop_passes hd, List.getLast?_eq_getLast_of_ne_nil hne]
          rfl
        rw [htoken, hlast]
        refine between xs t (seg ++ d.ahead ++ [Token.last s.chars]) (by rw [hts, hahead]; simp) _ ?_
        rw [List.append_assoc, ← List.cons_append]
        exact List.mem_append_left _ (List.getLast_mem hne)
  · obtain ⟨p, hseam⟩ := h.seam_of_mem ht
    exact lineStart_cut hseam.token.left

/-- The tokenizer finds what is left open, or it tiles the text with tokens. -/
theorem tokenize_tiles (s : SourceText) : (∃ e, tokenize s.chars = .error e) ∨
    ∃ ts, tokenize s.chars = .ok ts ∧ Tiling s.chars ts ∧ s.Sliceable ts := by
  cases h : tokenize s.chars with
  | error e => exact .inl ⟨e, rfl⟩
  | ok ts =>
      obtain ⟨init, rfl, htile⟩ := tokensFrom_eq_ok.mp h
      have htiling : Tiling s.chars (init ++ [⟨.eof, 0 + byteLen s.chars, ""⟩]) := by
        rw [Nat.zero_add]
        exact htile.tiling
      exact .inr ⟨_, rfl, htiling, sliceable_of_tiling htiling⟩

end SourceText

end StructLayout
