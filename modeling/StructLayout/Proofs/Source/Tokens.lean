import StructLayout.Proofs.Sequence
import StructLayout.Source.Cursor

/-!
The tokens of a text in their places. What stands between two of them is blank, and of all tokens
only a line comment can end with a blank.
-/

namespace StructLayout

theorem Text.utf8ByteSize_ofList (cs : List Char) :
    (String.ofList cs).utf8ByteSize = byteLen cs := by
  induction cs with
  | nil => rfl
  | cons c cs ih =>
      rw [String.ofList_cons, String.utf8ByteSize_append, ih, byteLen_cons,
        String.utf8ByteSize_singleton]

theorem Text.eq_nil_of_byteLen {cs : List Char} (h : byteLen cs = 0) : cs = [] := by
  cases cs with
  | nil => rfl
  | cons c cs =>
      have := c.utf8Size_pos
      rw [byteLen_cons] at h
      omega

theorem Text.isIdent_of_isDigit {c : Char} (h : c.isDigit = true) : isIdent c = true := by
  have hc : c.toNat < 128 := by
    simp only [Char.isDigit, Bool.and_eq_true, decide_eq_true_eq, ge_iff_le,
      UInt32.le_iff_toNat_le] at h
    exact Nat.lt_of_le_of_lt h.2 (by decide)
  simp [isIdent, isAlphanumeric_ascii hc, Char.isAlphanum, h]

theorem Text.isDigit_eq_false {c : Char} (h : isIdent c = false) : c.isDigit = false := by
  cases hd : c.isDigit with
  | false => rfl
  | true => rw [isIdent_of_isDigit hd] at h; cases h

namespace Token

open Text

/-! ## What a token is made of -/

/-- A character starts an operator, given what stands behind it. -/
structure StartsOp (c : Char) (cs : List Char) : Prop where
  plain : delimiter? c = none ∧ c ≠ '\n' ∧ c ≠ '"' ∧ c ≠ '\x27' ∧ c ≠ '\x60'
  slash : c = '/' → cs.head? ≠ some '/' ∧ cs.head? ≠ some '*'
  less : c = '<' → cs.head? ≠ some '-'
  equals : c = '=' → cs.head? = some '='

/-- The ways to scan a token, by its first character. -/
inductive Scanned (c : Char) (cs : List Char) : TokenKind → Nat → Prop
  | lineBreak (hc : c = '\n') : Scanned c cs .lineBreak 0
  | lineComment (hc : c = '/') (hs : cs.head? = some '/') :
      Scanned c cs .comment (lineCommentTail cs)
  | blockComment {n : Nat} (hc : c = '/') (hs : cs.head? = some '*')
      (hn : closeComment cs.tail = some n) : Scanned c cs .comment (n + 1)
  | string {n : Nat} (hc : c = '"') (hn : closeQuote c cs = some n) : Scanned c cs .string n
  | char {n : Nat} (hc : c = '\x27') (hn : closeQuote c cs = some n) : Scanned c cs .char n
  | rawString {n : Nat} (hc : c = '\x60') (hn : closeRaw c cs = some n) : Scanned c cs .rawString n
  | number (hc : c.isDigit = true ∨ c = '.' ∧ cs.head?.any Char.isDigit = true) :
      Scanned c cs (number c cs).1 (number c cs).2
  | ellipsis (hc : c = '.') (hs : ['.', '.'].isPrefixOf cs = true) : Scanned c cs .ellipsis 2
  | arrow (hc : c = '<') (hs : cs.head? = some '-') : Scanned c cs .arrow 1
  | assign (hc : c = '=') (hs : cs.head? ≠ some '=') : Scanned c cs .assign 0
  | delimiter {kind : TokenKind} (hk : delimiter? c = some kind)
      (hd : c = '.' → cs.head?.any Char.isDigit = false ∧ ['.', '.'].isPrefixOf cs = false) :
      Scanned c cs kind 0
  | ident (hc : isIdent c = true) (hd : c.isDigit = false) :
      Scanned c cs .ident (cs.takeWhile isIdent).length
  | other (hc : 128 ≤ c.toNat) (hi : isIdent c = false) : Scanned c cs .op 0
  | op (hc : ¬128 ≤ c.toNat) (hi : isIdent c = false) (ho : StartsOp c cs) :
      Scanned c cs .op (cs.takeWhile isOpChar).length

theorem scanned_of_scan {c : Char} {cs : List Char} {kind : TokenKind} {n : Nat}
    (h : scan c cs = .ok (kind, n)) : Scanned c cs kind n := by
  unfold scan at h
  dsimp only at h
  by_cases hbreak : c = '\n'
  · rw [if_pos hbreak] at h
    cases h
    exact .lineBreak hbreak
  rw [if_neg hbreak] at h
  by_cases hline : (c = '/' && cs.head? = some '/') = true
  · rw [if_pos hline] at h
    simp only [Bool.and_eq_true, decide_eq_true_eq] at hline
    cases h
    exact .lineComment hline.1 hline.2
  rw [if_neg hline] at h
  by_cases hblock : (c = '/' && cs.head? = some '*') = true
  · rw [if_pos hblock] at h
    simp only [Bool.and_eq_true, decide_eq_true_eq] at hblock
    cases hn : closeComment cs.tail with
    | none => rw [hn] at h; cases h
    | some m =>
        rw [hn] at h
        cases h
        exact .blockComment hblock.1 hblock.2 hn
  rw [if_neg hblock] at h
  by_cases hstring : c = '"'
  · rw [if_pos hstring] at h
    cases hn : closeQuote c cs with
    | none => rw [hn] at h; cases h
    | some m => rw [hn] at h; cases h; exact .string hstring hn
  rw [if_neg hstring] at h
  by_cases hchar : c = '\x27'
  · rw [if_pos hchar] at h
    cases hn : closeQuote c cs with
    | none => rw [hn] at h; cases h
    | some m => rw [hn] at h; cases h; exact .char hchar hn
  rw [if_neg hchar] at h
  by_cases hraw : c = '\x60'
  · rw [if_pos hraw] at h
    cases hn : closeRaw c cs with
    | none => rw [hn] at h; cases h
    | some m => rw [hn] at h; cases h; exact .rawString hraw hn
  rw [if_neg hraw] at h
  by_cases hnumber : (c.isDigit || (c = '.' && cs.head?.any Char.isDigit)) = true
  · rw [if_pos hnumber] at h
    simp only [Bool.or_eq_true, Bool.and_eq_true, decide_eq_true_eq] at hnumber
    injection h with h
    have hn : Scanned c cs (number c cs).1 (number c cs).2 := .number hnumber
    rwa [h] at hn
  rw [if_neg hnumber] at h
  by_cases hdots : (c = '.' && ['.', '.'].isPrefixOf cs) = true
  · rw [if_pos hdots] at h
    simp only [Bool.and_eq_true, decide_eq_true_eq] at hdots
    cases h
    exact .ellipsis hdots.1 hdots.2
  rw [if_neg hdots] at h
  by_cases harrow : (c = '<' && cs.head? = some '-') = true
  · rw [if_pos harrow] at h
    simp only [Bool.and_eq_true, decide_eq_true_eq] at harrow
    cases h
    exact .arrow harrow.1 harrow.2
  rw [if_neg harrow] at h
  by_cases hassign : (c = '=' && cs.head? != some '=') = true
  · rw [if_pos hassign] at h
    simp only [Bool.and_eq_true, decide_eq_true_eq, bne_iff_ne] at hassign
    cases h
    exact .assign hassign.1 hassign.2
  rw [if_neg hassign] at h
  cases hk : delimiter? c with
  | some found =>
      rw [hk] at h
      cases h
      refine .delimiter hk fun hdot => ⟨?_, ?_⟩
      · simpa [hdot] using hnumber
      · simpa only [hdot, decide_true, Bool.true_and, Bool.not_eq_true] using hdots
  | none =>
      rw [hk] at h
      dsimp only at h
      have hd : c.isDigit = false := by
        cases hd : c.isDigit with
        | false => rfl
        | true => rw [hd] at hnumber; exact absurd rfl hnumber
      by_cases hi : isIdent c = true
      · rw [if_pos hi] at h
        cases h
        exact .ident hi hd
      rw [if_neg hi] at h
      have hi : isIdent c = false := by simpa using hi
      by_cases hc : 128 ≤ c.toNat
      · rw [if_pos hc] at h
        cases h
        exact .other hc hi
      · rw [if_neg hc] at h
        cases h
        refine .op hc hi ⟨⟨hk, hbreak, hstring, hchar, hraw⟩, fun hs => ⟨?_, ?_⟩, fun hs => ?_,
          fun hs => ?_⟩
        · simpa [hs] using hline
        · simpa [hs] using hblock
        · simpa [hs] using harrow
        · simpa [hs] using hassign

/-- Characters that need a look at what stands behind them. -/
def marks : List Char := ['\n', '/', '"', '\x27', '\x60', '.', '<', '=']

theorem scan_of_not_mem_marks {c : Char} {cs : List Char} (hc : c ∉ marks)
    (hd : c.isDigit = false) :
    scan c cs = match delimiter? c with
      | some kind => .ok (kind, 0)
      | none =>
        if isIdent c then .ok (.ident, (cs.takeWhile isIdent).length)
        else if 128 ≤ c.toNat then .ok (.op, 0)
        else .ok (.op, (cs.takeWhile isOpChar).length) := by
  simp only [marks, List.mem_cons, List.not_mem_nil, or_false, not_or] at hc
  cases hk : delimiter? c <;>
    simp only [scan, hc, hd, hk, if_false, decide_false, Bool.false_and, Bool.or_false,
      Bool.false_eq_true]

theorem not_mem_marks {c : Char} (h : isIdent c = true) : c ∉ marks := by
  intro hm
  simp only [marks, List.mem_cons, List.not_mem_nil, or_false] at hm
  rcases hm with rfl | rfl | rfl | rfl | rfl | rfl | rfl | rfl <;> cases h

theorem delimiter?_of_isIdent {c : Char} (h : isIdent c = true) : delimiter? c = none := by
  unfold delimiter?
  split <;> first | rfl | cases h

theorem scan_of_scanned {c : Char} {cs : List Char} {kind : TokenKind} {n : Nat}
    (h : Scanned c cs kind n) : scan c cs = .ok (kind, n) := by
  cases h with
  | lineBreak hc => subst hc; rfl
  | lineComment hc hs => subst hc; simp [scan, hs]
  | blockComment hc hs hn => subst hc; simp [scan, hs, hn]
  | string hc hn => subst hc; simp [scan, hn]
  | char hc hn => subst hc; simp [scan, hn]
  | rawString hc hn => subst hc; simp [scan, hn]
  | number hc =>
      rcases hc with hd | ⟨rfl, hs⟩
      · have hm := not_mem_marks (isIdent_of_isDigit hd)
        simp only [marks, List.mem_cons, List.not_mem_nil, or_false, not_or] at hm
        simp [scan, hm, hd]
      · simp [scan, hs]
  | ellipsis hc hs =>
      subst hc
      obtain ⟨rest, rfl⟩ := List.isPrefixOf_iff_prefix.mp hs
      rfl
  | arrow hc hs => subst hc; simp [scan, hs]
  | assign hc hs => subst hc; simp [scan, hs]
  | delimiter hk hd =>
      by_cases hc : c = '.'
      · subst hc
        cases hk
        simp [scan, hd rfl, delimiter?]
      · rw [scan_of_not_mem_marks, hk]
        · intro hm
          simp only [marks, List.mem_cons, List.not_mem_nil, or_false] at hm
          rcases hm with rfl | rfl | rfl | rfl | rfl | rfl | rfl | rfl <;> contradiction
        · cases hd : c.isDigit with
          | false => rfl
          | true => rw [delimiter?_of_isIdent (isIdent_of_isDigit hd)] at hk; cases hk
  | ident hc hd =>
      rw [scan_of_not_mem_marks (not_mem_marks hc) hd, delimiter?_of_isIdent hc]
      simp [hc]
  | other hc hi =>
      have hm : c ∉ marks := by
        intro hm
        simp only [marks, List.mem_cons, List.not_mem_nil, or_false] at hm
        rcases hm with rfl | rfl | rfl | rfl | rfl | rfl | rfl | rfl <;> revert hc <;> decide
      have hk : delimiter? c = none := by
        unfold delimiter?
        split <;> first | rfl | (revert hc; decide)
      rw [scan_of_not_mem_marks hm (isDigit_eq_false hi), hk]
      simp [hi, hc]
  | op hc hi ho =>
      obtain ⟨⟨hk, hm⟩, hslash, hless, hequals⟩ := ho
      have hdot : c ≠ '.' := by rintro rfl; cases hk
      by_cases h₁ : c = '/'
      · subst h₁
        simp [scan, hslash rfl, delimiter?, hi]
      by_cases h₂ : c = '<'
      · subst h₂
        simp [scan, hless rfl, delimiter?, hi]
      by_cases h₃ : c = '='
      · subst h₃
        simp [scan, hequals rfl, delimiter?, hi]
      rw [scan_of_not_mem_marks (by simp [marks, *]) (isDigit_eq_false hi), hk]
      simp [hi, hc]

theorem scan_eq_ok {c : Char} {cs : List Char} {kind : TokenKind} {n : Nat} :
    scan c cs = .ok (kind, n) ↔ Scanned c cs kind n :=
  ⟨scanned_of_scan, scan_of_scanned⟩

/-! ## Blanks at the end of a token -/

theorem closeComment_last {cs : List Char} {n : Nat} (h : closeComment cs = some n) :
    (cs.take n).getLast? = some '/' := by
  induction cs generalizing n with
  | nil => cases h
  | cons c cs ih =>
      unfold closeComment at h
      split at h
      · cases h
      · rename_i heq
        cases heq
        cases h
        rfl
      · rename_i heq
        cases heq
        obtain ⟨m, hm, rfl⟩ := Option.map_eq_some_iff.mp h
        rw [List.take_succ_cons, List.getLast?_cons, ih hm]
        rfl

theorem closeQuote_last {mark : Char} {cs : List Char} {n : Nat}
    (h : closeQuote mark cs = some n) : (cs.take n).getLast? = some mark := by
  fun_induction closeQuote mark cs generalizing n with
  | case1 => cases h
  | case2 => cases h
  | case3 c cs ih =>
      obtain ⟨m, hm, rfl⟩ := Option.map_eq_some_iff.mp h
      simp [List.getLast?_cons, ih hm]
  | case4 => cases h
  | case5 => cases h; simp
  | case6 c cs _ _ _ _ ih =>
      obtain ⟨m, hm, rfl⟩ := Option.map_eq_some_iff.mp h
      rw [List.take_succ_cons, List.getLast?_cons, ih hm]
      rfl

theorem closeRaw_last {mark : Char} {cs : List Char} {n : Nat} (h : closeRaw mark cs = some n) :
    (cs.take n).getLast? = some mark := by
  induction cs generalizing n with
  | nil => cases h
  | cons c cs ih =>
      unfold closeRaw at h
      split at h
      · rename_i hc; cases h; simp [hc]
      · obtain ⟨m, hm, rfl⟩ := Option.map_eq_some_iff.mp h
        rw [List.take_succ_cons, List.getLast?_cons, ih hm]
        rfl

theorem numberTail_mem {before : Char} {isFloat : Bool} {cs : List Char} :
    ∀ d ∈ cs.take (numberTail before isFloat cs).2,
      d.isAlphanum = true ∨ d = '_' ∨ d = '.' ∨ d = '+' ∨ d = '-' := by
  induction cs generalizing before isFloat with
  | nil => simp
  | cons c cs ih =>
      unfold numberTail
      by_cases hw : (c.isAlphanum || c == '_') = true
      · rw [if_pos hw]
        simp only [Bool.or_eq_true, beq_iff_eq] at hw
        refine List.forall_mem_cons.mpr ⟨?_, ih⟩
        exact hw.imp_right .inl
      rw [if_neg hw]
      split
      · rename_i hs
        simp only [Bool.or_eq_true, Bool.and_eq_true, beq_iff_eq] at hs
        refine List.forall_mem_cons.mpr ⟨?_, ih⟩
        rcases hs with hs | ⟨hs | hs, _⟩
        · exact .inr (.inr (.inl hs))
        · exact .inr (.inr (.inr (.inl hs)))
        · exact .inr (.inr (.inr (.inr hs)))
      · simp

/-- What follows a line comment: a line break, or a carriage return and a line break. -/
def EndsLine (rest : List Char) : Prop :=
  rest = [] ∨ (∃ cs, rest = '\n' :: cs) ∨ rest = ['\r'] ∨ ∃ cs, rest = '\r' :: '\n' :: cs

theorem dropWhile_newline (cs : List Char) :
    cs.dropWhile (· != '\n') = [] ∨ ∃ rest, cs.dropWhile (· != '\n') = '\n' :: rest := by
  have hc := List.head?_dropWhile_not (· != '\n') cs
  cases h : cs.dropWhile (· != '\n') with
  | nil => exact .inl rfl
  | cons c rest =>
      rw [h] at hc
      have hc : c = '\n' := by simpa using hc
      exact .inr ⟨rest, by rw [hc]⟩

theorem endsLine_drop_lineCommentTail (cs : List Char) :
    EndsLine (cs.drop (lineCommentTail cs)) := by
  have hsplit := List.takeWhile_append_dropWhile (p := (· != '\n')) (l := cs)
  have hrest := dropWhile_newline cs
  unfold lineCommentTail
  dsimp only
  generalize cs.takeWhile (· != '\n') = line at *
  generalize cs.dropWhile (· != '\n') = rest at *
  subst hsplit
  split
  · rename_i hr
    obtain ⟨start, rfl⟩ := List.getLast?_eq_some_iff.mp hr
    have hdrop : (start ++ ['\r'] ++ rest).drop ((start ++ ['\r']).length - 1) = '\r' :: rest := by
      simp
    rw [hdrop]
    rcases hrest with rfl | ⟨cs, rfl⟩
    · exact .inr (.inr (.inl rfl))
    · exact .inr (.inr (.inr ⟨cs, rfl⟩))
  · rw [List.drop_left]
    rcases hrest with rfl | ⟨cs, rfl⟩
    · exact .inl rfl
    · exact .inr (.inl ⟨cs, rfl⟩)

theorem not_blank_of_mem {c : Char} {xs : List Char} {b : Char} (hg : isGap c = false)
    (hx : ∀ x ∈ xs, SourceText.isIndentChar x = false) (hb : (c :: xs).getLast? = some b) :
    SourceText.isIndentChar b = false := by
  rcases List.mem_cons.mp (List.mem_of_getLast? hb) with rfl | hm
  · simp only [isGap, Bool.or_eq_false_iff] at hg
    simp [SourceText.isIndentChar, hg.1.1, hg.1.2]
  · exact hx b hm

/-- Of all tokens, only a comment that goes on to the end of its line can end with a blank. -/
theorem Scanned.endsLine {c : Char} {cs : List Char} {kind : TokenKind} {n : Nat} {b : Char}
    (h : Scanned c cs kind n) (hg : isGap c = false) (hl : (c :: cs.take n).getLast? = some b)
    (hb : SourceText.isIndentChar b = true) : EndsLine (cs.drop n) := by
  have none (hx : ∀ x ∈ cs.take n, SourceText.isIndentChar x = false) : False := by
    rw [not_blank_of_mem hg hx hl] at hb
    cases hb
  have last {m : Char} (hm : (cs.take n).getLast? = some m)
      (hi : SourceText.isIndentChar m = false) : False := by
    rw [List.getLast?_cons, hm] at hl
    cases hl
    exact absurd hi (by simpa using hb)
  cases h with
  | lineBreak => exact (none (by simp)).elim
  | lineComment => exact endsLine_drop_lineCommentTail cs
  | blockComment hc hs hn =>
      cases cs with
      | nil => cases hs
      | cons d cs =>
          refine (last (m := '/') ?_ rfl).elim
          rw [List.tail_cons] at hn
          rw [List.take_succ_cons, List.getLast?_cons, closeComment_last hn]
          rfl
  | string hc hn => exact (last (closeQuote_last hn) (by rw [hc]; rfl)).elim
  | char hc hn => exact (last (closeQuote_last hn) (by rw [hc]; rfl)).elim
  | rawString hc hn => exact (last (closeRaw_last hn) (by rw [hc]; rfl)).elim
  | number =>
      refine (none fun x hx => ?_).elim
      rcases numberTail_mem x hx with h | rfl | rfl | rfl | rfl
      · cases hx : SourceText.isIndentChar x with
        | false => rfl
        | true =>
            simp only [SourceText.isIndentChar, Bool.or_eq_true, beq_iff_eq] at hx
            rcases hx with rfl | rfl <;> cases h
      all_goals rfl
  | ellipsis hc hs =>
      obtain ⟨rest, rfl⟩ := List.isPrefixOf_iff_prefix.mp hs
      exact (none (by simp [SourceText.isIndentChar])).elim
  | arrow hc hs =>
      cases cs with
      | nil => cases hs
      | cons d cs =>
          cases hs
          exact (none (by simp [SourceText.isIndentChar])).elim
  | assign => exact (none (by simp)).elim
  | delimiter => exact (none (by simp)).elim
  | ident =>
      refine (none fun x hx => ?_).elim
      rw [← List.prefix_iff_eq_take.mp (List.takeWhile_prefix _)] at hx
      have hx := List.all_eq_true.mp List.all_takeWhile x hx
      cases hi : SourceText.isIndentChar x with
      | false => rfl
      | true =>
          simp only [SourceText.isIndentChar, Bool.or_eq_true, beq_iff_eq] at hi
          rcases hi with rfl | rfl <;> cases hx
  | other => exact (none (by simp)).elim
  | op =>
      refine (none fun x hx => ?_).elim
      rw [← List.prefix_iff_eq_take.mp (List.takeWhile_prefix _)] at hx
      have hx := List.all_eq_true.mp List.all_takeWhile x hx
      cases hi : SourceText.isIndentChar x with
      | false => rfl
      | true =>
          simp only [SourceText.isIndentChar, Bool.or_eq_true, beq_iff_eq] at hi
          rcases hi with rfl | rfl <;> cases hx

/-! ## Tokens and the blanks between them -/

/-- The token that a text starts with, and what is left behind it. -/
def Heads (t : Token) (cs rest : List Char) : Prop :=
  ∃ c tail n, cs = c :: tail ∧ isGap c = false ∧ scan c tail = .ok (t.kind, n) ∧
    t.text = String.ofList (c :: tail.take n) ∧ rest = tail.drop n

/-- The tokens of a text that starts at a byte. -/
inductive Tile : Nat → List Char → List Token → Prop
  | nil (offset : Nat) : Tile offset [] []
  | gap {offset : Nat} {c : Char} {cs : List Char} {ts : List Token} (hc : isGap c = true)
      (h : Tile (offset + c.utf8Size) cs ts) : Tile offset (c :: cs) ts
  | token {t : Token} {cs rest : List Char} {ts : List Token} (ht : t.Heads cs rest)
      (h : Tile t.stop rest ts) : Tile t.start cs (t :: ts)

theorem stop_eq (t : Token) : t.stop = t.start + byteLen t.text.toList := by
  rw [← utf8ByteSize_ofList, String.ofList_toList]
  rfl

theorem Heads.append {t : Token} {cs rest : List Char} (h : t.Heads cs rest) :
    cs = t.text.toList ++ rest := by
  obtain ⟨c, tail, n, rfl, _, _, ht, rfl⟩ := h
  rw [ht, String.toList_ofList, List.cons_append, List.take_append_drop]

theorem Heads.start_lt_stop {t : Token} {cs rest : List Char} (h : t.Heads cs rest) :
    t.start < t.stop := by
  obtain ⟨c, tail, n, _, _, _, ht, _⟩ := h
  have := c.utf8Size_pos
  rw [stop_eq, ht, String.toList_ofList, byteLen_cons]
  omega

/-- The tokenizer finds the tokens of a text in their places, and puts one at its end. -/
theorem tokensFrom_eq_ok {offset : Nat} {cs : List Char} {ts : List Token} :
    tokensFrom offset cs = .ok ts ↔
      ∃ init, ts = init ++ [⟨.eof, offset + byteLen cs, ""⟩] ∧ Tile offset cs init := by
  fun_induction tokensFrom offset cs generalizing ts with
  | case1 offset =>
      constructor
      · intro h
        cases h
        exact ⟨[], rfl, .nil offset⟩
      · rintro ⟨init, rfl, h⟩
        cases h with
        | nil => rfl
        | token ht =>
            obtain ⟨d, tail, n, hd, _⟩ := ht
            cases hd
  | case2 offset c cs hc ih =>
      rw [ih, byteLen_cons, Nat.add_assoc]
      refine exists_congr fun init => and_congr_right fun _ => ⟨.gap hc, fun h => ?_⟩
      cases h with
      | gap _ h => exact h
      | token ht =>
          obtain ⟨d, tail, n, hd, hg, _⟩ := ht
          cases hd
          exact absurd hc (by simp [hg])
  | case3 offset c cs hc what hs =>
      constructor
      · intro h; cases h
      · rintro ⟨init, rfl, h⟩
        cases h with
        | gap hg => exact absurd hg hc
        | token ht =>
            obtain ⟨d, tail, n, hd, _, hs', _⟩ := ht
            cases hd
            rw [hs] at hs'
            cases hs'
  | case4 offset c cs hc kind n hs text =>
      rename_i ih
      have hlen : byteLen (c :: cs.take n) + byteLen (cs.drop n) = byteLen (c :: cs) := by
        rw [← byteLen_append, List.cons_append, List.take_append_drop]
      have hheads : Heads ⟨kind, offset, String.ofList (c :: cs.take n)⟩ (c :: cs) (cs.drop n) :=
        ⟨c, cs, n, rfl, by simpa using hc, hs, rfl, rfl⟩
      have hstop : (⟨kind, offset, String.ofList (c :: cs.take n)⟩ : Token).stop =
          offset + byteLen (c :: cs.take n) := by
        rw [stop_eq, String.toList_ofList]
      rw [bind_eq_ok]
      constructor
      · rintro ⟨rest, hr, h⟩
        cases h
        obtain ⟨init, rfl, hi⟩ := ih.mp hr
        refine ⟨_ :: init, ?_, .token hheads ?_⟩
        · rw [← hlen, ← Nat.add_assoc]
          rfl
        · rwa [hstop]
      · rintro ⟨init, rfl, h⟩
        cases h with
        | gap hg => exact absurd hg hc
        | @token t _ _ ts ht h =>
            obtain ⟨d, tail, m, hd, _, hs', htext, rfl⟩ := ht
            cases hd
            rw [hs] at hs'
            cases hs'
            have hstop : t.stop = t.start + byteLen (c :: cs.take n) := by
              rw [stop_eq, htext, String.toList_ofList]
            rw [hstop] at h
            refine ⟨_, ih.mpr ⟨ts, rfl, h⟩, ?_⟩
            rw [← hlen, ← Nat.add_assoc, ← htext]
            rfl

/-- Tokens in their places, from some token on. -/
theorem Tile.cons_inv {offset : Nat} {cs : List Char} {t : Token} {ts : List Token}
    (h : Tile offset cs (t :: ts)) :
    ∃ gap body rest, cs = gap ++ body ∧ (∀ c ∈ gap, isGap c = true) ∧
      t.start = offset + byteLen gap ∧ t.Heads body rest ∧ Tile t.stop rest ts := by
  generalize hts : t :: ts = all at h
  induction h with
  | nil => cases hts
  | @gap offset c cs all hc _ ih =>
      obtain ⟨gap, body, rest, rfl, hg, hs, ht, h⟩ := ih hts
      refine ⟨c :: gap, body, rest, rfl, List.forall_mem_cons.mpr ⟨hc, hg⟩, ?_, ht, h⟩
      rw [hs, byteLen_cons, Nat.add_assoc]
  | token ht h =>
      cases hts
      exact ⟨[], _, _, rfl, by simp, rfl, ht, h⟩

theorem Tile.append_inv {offset : Nat} {cs : List Char} {xs ts : List Token}
    (h : Tile offset cs (xs ++ ts)) :
    ∃ front rest, cs = front ++ rest ∧ Tile (offset + byteLen front) rest ts ∧
      offset + byteLen front = (xs.getLast?.map stop).getD offset := by
  induction xs generalizing offset cs with
  | nil => exact ⟨[], cs, rfl, h, rfl⟩
  | cons t xs ih =>
      obtain ⟨gap, body, rest, rfl, _, hs, ht, h⟩ := h.cons_inv
      obtain ⟨front, rest, rfl, h, hl⟩ := ih h
      have hoff : offset + byteLen (gap ++ (t.text.toList ++ front)) = t.stop + byteLen front := by
        rw [stop_eq, hs, byteLen_append, byteLen_append]
        omega
      refine ⟨gap ++ (t.text.toList ++ front), rest, by rw [ht.append]; simp, ?_, ?_⟩
      · rwa [hoff]
      · rw [hoff, hl]
        cases xs <;> simp [List.getLast?_cons]

end Token

end StructLayout
