import Mathlib
import StructLayout.Proofs.Source.Lines

/-!
The tokens of a part of a text. What stands behind the part only decides whether the last of them
ends there, so the part has the same tokens wherever it stands.
-/

namespace StructLayout

namespace Token

open Text

/-! ## How far a token goes -/

theorem closeComment_le {cs : List Char} {n : Nat} (h : closeComment cs = some n) :
    n ≤ cs.length := by
  fun_induction closeComment cs generalizing n with
  | case1 => cases h
  | case2 => cases h; simp
  | case3 c cs _ ih =>
      obtain ⟨m, hm, rfl⟩ := Option.map_eq_some_iff.mp h
      exact Nat.succ_le_succ (ih hm)

theorem closeQuote_le {mark : Char} {cs : List Char} {n : Nat}
    (h : closeQuote mark cs = some n) : n ≤ cs.length := by
  fun_induction closeQuote mark cs generalizing n with
  | case1 => cases h
  | case2 => cases h
  | case3 c cs ih =>
      obtain ⟨m, hm, rfl⟩ := Option.map_eq_some_iff.mp h
      exact Nat.succ_le_succ (Nat.succ_le_succ (ih hm))
  | case4 => cases h
  | case5 => cases h; simp
  | case6 c cs _ _ _ _ ih =>
      obtain ⟨m, hm, rfl⟩ := Option.map_eq_some_iff.mp h
      exact Nat.succ_le_succ (ih hm)

theorem closeRaw_le {mark : Char} {cs : List Char} {n : Nat} (h : closeRaw mark cs = some n) :
    n ≤ cs.length := by
  fun_induction closeRaw mark cs generalizing n with
  | case1 => cases h
  | case2 => cases h; simp
  | case3 c cs _ ih =>
      obtain ⟨m, hm, rfl⟩ := Option.map_eq_some_iff.mp h
      exact Nat.succ_le_succ (ih hm)

theorem numberTail_le {before : Char} {isFloat : Bool} {cs : List Char} :
    (numberTail before isFloat cs).2 ≤ cs.length := by
  fun_induction numberTail before isFloat cs with
  | case1 => exact Nat.le_refl _
  | case2 _ _ c cs _ r ih => exact Nat.succ_le_succ ih
  | case3 _ _ c cs _ _ r ih => exact Nat.succ_le_succ ih
  | case4 => exact Nat.zero_le _

theorem lineCommentTail_le (cs : List Char) : lineCommentTail cs ≤ cs.length := by
  have h := (List.takeWhile_prefix (l := cs) (· != '\n')).length_le
  unfold lineCommentTail
  dsimp only
  split
  · exact Nat.le_trans (Nat.sub_le _ _) h
  · exact h

theorem Scanned.le_length {c : Char} {cs : List Char} {kind : TokenKind} {n : Nat}
    (h : Scanned c cs kind n) : n ≤ cs.length := by
  cases h with
  | lineBreak => exact Nat.zero_le _
  | lineComment => exact lineCommentTail_le cs
  | blockComment hc hs hn =>
      cases cs with
      | nil => cases hs
      | cons d cs => exact Nat.succ_le_succ (closeComment_le hn)
  | string hc hn => exact closeQuote_le hn
  | char hc hn => exact closeQuote_le hn
  | rawString hc hn => exact closeRaw_le hn
  | number => exact numberTail_le
  | ellipsis hc hs => exact (List.isPrefixOf_iff_prefix.mp hs).length_le
  | arrow hc hs =>
      cases cs with
      | nil => cases hs
      | cons d cs => exact Nat.succ_le_succ (Nat.zero_le _)
  | assign => exact Nat.zero_le _
  | delimiter => exact Nat.zero_le _
  | ident => exact (List.takeWhile_prefix _).length_le
  | other => exact Nat.zero_le _
  | op => exact (List.takeWhile_prefix _).length_le

/-! ## Where a token ends -/

/-- A token goes no further than to some rest. -/
def Ends (t : Token) (rest : List Char) : Prop :=
  ∃ c cs, t.text.toList = c :: cs ∧ isGap c = false ∧ Scanned c (cs ++ rest) t.kind cs.length

theorem heads_iff {t : Token} {cs rest : List Char} :
    t.Heads cs rest ↔ cs = t.text.toList ++ rest ∧ t.Ends rest := by
  constructor
  · intro h
    refine ⟨h.append, ?_⟩
    obtain ⟨c, tail, n, rfl, hg, hs, ht, rfl⟩ := h.scanned
    refine ⟨c, tail.take n, ht, hg, ?_⟩
    rwa [List.take_append_drop, List.length_take, Nat.min_eq_left hs.le_length]
  · rintro ⟨rfl, c, cs, ht, hg, hs⟩
    refine ⟨c, cs ++ rest, cs.length, by rw [ht, List.cons_append], hg, scan_of_scanned hs, ?_, ?_⟩
    · rw [List.take_left, ← ht, String.ofList_toList]
    · rw [List.drop_left]

theorem length_takeWhile_append {α : Type} {p : α → Bool} {xs ys : List α} :
    ((xs ++ ys).takeWhile p).length = xs.length ↔
      (∀ x ∈ xs, p x = true) ∧ ∀ y ∈ ys.head?, p y = false := by
  induction xs with
  | nil =>
      cases ys with
      | nil => simp
      | cons y ys => cases hy : p y <;> simp [hy]
  | cons x xs ih => cases hx : p x <;> simp [hx, ih]

theorem closeComment_cons (c : Char) (cs : List Char) :
    closeComment (c :: cs) =
      if c = '*' ∧ cs.head? = some '/' then some 2 else (closeComment cs).map (· + 1) := by
  rw [closeComment.eq_def]
  split
  · simp_all
  · rename_i heq; cases heq; simp
  · rename_i hne heq
    cases heq
    rw [if_neg]
    rintro ⟨rfl, hd⟩
    obtain ⟨cs, rfl⟩ := List.head?_eq_some_iff.mp hd
    exact hne cs rfl rfl

theorem closeComment_pos {cs : List Char} {n : Nat} (h : closeComment cs = some n) : 0 < n := by
  cases cs with
  | nil => cases h
  | cons c cs =>
      rw [closeComment_cons] at h
      split at h
      · cases h; exact Nat.two_pos
      · obtain ⟨m, -, rfl⟩ := Option.map_eq_some_iff.mp h
        exact Nat.succ_pos m

theorem closeComment_append {cs rest rest' : List Char}
    (h : closeComment (cs ++ rest) = some cs.length) :
    closeComment (cs ++ rest') = some cs.length := by
  induction cs with
  | nil => exact absurd (closeComment_pos h) (Nat.lt_irrefl _)
  | cons c cs ih =>
      rw [List.cons_append, closeComment_cons] at h ⊢
      cases cs with
      | nil =>
          split at h
          · cases h
          · obtain ⟨m, hm, hl⟩ := Option.map_eq_some_iff.mp h
            have := closeComment_pos hm
            rw [List.length_singleton] at hl
            omega
      | cons d cs =>
          rw [show (d :: cs ++ rest).head? = (d :: cs ++ rest').head? from rfl] at h
          split at h
          · rename_i hd
            rw [if_pos hd]
            exact h
          · rename_i hd
            rw [if_neg hd]
            obtain ⟨m, hm, hl⟩ := Option.map_eq_some_iff.mp h
            obtain rfl : m = (d :: cs).length := Nat.succ.inj hl
            rw [ih hm]
            rfl

theorem closeQuote_cons {mark c : Char} (hc : c ≠ '\\') (cs : List Char) :
    closeQuote mark (c :: cs) =
      if c = '\n' then none
      else if c = mark then some 1 else (closeQuote mark cs).map (· + 1) := by
  rw [closeQuote.eq_def]
  split <;> simp_all

theorem closeQuote_escape (mark c : Char) (cs : List Char) :
    closeQuote mark ('\\' :: c :: cs) = (closeQuote mark cs).map (· + 2) := by
  rfl

theorem closeQuote_pos {mark : Char} {cs : List Char} {n : Nat}
    (h : closeQuote mark cs = some n) : 0 < n := by
  fun_induction closeQuote mark cs generalizing n with
  | case1 => cases h
  | case2 => cases h
  | case3 => obtain ⟨m, -, rfl⟩ := Option.map_eq_some_iff.mp h; exact Nat.succ_pos _
  | case4 => cases h
  | case5 => cases h; exact Nat.one_pos
  | case6 => obtain ⟨m, -, rfl⟩ := Option.map_eq_some_iff.mp h; exact Nat.succ_pos _

theorem closeQuote_append {mark : Char} : {cs rest rest' : List Char} →
    closeQuote mark (cs ++ rest) = some cs.length → closeQuote mark (cs ++ rest') = some cs.length
  | [], _, _, h => absurd (closeQuote_pos h) (Nat.lt_irrefl _)
  | [c], rest, rest', h => by
      by_cases hc : c = '\\'
      · subst hc
        cases rest with
        | nil => cases h
        | cons d rest =>
            rw [List.singleton_append, closeQuote_escape] at h
            obtain ⟨m, -, hl⟩ := Option.map_eq_some_iff.mp h
            cases hl
      · rw [List.singleton_append, closeQuote_cons hc] at h ⊢
        split at h
        · cases h
        · rename_i hn
          rw [if_neg hn]
          split at h
          · rename_i hm; rw [if_pos hm]; rfl
          · obtain ⟨m, hm, hl⟩ := Option.map_eq_some_iff.mp h
            have := closeQuote_pos hm
            rw [List.length_singleton] at hl
            omega
  | c :: d :: cs, rest, rest', h => by
      by_cases hc : c = '\\'
      · subst hc
        rw [List.cons_append, List.cons_append, closeQuote_escape] at h ⊢
        obtain ⟨m, hm, hl⟩ := Option.map_eq_some_iff.mp h
        obtain rfl : m = cs.length := Nat.succ.inj (Nat.succ.inj hl)
        rw [closeQuote_append hm]
        rfl
      · rw [List.cons_append, closeQuote_cons hc] at h ⊢
        split at h
        · cases h
        · rename_i hn
          rw [if_neg hn]
          split at h
          · cases h
          · rename_i hm
            rw [if_neg hm]
            obtain ⟨m, hm, hl⟩ := Option.map_eq_some_iff.mp h
            obtain rfl : m = (d :: cs).length := Nat.succ.inj hl
            rw [closeQuote_append hm]
            rfl

theorem closeRaw_pos {mark : Char} {cs : List Char} {n : Nat} (h : closeRaw mark cs = some n) :
    0 < n := by
  cases cs with
  | nil => cases h
  | cons c cs =>
      rw [closeRaw] at h
      split at h
      · cases h; exact Nat.one_pos
      · obtain ⟨m, -, rfl⟩ := Option.map_eq_some_iff.mp h
        exact Nat.succ_pos m

theorem closeRaw_append {mark : Char} {cs rest rest' : List Char}
    (h : closeRaw mark (cs ++ rest) = some cs.length) :
    closeRaw mark (cs ++ rest') = some cs.length := by
  induction cs with
  | nil => exact absurd (closeRaw_pos h) (Nat.lt_irrefl _)
  | cons c cs ih =>
      rw [List.cons_append, closeRaw] at h ⊢
      split at h
      · rename_i hc
        rw [if_pos hc]
        exact h
      · rename_i hc
        rw [if_neg hc]
        obtain ⟨m, hm, hl⟩ := Option.map_eq_some_iff.mp h
        obtain rfl : m = cs.length := Nat.succ.inj hl
        rw [ih hm]
        rfl

/-- A number goes on with some character. -/
def continues (before c : Char) : Bool :=
  (c.isAlphanum || c == '_') || (c == '.' || ((c == '+' || c == '-') && "eEpP".toList.contains before))

theorem numberTail_cons (before : Char) (isFloat : Bool) (c : Char) (cs : List Char) :
    numberTail before isFloat (c :: cs) =
      if continues before c then
        ((numberTail c (isFloat || !(c.isAlphanum || c == '_')) cs).1,
          (numberTail c (isFloat || !(c.isAlphanum || c == '_')) cs).2 + 1)
      else (isFloat, 0) := by
  rw [numberTail]
  unfold continues
  by_cases hw : (c.isAlphanum || c == '_') = true
  · rw [if_pos hw, hw]
    simp
  · rw [if_neg hw]
    have hw : (c.isAlphanum || c == '_') = false := by simpa using hw
    rw [hw]
    simp

theorem numberTail_append {before : Char} {isFloat r : Bool} {cs rest rest' : List Char}
    (h : numberTail before isFloat (cs ++ rest) = (r, cs.length))
    (hr : rest.head? = rest'.head? ∨ ∀ b, ∀ c ∈ rest'.head?, continues b c = false) :
    numberTail before isFloat (cs ++ rest') = (r, cs.length) := by
  induction cs generalizing before isFloat with
  | nil =>
      -- the number ends in front of the rest
      have hstop : r = isFloat ∧ ∀ c ∈ rest'.head?, continues before c = false := by
        cases rest with
        | nil =>
            cases h
            refine ⟨rfl, fun c hc => ?_⟩
            rcases hr with hr | hr
            · rw [← hr] at hc; cases hc
            · exact hr _ c hc
        | cons d rest =>
            rw [List.nil_append, numberTail_cons] at h
            split at h
            · cases h
            · rename_i hd
              cases h
              refine ⟨rfl, fun c hc => ?_⟩
              rcases hr with hr | hr
              · rw [← hr] at hc; cases hc; simpa using hd
              · exact hr _ c hc
      cases rest' with
      | nil => rw [hstop.1]; rfl
      | cons c rest' => rw [List.nil_append, numberTail_cons, hstop.2 c rfl, hstop.1]; rfl
  | cons c cs ih =>
      rw [List.cons_append, numberTail_cons] at h ⊢
      split at h
      · rename_i hc
        rw [if_pos hc]
        obtain ⟨h₁, h₂⟩ := Prod.mk.inj h
        have := ih (Prod.ext h₁ (Nat.succ.inj h₂))
        rw [this]
        rfl
      · cases h

theorem takeWhile_newline_append {cs rest : List Char} (hcs : '\n' ∉ cs) :
    (cs ++ rest).takeWhile (· != '\n') = cs ++ rest.takeWhile (· != '\n') := by
  refine List.takeWhile_append_of_pos fun c hc => ?_
  rw [bne_iff_ne]
  rintro rfl
  exact hcs hc

/-- A line comment ends in front of the end of its line. -/
theorem lineCommentTail_append {cs rest : List Char} :
    lineCommentTail (cs ++ rest) = cs.length ↔
      '\n' ∉ cs ∧ EndsLine rest ∧ (rest.head? ≠ some '\r' → cs.getLast? ≠ some '\r') := by
  constructor
  · intro h
    have hend : EndsLine rest := by
      have := endsLine_drop_lineCommentTail (cs ++ rest)
      rwa [h, List.drop_left] at this
    have hcs : '\n' ∉ cs := by
      have hle : cs.length ≤ ((cs ++ rest).takeWhile (· != '\n')).length := by
        rw [← h, lineCommentTail]
        split
        · exact Nat.sub_le _ _
        · exact Nat.le_refl _
      have hpre : cs <+: (cs ++ rest).takeWhile (· != '\n') :=
        List.prefix_of_prefix_length_le (List.prefix_append _ _) (List.takeWhile_prefix _) hle
      intro hm
      simpa using List.all_eq_true.mp List.all_takeWhile _ (hpre.subset hm)
    refine ⟨hcs, hend, fun hr hlast => ?_⟩
    have hrest : rest.takeWhile (· != '\n') = [] := by
      rcases hend with rfl | ⟨cs, rfl⟩ | rfl | ⟨cs, rfl⟩
      · rfl
      · rfl
      · exact absurd rfl hr
      · exact absurd rfl hr
    rw [lineCommentTail, takeWhile_newline_append hcs, hrest, List.append_nil] at h
    rw [if_pos hlast] at h
    have : cs ≠ [] := by rintro rfl; cases hlast
    have := List.length_pos_iff.mpr this
    omega
  · rintro ⟨hcs, hend, hr⟩
    have hrest : rest.takeWhile (· != '\n') = [] ∧ rest.head? ≠ some '\r' ∨
        rest.takeWhile (· != '\n') = ['\r'] := by
      rcases hend with rfl | ⟨cs, rfl⟩ | rfl | ⟨cs, rfl⟩
      · exact .inl ⟨rfl, by simp⟩
      · exact .inl ⟨rfl, by simp⟩
      · exact .inr rfl
      · exact .inr rfl
    rw [lineCommentTail, takeWhile_newline_append hcs]
    rcases hrest with ⟨hrest, hne⟩ | hrest
    · rw [hrest, List.append_nil, if_neg (hr hne)]
    · rw [hrest, List.getLast?_concat, if_pos rfl, List.length_append]
      rfl

/-- Two rests start in the same way. -/
structure Alike (rest rest' : List Char) : Prop where
  head : rest.head? = rest'.head?
  dots : ['.', '.'].isPrefixOf rest = ['.', '.'].isPrefixOf rest'
  line : EndsLine rest ↔ EndsLine rest'

/-- What stands behind a token does not belong to it, whatever it ended in front of before. -/
def Stops (t : Token) (rest : List Char) : Prop :=
  match t.kind with
  | .ident => ∀ c ∈ rest.head?, isIdent c = false
  | .op => ∀ c ∈ rest.head?, isOpChar c = false
  | .int | .float => ∀ b, ∀ c ∈ rest.head?, continues b c = false
  | .dot => ∀ c ∈ rest.head?, c.isDigit = false ∧ c ≠ '.'
  | .assign => rest.head? ≠ some '='
  | .comment =>
    t.text.toList[1]? = some '*' ∨ EndsLine rest ∧ t.text.toList.getLast? ≠ some '\r'
  | _ => True

/-- A token ends in front of another rest too, if that starts like the one it ended in front of or
cannot belong to it. -/
theorem Ends.change {t : Token} {rest rest' : List Char} (h : t.Ends rest)
    (hr : Alike rest rest' ∨ t.Stops rest') : t.Ends rest' := by
  obtain ⟨c, cs, ht, hg, hs⟩ := h
  refine ⟨c, cs, ht, hg, ?_⟩
  unfold Stops at hr
  rw [ht] at hr
  generalize t.kind = kind at hs hr ⊢
  generalize hn : cs.length = n at hs ⊢
  have head {d : Char} (hne : cs ≠ []) (hd : (cs ++ rest).head? = some d) :
      (cs ++ rest').head? = some d := by
    cases cs with
    | nil => exact absurd rfl hne
    | cons => exact hd
  cases hs with
  | lineBreak hc => exact .lineBreak hc
  | lineComment hc hs =>
      obtain ⟨hcs, hend, hlast⟩ := lineCommentTail_append.mp hn.symm
      have hne : cs ≠ [] := by
        rintro rfl
        rcases hend with rfl | ⟨cs, rfl⟩ | rfl | ⟨cs, rfl⟩ <;> cases hs
      have htail : lineCommentTail (cs ++ rest') = cs.length := by
        refine lineCommentTail_append.mpr ⟨hcs, ?_, fun hr' => ?_⟩
        · rcases hr with hr | hr | hr
          · exact hr.line.mp hend
          · cases cs with
            | nil => cases hne rfl
            | cons d cs => cases hs; cases hr
          · exact hr.1
        · rcases hr with hr | hr | hr
          · exact hlast (hr.head ▸ hr')
          · cases cs with
            | nil => cases hne rfl
            | cons d cs => cases hs; cases hr
          · rw [List.getLast?_cons] at hr
            exact fun hl => hr.2 (by rw [hl]; rfl)
      rw [← hn, ← htail]
      exact .lineComment hc (head hne hs)
  | @blockComment m hc hs hm =>
      cases cs with
      | nil => cases hn
      | cons d cs =>
          obtain rfl : cs.length = m := Nat.succ.inj hn
          exact .blockComment hc hs (closeComment_append hm)
  | string hc hm => exact .string hc (hn ▸ closeQuote_append (hn ▸ hm))
  | char hc hm => exact .char hc (hn ▸ closeQuote_append (hn ▸ hm))
  | rawString hc hm => exact .rawString hc (hn ▸ closeRaw_append (hn ▸ hm))
  | number hc =>
      have hstop : rest.head? = rest'.head? ∨ ∀ b, ∀ c ∈ rest'.head?, continues b c = false := by
        have hk : (number c (cs ++ rest)).1 = .int ∨ (number c (cs ++ rest)).1 = .float := by
          unfold number
          dsimp only
          split
          · exact .inr rfl
          · exact .inl rfl
        refine hr.imp Alike.head fun hr => ?_
        rcases hk with hk | hk <;> rw [hk] at hr <;> exact hr
      have hnum : number c (cs ++ rest') = number c (cs ++ rest) := by
        unfold number at hn ⊢
        rw [numberTail_append (Prod.ext rfl hn.symm) hstop, hn]
      have hc' : c.isDigit = true ∨ c = '.' ∧ (cs ++ rest').head?.any Char.isDigit = true := by
        refine hc.imp_right fun ⟨hdot, hd⟩ => ⟨hdot, ?_⟩
        cases cs with
        | nil =>
            -- the digit behind the dot belongs to the number
            cases rest with
            | nil => cases hd
            | cons d rest =>
                have hd : d.isDigit = true := hd
                have : continues c d = true := by simp [continues, Char.isAlphanum, hd]
                rw [List.nil_append, number, numberTail_cons, if_pos this] at hn
                cases hn
        | cons => exact hd
      rw [← hnum]
      exact .number hc'
  | ellipsis hc hs =>
      obtain ⟨d, e, rfl⟩ := List.length_eq_two.mp hn
      exact .ellipsis hc hs
  | arrow hc hs =>
      obtain ⟨d, rfl⟩ := List.length_eq_one_iff.mp hn
      exact .arrow hc hs
  | assign hc hs =>
      obtain rfl := List.length_eq_zero_iff.mp hn
      exact .assign hc (hr.elim (fun hr => hr.head ▸ hs) id)
  | delimiter hk hd =>
      obtain rfl := List.length_eq_zero_iff.mp hn
      refine .delimiter hk fun hdot => ?_
      obtain ⟨h₁, h₂⟩ := hd hdot
      rcases hr with hr | hr
      · exact ⟨hr.head ▸ h₁, hr.dots ▸ h₂⟩
      · subst hdot
        cases hk
        cases rest' with
        | nil => exact ⟨rfl, rfl⟩
        | cons d rest' =>
            obtain ⟨h₁, h₂⟩ := hr d rfl
            exact ⟨h₁, by rw [List.nil_append, List.isPrefixOf, beq_eq_false_iff_ne.mpr h₂.symm]; rfl⟩
  | ident hc hd =>
      obtain ⟨hcs, hrest⟩ := length_takeWhile_append.mp hn.symm
      have : ∀ c ∈ rest'.head?, isIdent c = false := hr.elim (fun hr => hr.head ▸ hrest) id
      rw [← hn, ← length_takeWhile_append.mpr ⟨hcs, this⟩]
      exact .ident hc hd
  | other hc hi => exact .other hc hi
  | op hc hi ho =>
      obtain ⟨hcs, hrest⟩ := length_takeWhile_append.mp hn.symm
      have hstop : ∀ c ∈ rest'.head?, isOpChar c = false := hr.elim (fun hr => hr.head ▸ hrest) id
      rw [← hn, ← length_takeWhile_append.mpr ⟨hcs, hstop⟩]
      refine .op hc hi ?_
      cases cs with
      | nil =>
          have none {d : Char} (hd : isOpChar d = true) : rest'.head? ≠ some d := fun hr' => by
            rw [hstop d hr'] at hd
            cases hd
          exact ⟨ho.plain, fun _ => ⟨none rfl, none rfl⟩, fun _ => none rfl,
            fun he => absurd (hrest '=' (ho.equals he)) (by decide)⟩
      | cons => exact ⟨ho.plain, ho.slash, ho.less, ho.equals⟩

theorem endsLine_cons {c : Char} {cs : List Char} :
    EndsLine (c :: cs) ↔ c = '\n' ∨ c = '\r' ∧ (cs = [] ∨ cs.head? = some '\n') := by
  constructor
  · rintro (h | ⟨_, h⟩ | h | ⟨_, h⟩) <;> cases h
    · exact .inl rfl
    · exact .inr ⟨rfl, .inl rfl⟩
    · exact .inr ⟨rfl, .inr rfl⟩
  · rintro (rfl | ⟨rfl, rfl | h⟩)
    · exact .inr (.inl ⟨cs, rfl⟩)
    · exact .inr (.inr (.inl rfl))
    · obtain ⟨cs, rfl⟩ := List.head?_eq_some_iff.mp h
      exact .inr (.inr (.inr ⟨cs, rfl⟩))

theorem alike_cons_cons (c d : Char) (cs cs' : List Char) :
    Alike (c :: d :: cs) (c :: d :: cs') where
  head := rfl
  dots := by simp [List.isPrefixOf]
  line := by simp [endsLine_cons]

/-- Behind most characters it does not matter how a rest starts. -/
theorem alike_cons {c : Char} (hd : c ≠ '.') (hr : c ≠ '\r') (cs cs' : List Char) :
    Alike (c :: cs) (c :: cs') where
  head := rfl
  dots := by simp only [List.isPrefixOf, beq_eq_false_iff_ne.mpr hd.symm, Bool.false_and]
  line := by simp [endsLine_cons, hr]

/-! ## Parts of a text -/

/-- The tokens of a part of a text, from a byte on, in front of some rest. -/
inductive Fills (rest : List Char) : Nat → List Char → List Token → Prop
  | nil (offset : Nat) : Fills rest offset [] []
  | gap {offset : Nat} {c : Char} {cs : List Char} {ts : List Token} (hc : isGap c = true)
      (h : Fills rest (offset + c.utf8Size) cs ts) : Fills rest offset (c :: cs) ts
  | token {t : Token} {cs : List Char} {ts : List Token} (ht : t.Ends (cs ++ rest))
      (h : Fills rest t.stop cs ts) : Fills rest t.start (t.text.toList ++ cs) (t :: ts)

variable {rest rest' cs ds : List Char} {a b : Nat} {ts us : List Token}

theorem Fills.tile (h : Fills rest a cs ts) (hr : Tile (a + byteLen cs) rest us) :
    Tile a (cs ++ rest) (ts ++ us) := by
  induction h with
  | nil a => exact hr
  | gap hc _ ih =>
      refine .gap hc (ih ?_)
      rwa [byteLen_cons, ← Nat.add_assoc] at hr
  | token ht _ ih =>
      refine .token (heads_iff.mpr ⟨List.append_assoc _ _ _, ht⟩) (ih ?_)
      rwa [byteLen_append, ← Nat.add_assoc, ← stop_eq] at hr

theorem Tile.fills (h : Tile a cs ts) : Fills [] a cs ts := by
  induction h with
  | nil a => exact .nil a
  | gap hc _ ih => exact .gap hc ih
  | @token t cs rest ts ht _ ih =>
      obtain ⟨rfl, he⟩ := heads_iff.mp ht
      exact .token (by rwa [List.append_nil]) ih

theorem Fills.append (h : Fills (ds ++ rest) a cs ts) (hd : Fills rest (a + byteLen cs) ds us) :
    Fills rest a (cs ++ ds) (ts ++ us) := by
  induction h with
  | nil a => exact hd
  | gap hc _ ih =>
      refine .gap hc (ih ?_)
      rwa [byteLen_cons, ← Nat.add_assoc] at hd
  | @token t cs ts ht _ ih =>
      rw [List.append_assoc]
      refine .token (by rwa [List.append_assoc]) (ih ?_)
      rwa [byteLen_append, ← Nat.add_assoc, ← stop_eq] at hd

theorem Fills.gaps (hg : ∀ c ∈ cs, isGap c = true) (h : Fills rest (a + byteLen cs) ds ts) :
    Fills rest a (cs ++ ds) ts := by
  induction cs generalizing a with
  | nil => exact h
  | cons c cs ih =>
      obtain ⟨hc, hg⟩ := List.forall_mem_cons.mp hg
      refine .gap hc (ih hg ?_)
      rwa [byteLen_cons, ← Nat.add_assoc] at h

theorem Ends.start_lt_stop {t : Token} (h : t.Ends rest) : t.start < t.stop :=
  (heads_iff.mpr ⟨rfl, h⟩).start_lt_stop

theorem Fills.bounds (h : Fills rest a cs ts) :
    ∀ t ∈ ts, a ≤ t.start ∧ t.start < t.stop ∧ t.stop ≤ a + byteLen cs := by
  induction h with
  | nil a => simp
  | gap hc _ ih =>
      intro t ht
      obtain ⟨h₁, h₂, h₃⟩ := ih t ht
      rw [byteLen_cons]
      exact ⟨by omega, h₂, by omega⟩
  | @token u cs ts hu _ ih =>
      have hlt := hu.start_lt_stop
      have hstop := stop_eq u
      rw [byteLen_append]
      refine List.forall_mem_cons.mpr ⟨⟨Nat.le_refl _, hlt, by omega⟩, fun t ht => ?_⟩
      obtain ⟨h₁, h₂, h₃⟩ := ih t ht
      exact ⟨by omega, h₂, by omega⟩

/-- A part of a text cut where no token is in the way. -/
theorem Fills.cut (h : Fills rest a (cs ++ ds) ts)
    (hp : ∀ t ∈ ts, t.stop ≤ a + byteLen cs ∨ a + byteLen cs ≤ t.start) :
    ∃ us vs, ts = us ++ vs ∧ Fills (ds ++ rest) a cs us ∧
      Fills rest (a + byteLen cs) ds vs := by
  generalize hall : cs ++ ds = all at h
  induction h generalizing cs with
  | nil a =>
      obtain ⟨rfl, rfl⟩ := List.append_eq_nil_iff.mp hall
      exact ⟨[], [], rfl, .nil a, .nil _⟩
  | @gap a c all ts hc h ih =>
      cases cs with
      | nil =>
          rw [List.nil_append] at hall
          subst hall
          exact ⟨[], ts, rfl, .nil a, .gap hc h⟩
      | cons d cs =>
          obtain ⟨rfl, htail⟩ := List.cons.inj hall
          rw [byteLen_cons, ← Nat.add_assoc] at hp ⊢
          obtain ⟨us, vs, rfl, hu, hv⟩ := ih hp htail
          exact ⟨us, vs, rfl, .gap hc hu, hv⟩
  | @token t tail ts ht h ih =>
      cases cs with
      | nil =>
          rw [List.nil_append] at hall
          subst hall
          exact ⟨[], t :: ts, rfl, .nil _, .token ht h⟩
      | cons d cs =>
          have hd := d.utf8Size_pos
          have hstop := stop_eq t
          obtain ⟨ht', hp⟩ := List.forall_mem_cons.mp hp
          rw [byteLen_cons] at ht'
          have hle : byteLen t.text.toList ≤ byteLen (d :: cs) := by
            rw [byteLen_cons]
            omega
          obtain ⟨mid, hcs, rfl⟩ : ∃ mid, d :: cs = t.text.toList ++ mid ∧ tail = mid ++ ds := by
            rcases List.append_eq_append_iff.mp hall with ⟨mid, h₁, h₂⟩ | ⟨mid, h₁, h₂⟩
            · have hmid := byteLen_append (d :: cs) mid
              rw [← h₁] at hmid
              obtain rfl : mid = [] := eq_nil_of_byteLen (by omega)
              rw [List.append_nil] at h₁
              exact ⟨[], by rw [h₁, List.append_nil], by rw [h₂]; rfl⟩
            · exact ⟨mid, h₁, h₂⟩
          rw [hcs, byteLen_append, ← Nat.add_assoc, ← stop_eq] at hp ⊢
          obtain ⟨us, vs, rfl, hu, hv⟩ := ih hp rfl
          exact ⟨t :: us, vs, rfl, .token (by rwa [List.append_assoc] at ht) hu, hv⟩

/-- A token at another place. -/
def moved (a b : Nat) (t : Token) : Token :=
  { t with start := t.start - a + b }

theorem stop_moved {t : Token} (h : a ≤ t.start) : (t.moved a b).stop = t.stop - a + b := by
  rw [stop_eq, stop_eq]
  show t.start - a + b + byteLen t.text.toList = _
  omega

theorem alike_append (hne : cs ≠ []) (hc : ∀ c ∈ cs.getLast?, Alike (c :: rest) (c :: rest')) :
    Alike (cs ++ rest) (cs ++ rest') := by
  match cs with
  | [c] => exact hc c rfl
  | c :: d :: cs => exact alike_cons_cons c d _ _

theorem Fills.eq_nil (h : Fills rest a [] ts) : ts = [] := by
  generalize hcs : ([] : List Char) = cs at h
  cases h with
  | nil => rfl
  | gap => cases hcs
  | token ht =>
      obtain ⟨c, tail, htext, -⟩ := ht
      rw [htext] at hcs
      cases hcs

/-- A part of a text has the same tokens wherever its last token ends too. -/
theorem Fills.move (h : Fills rest a cs ts) (b : Nat)
    (hl : ∀ t, ts.getLast? = some t → t.stop = a + byteLen cs → t.Ends rest → t.Ends rest')
    (hc : ∀ c ∈ cs.getLast?, Alike (c :: rest) (c :: rest')) :
    Fills rest' b cs (ts.map (moved a b)) := by
  have hmove {o p : Nat} {cs : List Char} {ts : List Token} (h : Fills rest p cs ts) (ho : o ≤ p)
      (hl : ∀ t, ts.getLast? = some t → t.stop = p + byteLen cs → t.Ends rest → t.Ends rest')
      (hc : ∀ c ∈ cs.getLast?, Alike (c :: rest) (c :: rest')) :
      Fills rest' (p - o + b) cs (ts.map (moved o b)) := by
    induction h with
    | nil p => exact .nil _
    | @gap p c cs ts hg h ih =>
        refine .gap hg ?_
        have := ih (by omega) (fun t ht hs => hl t ht (by rw [hs, byteLen_cons]; omega))
          (fun d hd => hc d (by rw [List.getLast?_cons, hd]; rfl))
        rwa [show p + c.utf8Size - o + b = p - o + b + c.utf8Size by omega] at this
    | @token t cs ts ht h ih =>
        have hlt := ht.start_lt_stop
        have hstop := stop_eq t
        have hends : t.Ends (cs ++ rest') := by
          cases cs with
          | nil =>
              obtain rfl := h.eq_nil
              exact hl t rfl (by rw [List.append_nil]; exact hstop) ht
          | cons c cs =>
              refine ht.change (.inl (alike_append (List.cons_ne_nil _ _) fun d hd => hc d ?_))
              rw [List.getLast?_append, hd]
              rfl
        refine Fills.token (t := t.moved o b) hends ?_
        rw [stop_moved ho]
        refine ih (by omega) (fun u hu hs => hl u ?_ ?_) (fun d hd => hc d ?_)
        · rw [List.getLast?_cons, hu]
          rfl
        · rw [hs, byteLen_append]
          omega
        · rw [List.getLast?_append, hd]
          rfl
  have := hmove h (Nat.le_refl a) hl hc
  rwa [Nat.sub_self, Nat.zero_add] at this

end Token

end StructLayout
