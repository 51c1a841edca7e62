import Mathlib
import StructLayout.Proofs.Source.Spans

/-!
Brackets of all kinds, and how they nest. Where all brackets of a text nest, every reader of types and
constants takes as many closing brackets as opening ones, whatever kinds of them it looks at, and none
of them runs into the end of the text in search of a brace.
-/

namespace StructLayout

namespace TokenKind

/-- The kind that closes an opening bracket. -/
def closing? : TokenKind → Option TokenKind
  | .lparen => some .rparen
  | .lbrack => some .rbrack
  | .lbrace => some .rbrace
  | _ => none

def isClosing : TokenKind → Bool
  | .rparen | .rbrack | .rbrace => true
  | _ => false

/-- A kind that is no bracket. -/
def IsPlain (k : TokenKind) : Prop :=
  k.closing? = none ∧ k.isClosing = false

instance (k : TokenKind) : Decidable k.IsPlain :=
  inferInstanceAs (Decidable (_ ∧ _))

theorem closing?_eq_some {k close : TokenKind} (h : k.closing? = some close) :
    k = .lparen ∧ close = .rparen ∨ k = .lbrack ∧ close = .rbrack ∨
      k = .lbrace ∧ close = .rbrace := by
  cases k <;> cases h <;> decide

theorem isClosing_iff {k : TokenKind} :
    k.isClosing = true ↔ k = .rparen ∨ k = .rbrack ∨ k = .rbrace := by
  cases k <;> decide

theorem closing?_of_isClosing {k : TokenKind} (h : k.isClosing = true) : k.closing? = none := by
  cases k <;> first | rfl | cases h

theorem closing?_inj {k l close : TokenKind} (h : k.closing? = some close)
    (h' : l.closing? = some close) : k = l := by
  cases k <;> cases h <;> cases l <;> first | rfl | cases h'

theorem isClosing_of_closing? {k close : TokenKind} (h : k.closing? = some close) :
    close.closing? = none ∧ close.isClosing = true := by
  cases k <;> cases h <;> decide

/-- The brackets that are open behind one more token, innermost first, as the kinds that close them. -/
def shift (st : List TokenKind) (k : TokenKind) : Option (List TokenKind) :=
  match k.closing? with
  | some close => some (close :: st)
  | none =>
    if k.isClosing then if st.head? = some k then some st.tail else none
    else some st

/-- The brackets that are open behind more tokens, if those that are closed are the innermost ones. -/
def nest (st : List TokenKind) (ks : List TokenKind) : Option (List TokenKind) :=
  ks.foldlM shift st

/-- All brackets are closed, in the right order. -/
def Matched (ks : List TokenKind) : Prop :=
  nest [] ks = some []

instance (ks : List TokenKind) : Decidable (Matched ks) :=
  inferInstanceAs (Decidable (_ = _))

variable {st st' u u' v r : List TokenKind} {k close : TokenKind} {ks xs ys : List TokenKind}

theorem shift_opening (h : k.closing? = some close) (st : List TokenKind) :
    shift st k = some (close :: st) := by
  rw [shift, h]

theorem shift_closing (h : k.isClosing = true) (st : List TokenKind) :
    shift (k :: st) k = some st := by
  rw [shift, closing?_of_isClosing h]
  simp [h]

theorem shift_plain (h : k.IsPlain) (st : List TokenKind) : shift st k = some st := by
  rw [shift, h.1]
  simp [h.2]

theorem shift_eq_some (h : shift st k = some st') :
    (∃ close, k.closing? = some close ∧ st' = close :: st) ∨
      (k.isClosing = true ∧ st = k :: st') ∨ (k.IsPlain ∧ st' = st) := by
  unfold shift at h
  split at h
  · rename_i close hk
    cases h
    exact .inl ⟨close, hk, rfl⟩
  · rename_i hk
    split at h
    · rename_i hclosing
      split at h
      · rename_i hhead
        cases h
        exact .inr (.inl ⟨hclosing, List.eq_cons_of_mem_head? hhead⟩)
      · cases h
    · rename_i hplain
      cases h
      exact .inr (.inr ⟨⟨hk, Bool.eq_false_iff.mpr hplain⟩, rfl⟩)

/-- A token closes the bracket around those that are open, or it only changes these. -/
theorem shift_inside (h : shift (u ++ close :: st) k = some st') :
    (u = [] ∧ k = close ∧ st' = st) ∨ ∃ u', shift u k = some u' ∧ st' = u' ++ close :: st := by
  rcases shift_eq_some h with ⟨c, hk, rfl⟩ | ⟨hk, hst⟩ | ⟨hk, rfl⟩
  · exact .inr ⟨c :: u, shift_opening hk u, rfl⟩
  · cases u with
    | nil =>
        cases hst
        exact .inl ⟨rfl, rfl, rfl⟩
    | cons c u =>
        cases hst
        exact .inr ⟨u, shift_closing hk u, rfl⟩
  · exact .inr ⟨u, shift_plain hk u, rfl⟩

theorem nest_cons : nest st (k :: ks) = (shift st k).bind fun st' => nest st' ks :=
  List.foldlM_cons

theorem nest_cons_of (h : shift st k = some st') (ks : List TokenKind) :
    nest st (k :: ks) = nest st' ks := by
  rw [nest_cons, h]
  rfl

theorem nest_cons_eq_some (h : nest st (k :: ks) = some r) :
    ∃ st', shift st k = some st' ∧ nest st' ks = some r :=
  Option.bind_eq_some_iff.mp (nest_cons ▸ h)

theorem nest_append : nest st (xs ++ ys) = (nest st xs).bind fun st' => nest st' ys :=
  List.foldlM_append

theorem nest_append_of (h : nest st xs = some st') (ys : List TokenKind) :
    nest st (xs ++ ys) = nest st' ys := by
  rw [nest_append, h]
  rfl

/-- What is open around some tokens does not matter inside of them. -/
theorem nest_frame (h : nest u ks = some u') (v : List TokenKind) :
    nest (u ++ v) ks = some (u' ++ v) := by
  induction ks generalizing u with
  | nil =>
      cases h
      rfl
  | cons k ks ih =>
      obtain ⟨w, hs, h⟩ := nest_cons_eq_some h
      have hshift : shift (u ++ v) k = some (w ++ v) := by
        rcases shift_eq_some hs with ⟨close, hk, rfl⟩ | ⟨hk, rfl⟩ | ⟨hk, rfl⟩
        · exact shift_opening hk _
        · exact shift_closing hk _
        · exact shift_plain hk _
      rw [nest_cons_of hshift]
      exact ih h

theorem Matched.nest_append (h : Matched xs) (st ys : List TokenKind) :
    nest st (xs ++ ys) = nest st ys :=
  nest_append_of (nest_frame h st) ys

theorem Matched.append (h : Matched xs) (h' : Matched ys) : Matched (xs ++ ys) :=
  (h.nest_append [] ys).trans h'

theorem matched_of_plain (h : ∀ k ∈ ks, k.IsPlain) : Matched ks := by
  induction ks with
  | nil => rfl
  | cons k ks ih =>
      obtain ⟨hk, hks⟩ := List.forall_mem_cons.mp h
      exact (nest_cons_of (shift_plain hk _) ks).trans (ih hks)

/-- A bracket, tokens inside of which all brackets are closed, and the bracket that closes it. -/
theorem Matched.enclose (h : Matched ks) (hk : k.closing? = some close) :
    Matched (k :: (ks ++ [close])) := by
  rw [Matched, nest_cons_of (shift_opening hk _), h.nest_append]
  exact nest_cons_of (shift_closing (isClosing_of_closing? hk).2 _) []

end TokenKind

/-! ## Types -/

namespace Lexeme

open TokenKind

variable {l : Lexeme} {ls mid rest seg : List Lexeme} {depth : Nat} {opening closing : TokenKind}
  {st u r : List TokenKind}

def kinds (ls : List Lexeme) : List TokenKind :=
  ls.map kind

/-- All brackets are closed in what is taken from the tokens ahead. -/
def Levels (ls rest : List Lexeme) : Prop :=
  ∃ seg, ls = seg ++ rest ∧ Matched (kinds seg)

theorem kinds_append (xs ys : List Lexeme) : kinds (xs ++ ys) = kinds xs ++ kinds ys :=
  List.map_append

theorem Levels.refl (ls : List Lexeme) : Levels ls ls :=
  ⟨[], rfl, rfl⟩

theorem Levels.trans (h : Levels ls mid) (h' : Levels mid rest) : Levels ls rest := by
  obtain ⟨xs, rfl, hx⟩ := h
  obtain ⟨ys, rfl, hy⟩ := h'
  exact ⟨xs ++ ys, (List.append_assoc _ _ _).symm, kinds_append xs ys ▸ hx.append hy⟩

theorem Levels.nest (h : Levels ls rest) (st : List TokenKind) :
    nest st (kinds ls) = nest st (kinds rest) := by
  obtain ⟨seg, rfl, hseg⟩ := h
  rw [kinds_append, hseg.nest_append]

theorem levels_plain (h : ∀ l ∈ seg, l.kind.IsPlain) (rest : List Lexeme) :
    Levels (seg ++ rest) rest :=
  ⟨seg, rfl, matched_of_plain fun k hk => by
    obtain ⟨l, hl, rfl⟩ := List.mem_map.mp hk
    exact h l hl⟩

theorem levels_cons (h : l.kind.IsPlain) (rest : List Lexeme) : Levels (l :: rest) rest :=
  levels_plain (List.forall_mem_singleton.mpr h) rest

theorem levels_enclose {m : Lexeme} (h : l.kind.closing? = some m.kind)
    (hl : Levels ls (m :: rest)) : Levels (l :: ls) rest := by
  obtain ⟨seg, rfl, hseg⟩ := hl
  refine ⟨l :: (seg ++ [m]), by simp, ?_⟩
  have := hseg.enclose h
  simpa [kinds] using this

/-- A bracket that is open is closed ahead, behind tokens that close what is open inside of it. -/
theorem nest_inside (h : nest (u ++ closing :: st) (kinds ls) = some []) :
    ∃ seg l rest, ls = seg ++ l :: rest ∧ l.kind = closing ∧ nest u (kinds seg) = some [] := by
  induction ls generalizing u with
  | nil => simp [kinds, TokenKind.nest] at h
  | cons l ls ih =>
      obtain ⟨st', hs, h⟩ := nest_cons_eq_some h
      rcases shift_inside hs with ⟨rfl, hl, -⟩ | ⟨u', hu, rfl⟩
      · exact ⟨[], l, ls, rfl, hl, rfl⟩
      · obtain ⟨seg, m, rest, rfl, hm, hseg⟩ := ih h
        exact ⟨l :: seg, m, rest, rfl, hm, (nest_cons_of hu _).trans hseg⟩

/-- A count of one kind finds the token that closes a bracket among brackets of all kinds. -/
theorem closes_of_nest (hc : opening.closing? = some closing) (hl : l.kind = closing)
    (h : nest u (kinds seg) = some []) (rest : List Lexeme) :
    Closes opening closing (u.count closing) (seg ++ l :: rest) rest := by
  obtain ⟨hnone, hclosing⟩ := isClosing_of_closing? hc
  have opening_ne {k : TokenKind} (hk : k.closing? = none) : k ≠ opening := by
    rintro rfl
    rw [hc] at hk
    cases hk
  induction seg generalizing u with
  | nil =>
      cases h
      exact .last (opening_ne (hl ▸ hnone)) hl
  | cons m seg ih =>
      obtain ⟨u', hs, htail⟩ := nest_cons_eq_some h
      rcases shift_eq_some hs with ⟨c, hk, rfl⟩ | ⟨hk, rfl⟩ | ⟨hk, rfl⟩
      · have ih := ih htail
        by_cases ho : m.kind = opening
        · obtain rfl : closing = c := by simpa [← ho, hk] using hc.symm
          rw [List.count_cons_self] at ih
          exact .opening ho ih
        · have hne : c ≠ closing := by
            rintro rfl
            exact ho (closing?_inj hk hc)
          rw [List.count_cons_of_ne hne] at ih
          refine .other ho (fun hm => ?_) ih
          rw [hm, hnone] at hk
          cases hk
      · have ho : m.kind ≠ opening := opening_ne (closing?_of_isClosing hk)
        by_cases hm : m.kind = closing
        · rw [hm, List.count_cons_self]
          exact .closing ho hm (ih htail)
        · rw [List.count_cons_of_ne hm]
          exact .other ho hm (ih htail)
      · refine .other (opening_ne hk.1) (fun hm => ?_) (ih htail)
        rw [IsPlain, hm, hclosing] at hk
        cases hk.2

theorem Closes.unique {rest' : List Lexeme} (h : Closes opening closing depth ls rest)
    (h' : Closes opening closing depth ls rest') : rest = rest' := by
  induction h with
  | last ho hc =>
      cases h' with
      | last => rfl
      | opening ho' => exact absurd ho' ho
      | other _ hc' => exact absurd hc hc'
  | opening ho _ ih =>
      cases h' with
      | last ho' => exact absurd ho ho'
      | opening _ h' => exact ih h'
      | closing ho' => exact absurd ho ho'
      | other ho' => exact absurd ho ho'
  | closing ho hc _ ih =>
      cases h' with
      | opening ho' => exact absurd ho' ho
      | closing _ _ h' => exact ih h'
      | other _ hc' => exact absurd hc hc'
  | other ho hc _ ih =>
      cases h' with
      | last _ hc' => exact absurd hc' hc
      | opening ho' => exact absurd ho' ho
      | closing _ hc' => exact absurd hc' hc
      | other _ _ h' => exact ih h'

/-- A bracket that is next is closed ahead, and what it is closed with is found by a count of its kind. -/
theorem balanced_of_nest (hc : l.kind.closing? = some closing)
    (h : nest st (kinds (l :: ls)) = some []) :
    ∃ rest, Balanced l.kind closing (l :: ls) rest ∧ Levels (l :: ls) rest := by
  have h : nest ([] ++ closing :: st) (kinds ls) = some [] :=
    nest_cons_of (shift_opening hc st) (kinds ls) ▸ h
  obtain ⟨seg, m, rest, rfl, rfl, hseg⟩ := nest_inside h
  exact ⟨rest, ⟨l, _, rfl, rfl, closes_of_nest hc rfl hseg rest⟩, levels_enclose hc ⟨seg, rfl, hseg⟩⟩

theorem Balanced.levels (h : Balanced opening closing ls rest)
    (hc : opening.closing? = some closing) (hn : nest st (kinds ls) = some []) : Levels ls rest := by
  obtain ⟨l, inner, rfl, rfl, h⟩ := h
  obtain ⟨rest', ⟨l', inner', heq, -, h'⟩, hlevels⟩ := balanced_of_nest hc hn
  cases heq
  exact h.unique h' ▸ hlevels

/-- Brackets and parentheses count together in an array length. -/
def isListEnd (k : TokenKind) : Bool :=
  k == .rbrack || k == .rparen

theorem Inside.levels {y : String} (h : Inside depth seg) (hd : u.countP isListEnd = depth)
    (hn : nest (u ++ .rbrack :: st) (kinds (seg ++ ⟨.rbrack, y⟩ :: rest)) = some r) :
    nest u (kinds seg) = some [] := by
  induction seg generalizing depth u with
  | nil =>
      obtain ⟨st', hs, -⟩ := nest_cons_eq_some hn
      have hd : u.countP isListEnd = 0 := hd.trans h
      rcases shift_inside hs with ⟨rfl, -, -⟩ | ⟨u', hu, -⟩
      · rfl
      · rcases shift_eq_some hu with ⟨c, hk, -⟩ | ⟨-, rfl⟩ | ⟨hk, -⟩
        · cases hk
        · rw [List.countP_cons_of_pos rfl] at hd
          cases hd
        · cases hk.2
  | cons l seg ih =>
      obtain ⟨st', hs, htail⟩ := nest_cons_eq_some hn
      clear hn
      unfold Inside at h
      rcases shift_inside hs with ⟨rfl, hk, -⟩ | ⟨u', hu, rfl⟩
      · rw [hk] at h
        exact absurd hd.symm h.1
      · refine (nest_cons_of hu _).trans ?_
        rcases shift_eq_some hu with ⟨c, hopen, rfl⟩ | ⟨hclose, rfl⟩ | ⟨hplain, rfl⟩
        · rcases closing?_eq_some hopen with ⟨hk, rfl⟩ | ⟨hk, rfl⟩ | ⟨hk, rfl⟩
          · rw [hk] at h
            exact ih h (by rw [List.countP_cons_of_pos rfl, hd]) htail
          · rw [hk] at h
            exact ih h (by rw [List.countP_cons_of_pos rfl, hd]) htail
          · rw [hk] at h
            exact ih h (by rw [List.countP_cons_of_neg (by decide), hd]) htail
        · rcases isClosing_iff.mp hclose with hk | hk | hk
          · rw [hk, List.countP_cons_of_pos rfl] at hd
            rw [hk, ← hd] at h
            exact ih h rfl htail
          · rw [hk, List.countP_cons_of_pos rfl] at hd
            rw [hk, ← hd] at h
            exact ih h.2 rfl htail
          · rw [hk, List.countP_cons_of_neg (by decide)] at hd
            rw [hk] at h
            exact ih h hd htail
        · refine ih ?_ hd htail
          split at h
          all_goals first | exact h | (rename_i hk; rw [hk] at hplain; exact absurd hplain (by decide))

theorem nest_plain (h : l.kind.IsPlain) (hn : nest st (kinds (l :: ls)) = some r) :
    nest st (kinds ls) = some r :=
  nest_cons_of (shift_plain h st) (kinds ls) ▸ hn

theorem nest_opening {close : TokenKind} (h : l.kind.closing? = some close)
    (hn : nest st (kinds (l :: ls)) = some r) : nest (close :: st) (kinds ls) = some r :=
  nest_cons_of (shift_opening h st) (kinds ls) ▸ hn

theorem Levels.nest_of (h : Levels ls rest) (hn : TokenKind.nest st (kinds ls) = some r) :
    TokenKind.nest st (kinds rest) = some r :=
  h.nest st ▸ hn

theorem Names.levels {names : List String} (h : Names names ls rest) : Levels ls rest := by
  induction h with
  | one => exact levels_cons ⟨rfl, rfl⟩ _
  | @more name comma names breaks ls rest hb _ ih =>
      have hplain : ∀ l ∈ breaks, l.kind.IsPlain := fun l hl => hb l hl ▸ ⟨rfl, rfl⟩
      exact (levels_cons ⟨rfl, rfl⟩ _).trans
        ((levels_cons ⟨rfl, rfl⟩ _).trans ((levels_plain hplain ls).trans ih))

theorem Qualified.levels {pkg : Option String} {name : String} (h : Qualified pkg name ls rest) :
    Levels ls rest := by
  cases h with
  | plain => exact levels_cons ⟨rfl, rfl⟩ _
  | dotted =>
      exact (levels_cons ⟨rfl, rfl⟩ _).trans
        ((levels_cons ⟨rfl, rfl⟩ _).trans (levels_cons ⟨rfl, rfl⟩ _))

theorem Tag.levels (h : Tag ls rest) : Levels ls rest := by
  cases h with
  | some hk => exact levels_cons (by rcases hk with hk | hk <;> rw [hk] <;> decide) _
  | none => exact .refl _

theorem levels_comments {comments : List Lexeme} (h : ∀ l ∈ comments, l.kind = .comment)
    (rest : List Lexeme) : Levels (comments ++ rest) rest :=
  levels_plain (fun l hl => h l hl ▸ ⟨rfl, rfl⟩) rest

mutual

/-- Where brackets nest, a type closes what it opens, and nothing else. -/
theorem Types.levels {name : Option String} : {ls rest : List Lexeme} → {st : List TokenKind} →
    Types name ls rest → nest st (kinds ls) = some [] → Levels ls rest
  | _, _, _, .pointer h, hn =>
      (levels_cons ⟨rfl, rfl⟩ _).trans (h.levels (nest_plain ⟨rfl, rfl⟩ hn))
  | _, _, _, .paren h, hn => levels_enclose rfl (h.levels (nest_opening rfl hn))
  | _, _, _, .slice h, hn =>
      have hpair := levels_enclose rfl (.refl _)
      hpair.trans (h.levels (hpair.nest_of hn))
  | _, _, st, .array _ hi _ h, hn =>
      have hinside : nest ([] ++ .rbrack :: st) _ = some [] := nest_opening rfl hn
      have hlength := hi.levels rfl hinside
      have hpair := levels_enclose rfl ⟨_, rfl, hlength⟩
      hpair.trans (h.levels (hpair.nest_of hn))
  | _, _, _, .receive h, hn =>
      (levels_cons ⟨rfl, rfl⟩ _).trans ((levels_cons ⟨rfl, rfl⟩ _).trans
        (h.levels (nest_plain ⟨rfl, rfl⟩ (nest_plain ⟨rfl, rfl⟩ hn))))
  | _, _, _, .struct h, hn =>
      have ⟨_, hm, hbody⟩ := h.levels (nest_opening rfl (nest_plain ⟨rfl, rfl⟩ hn))
      (levels_cons ⟨rfl, rfl⟩ _).trans (levels_enclose (hm ▸ rfl) hbody)
  | _, _, _, .interface h, hn =>
      (levels_cons ⟨rfl, rfl⟩ _).trans (h.levels rfl (nest_plain ⟨rfl, rfl⟩ hn))
  | _, _, _, .map hk hv, hn =>
      have hn := nest_plain ⟨rfl, rfl⟩ hn
      have hpair := levels_enclose rfl (hk.levels (nest_opening rfl hn))
      (levels_cons ⟨rfl, rfl⟩ _).trans (hpair.trans (hv.levels (hpair.nest_of hn)))
  | _, _, _, .send h, hn =>
      (levels_cons ⟨rfl, rfl⟩ _).trans ((levels_cons ⟨rfl, rfl⟩ _).trans
        (h.levels (nest_plain ⟨rfl, rfl⟩ (nest_plain ⟨rfl, rfl⟩ hn))))
  | _, _, _, .chan _ h, hn =>
      (levels_cons ⟨rfl, rfl⟩ _).trans (h.levels (nest_plain ⟨rfl, rfl⟩ hn))
  | _, _, _, .func h hr, hn =>
      have hn := nest_plain ⟨rfl, rfl⟩ hn
      have hlist := h.levels rfl hn
      (levels_cons ⟨rfl, rfl⟩ _).trans (hlist.trans (hr.levels (hlist.nest_of hn)))
  | _, _, _, .ref _ h _, _ => h.levels
  | _, _, _, .generic _ h hb, hn =>
      h.levels.trans (hb.levels rfl (h.levels.nest_of hn))

theorem Result.levels : {ls rest : List Lexeme} → {st : List TokenKind} →
    Result ls rest → nest st (kinds ls) = some [] → Levels ls rest
  | _, _, _, .list h, hn => h.levels rfl hn
  | _, _, _, .type _ h, hn => h.levels hn
  | _, _, _, .none _, _ => .refl _

theorem Body.levels : {ls rest : List Lexeme} → {st : List TokenKind} →
    Body ls rest → nest (.rbrace :: st) (kinds ls) = some [] →
    ∃ m, m.kind = .rbrace ∧ Levels ls (m :: rest)
  | _, _, _, .skip (l := l) hk h, hn =>
      have hl : l.kind.IsPlain := by
        simp only [List.mem_cons, List.not_mem_nil, or_false] at hk
        rcases hk with hk | hk | hk <;> rw [hk] <;> decide
      have ⟨m, hm, hbody⟩ := h.levels (nest_plain hl hn)
      ⟨m, hm, (levels_cons hl _).trans hbody⟩
  | _, _, _, .close, _ => ⟨_, rfl, .refl _⟩
  | _, _, _, .field hf h, hn =>
      have hfield := hf.levels hn
      have ⟨m, hm, hbody⟩ := h.levels (hfield.nest_of hn)
      ⟨m, hm, hfield.trans hbody⟩

theorem Declares.levels : {ls rest : List Lexeme} → {st : List TokenKind} →
    Declares ls rest → nest st (kinds ls) = some [] → Levels ls rest
  | _, _, _, .embedded _ _ h ht hc _, hn =>
      (h.levels hn).trans (ht.levels.trans (levels_comments hc _))
  | _, _, _, .named _ hm h ht hc _, hn =>
      hm.levels.trans ((h.levels (hm.levels.nest_of hn)).trans
        (ht.levels.trans (levels_comments hc _)))

end

end Lexeme

end StructLayout
