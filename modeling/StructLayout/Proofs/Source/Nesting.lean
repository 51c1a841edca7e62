import Mathlib
import StructLayout.Proofs.Source.Brackets
import StructLayout.Proofs.Source.Completeness

/-!
Places in a text whose brackets nest. What is read as a type closes the brackets that it opens and no
other ones, and no reader of types fails because a closing brace is missing or stands where none is
expected.
-/

namespace StructLayout

open TokenKind

/-! ## Places -/

namespace Cursor

variable {s : SourceText} {c d e : Cursor} {u u' st st' : List TokenKind} {close : TokenKind}

/-- The brackets that are open at a place, innermost first, as the kinds that close them: all of them are
closed ahead, in the right order. -/
structure Within (st : List TokenKind) (c : Cursor) : Prop where
  nest : nest st (c.ahead.map Token.kind) = some []
  ne_eof : ∀ t ∈ c.ahead, t.kind ≠ .eof

/-- What stands between two places closes some brackets, and those that it opens. -/
def Takes (u : List TokenKind) (c d : Cursor) : Prop :=
  ∃ seg, c.Passes seg d ∧ TokenKind.nest u (seg.map Token.kind) = some []

theorem kinds_lexemes (c : Cursor) : Lexeme.kinds c.lexemes = c.ahead.map Token.kind :=
  List.map_map

theorem Takes.refl (c : Cursor) : Takes [] c c :=
  ⟨[], .refl c, rfl⟩

theorem Takes.trans (h : Takes [] c d) (h' : Takes u d e) : Takes u c e := by
  obtain ⟨xs, hx, hxs⟩ := h
  obtain ⟨ys, hy, hys⟩ := h'
  refine ⟨_, hx.trans hy, ?_⟩
  rw [List.map_append, Matched.nest_append hxs, hys]

theorem takes_of_next (hk : c.kind ≠ .eof) (hs : shift u c.kind = some u')
    (h : Takes u' c.next d) : Takes u c d := by
  obtain ⟨seg, hp, hseg⟩ := h
  refine ⟨_, (passes_next hk).trans hp, ?_⟩
  rw [List.singleton_append, List.map_cons, nest_cons_of (k := c.token.kind) hs, hseg]

theorem takes_next (hk : c.kind ≠ .eof) (hs : shift u c.kind = some []) : Takes u c c.next :=
  takes_of_next hk hs (.refl _)

theorem takes_of_levels {seg : List Token} (hp : c.Passes seg d)
    (h : Lexeme.Levels c.lexemes d.lexemes) : Takes [] c d := by
  obtain ⟨ls, hls, hnested⟩ := h
  obtain rfl : seg.map Token.lexeme = ls := List.append_cancel_right (hp.lexemes.symm.trans hls)
  refine ⟨seg, hp, ?_⟩
  have hkinds : Lexeme.kinds (seg.map Token.lexeme) = seg.map Token.kind := List.map_map
  rwa [hkinds] at hnested

theorem Within.passes {seg : List Token} (h : Within st c) (hp : c.Passes seg d)
    (hn : TokenKind.nest st (seg.map Token.kind) = some st') : Within st' d := by
  obtain ⟨hnest, hkinds⟩ := h
  rw [hp.ahead] at hnest hkinds
  rw [List.map_append, nest_append_of hn] at hnest
  exact ⟨hnest, (List.forall_mem_append.mp hkinds).2⟩

theorem Within.takes (h : Within (u ++ st) c) (ht : Takes u c d) : Within st d := by
  obtain ⟨seg, hp, hseg⟩ := ht
  exact h.passes hp (nest_frame hseg st)

theorem Within.eof (h : Within st c) (hk : c.kind = .eof) : st = [] := by
  have hahead : c.ahead = [] := by
    by_contra hne
    obtain ⟨t, ts, hts⟩ := List.exists_cons_of_ne_nil hne
    refine h.ne_eof t (hts ▸ List.mem_cons_self) ?_
    rw [← hk, Cursor.kind, token, peek, hts]
    rfl
  have hnest := h.nest
  rw [hahead] at hnest
  exact Option.some.inj hnest

theorem Within.next (h : Within st c) (hk : c.kind ≠ .eof) :
    ∃ st', shift st c.kind = some st' ∧ Within st' c.next := by
  have hp := passes_next hk
  have hnest := h.nest
  rw [hp.ahead] at hnest
  obtain ⟨st', hs, -⟩ := nest_cons_eq_some hnest
  exact ⟨st', hs, h.passes hp (nest_cons_of hs [])⟩

theorem Within.opening (h : Within st c) (hk : c.kind.closing? = some close) :
    Within (close :: st) c.next := by
  obtain ⟨st', hs, h⟩ := h.next fun he => by rw [he] at hk; cases hk
  rw [shift_opening hk] at hs
  exact Option.some.inj hs ▸ h

theorem Within.plain (h : Within st c) (he : c.kind ≠ .eof) (hk : c.kind.IsPlain) :
    Within st c.next := by
  obtain ⟨st', hs, h⟩ := h.next he
  rw [shift_plain hk] at hs
  exact Option.some.inj hs ▸ h

/-- A bracket that is closed is the innermost one. -/
theorem Within.closed (h : Within st c) (hk : c.kind.isClosing = true) :
    ∃ st', st = c.kind :: st' ∧ Within st' c.next := by
  have hne : c.kind ≠ .eof := fun he => by rw [he] at hk; cases hk
  obtain ⟨st', hs, h⟩ := h.next hne
  rcases shift_eq_some hs with ⟨close, hopen, -⟩ | ⟨-, hst⟩ | ⟨hplain, -⟩
  · rw [closing?_of_isClosing hk] at hopen
    cases hopen
  · exact ⟨st', hst, h⟩
  · rw [hplain.2] at hk
    cases hk

theorem Within.closing (h : Within (close :: st) c) (hk : c.kind = close)
    (hc : close.isClosing = true) : Within st c.next := by
  obtain ⟨st', hst, h⟩ := h.closed (hk ▸ hc)
  cases hst
  exact h

end Cursor

/-! ## Types -/

/-- A closing brace is missing, or one stands where none is expected. -/
def SyntaxFault.OfBrace (fault : SyntaxFault) : Prop :=
  fault = .endOfFile "\x7d" ∨ fault = .closingBrace ∨ fault = .unbalanced

/-- A step that does not fail for a closing brace. -/
def Clear {α : Type} (x : Except SyntaxError α) : Prop :=
  ∀ e, x = .error e → ¬e.fault.OfBrace

section

variable {α β : Type} {x : Except SyntaxError α} {f : α → Except SyntaxError β}

theorem clear_ok (a : α) : Clear (.ok a : Except SyntaxError α) := fun _ h => by cases h

theorem clear_error {e : SyntaxError} (h : ¬e.fault.OfBrace) :
    Clear (.error e : Except SyntaxError α) := fun _ he => by cases he; exact h

theorem Clear.bind (hx : Clear x) (hf : ∀ a, x = .ok a → Clear (f a)) : Clear (x >>= f) :=
  fun e he => by
    rcases bind_eq_error he with he | ⟨a, ha, he⟩
    · exact hx e he
    · exact hf a ha e he

theorem Clear.map {g : α → β} (hx : Clear x) : Clear (x.map g) :=
  fun e he => hx e (map_eq_error he)

end

namespace Cursor

open Lexeme

variable {s : SourceText} {c d : Cursor} {st : List TokenKind} {opening closing kind : TokenKind}
  {what : String}

theorem expect_takes {t : Token} {d : c.After} (h : c.expect s kind what = .ok (t, d))
    (hk : kind.IsPlain) : Takes [] c d.1 := by
  obtain ⟨hp, ht⟩ := expect_eq_ok h
  refine ⟨_, hp, matched_of_plain ?_⟩
  rw [List.map_singleton, List.forall_mem_singleton, ht]
  exact hk

theorem expect_within {t : Token} {d : c.After} {st' : List TokenKind} (hw : Within st c)
    (h : c.expect s kind what = .ok (t, d)) (hs : shift st kind = some st') : Within st' d.1 := by
  obtain ⟨hp, rfl⟩ := expect_eq_ok h
  exact hw.passes hp (nest_cons_of hs [])

theorem expect_clear (h : what ≠ "\x7d") : Clear (c.expect s kind what) := by
  unfold expect
  split
  · exact clear_error (by simpa [SyntaxFault.OfBrace, fault] using h)
  · split
    · exact clear_ok _
    · exact clear_error (by simp [SyntaxFault.OfBrace, fault])

theorem skipBalanced_takes {d : c.After} (hw : Within st c)
    (hc : opening.closing? = some closing) (h : c.skipBalanced s opening closing = .ok d) :
    Takes [] c d.1 := by
  obtain ⟨seg, last, hp, -, hb⟩ := skipBalanced_eq_ok h
  exact takes_of_levels hp (hb.levels hc (kinds_lexemes c ▸ hw.nest))

theorem skipBalanced_clear (hw : Within st c) (hc : opening.closing? = some closing) :
    Clear (c.skipBalanced s opening closing) := by
  have hexpect : Clear (c.expect s opening "opening delimiter") := expect_clear (by decide)
  by_cases hk : c.kind = opening
  · have hne : c.kind ≠ .eof := by
      rintro he
      rw [← hk, he] at hc
      cases hc
    have hnest := hw.nest
    rw [← kinds_lexemes, lexemes_cons hne, hk] at hnest
    obtain ⟨rest, hb, -⟩ := balanced_of_nest (l := ⟨opening, c.token.text⟩) hc hnest
    rw [← hk, ← lexemes_cons hne, hk] at hb
    obtain ⟨d, hd, -⟩ := skipBalanced_of_balanced (s := s) (hk ▸ hne) hb
    rw [hd]
    exact clear_ok d
  · unfold skipBalanced
    refine hexpect.bind fun r h => absurd ?_ hk
    obtain ⟨hp, ht⟩ := expect_eq_ok h
    rw [kind_eq, hp.lexemes]
    exact ht

theorem readLength_clear (s : SourceText) (c : Cursor) : Clear (c.readLength s) := by
  unfold readLength
  split
  · exact clear_error (by simp [SyntaxFault.OfBrace])
  · exact clear_ok _

theorem readNames_clear (s : SourceText) (c : Cursor) : Clear (c.readNames s) := by
  obtain ⟨n, hn⟩ : ∃ n, c.ahead.length < n := ⟨_, Nat.lt_succ_self _⟩
  induction n generalizing c with
  | zero => exact absurd hn (Nat.not_lt_zero _)
  | succ n ih =>
      unfold readNames
      refine (expect_clear (by decide)).bind fun r _ => ?_
      obtain ⟨name, d, hd⟩ := r
      dsimp only
      split
      · refine (ih _ ?_).bind fun _ _ => clear_ok _
        have := Nat.le_trans (skip_le [.lineBreak] d.next) d.next_le
        omega
      · exact clear_ok _

theorem readFieldNames_clear (s : SourceText) (c : Cursor) : Clear (c.readFieldNames s) := by
  unfold readFieldNames
  split
  · exact clear_ok _
  · exact (readNames_clear s c).map

theorem readQualified_clear (s : SourceText) (first : String) (c : Cursor) :
    Clear (c.readQualified s first) := by
  unfold readQualified
  split
  · exact (expect_clear (by decide)).bind fun _ _ => clear_ok _
  · exact clear_ok _

end Cursor

namespace TypeExpr

open Cursor Lexeme

variable {s : SourceText} {c : Cursor} {st : List TokenKind}

theorem read_takes {ty : TypeExpr} {d : c.After} (hw : Within st c)
    (h : read s c = .ok (ty, d)) : Takes [] c d.1 := by
  obtain ⟨seg, hp, htypes, -⟩ := read_sound h
  exact takes_of_levels hp (htypes.levels (kinds_lexemes c ▸ hw.nest))

theorem readField_takes {field : FieldDecl} {d : c.After} (hw : Within st c)
    (h : readField s c = .ok (field, d)) : Takes [] c d.1 := by
  obtain ⟨seg, hp, hdeclares⟩ := readField_sound h
  exact takes_of_levels hp (hdeclares.levels (kinds_lexemes c ▸ hw.nest))

theorem readFieldNames_takes {names : List String} {d : c.From} (hk : c.kind ≠ .eof)
    (h : c.readFieldNames s = .ok (names, d)) : Takes [] c d.1 := by
  obtain ⟨seg, hp, hnames⟩ := readFieldNames_eq_ok hk h
  refine takes_of_levels hp ?_
  rcases hnames with ⟨-, heq, -⟩ | ⟨-, hnames⟩
  · exact heq ▸ .refl _
  · exact hnames.levels

theorem readLength_takes {inner : List Token} {d : c.From} (hw : Within (.rbrack :: st) c)
    (h : c.readLength s = .ok (inner, d)) : Takes [] c d.1 := by
  obtain ⟨hp, hinside, hk⟩ := readLength_eq_ok h
  have hd : d.1.lexemes = ⟨.rbrack, d.1.token.text⟩ :: d.1.next.lexemes := by
    rw [← hk, ← lexemes_cons (by rw [hk]; decide)]
  have hnest := hw.nest
  rw [← kinds_lexemes, hp.lexemes, hd, ← List.nil_append (.rbrack :: st)] at hnest
  have hnested := hinside.levels rfl hnest
  exact takes_of_levels hp ⟨_, hp.lexemes, hnested⟩

theorem read_clear_step {n : Nat}
    (hread : ∀ {c : Cursor} {st : List TokenKind}, c.ahead.length < n → Within st c →
      Clear (read s c))
    (hresult : ∀ {c : Cursor} {st : List TokenKind}, c.ahead.length < n → Within st c →
      Clear (readResult s c))
    (hbody : ∀ {c : Cursor} {st : List TokenKind} {keyword : Nat} {done : PartialBody},
      c.ahead.length < n → Within (.rbrace :: st) c → Clear (readBody s keyword done c))
    (hc : c.ahead.length < n + 1) (hw : Within st c) : Clear (read s c) := by
  unfold read
  split
  · exact clear_error (by simp [SyntaxFault.OfBrace, fault])
  · rename_i hne
    have hstep : (c.step hne).1 = c.next := rfl
    generalize c.step hne = behind at hstep ⊢
    obtain ⟨next, hlt⟩ := behind
    subst hstep
    have hlen : c.next.ahead.length < n := Nat.lt_of_lt_of_le hlt (Nat.le_of_lt_succ hc)
    have hlen' : c.next.next.ahead.length < n := Nat.lt_of_le_of_lt c.next.next_le hlen
    dsimp only
    split
    · rename_i hk
      have hnext := hw.plain hne (by rw [hk]; decide)
      exact (hread hlen hnext).bind fun _ _ => clear_ok _
    · rename_i hk
      have hnext := hw.opening (by rw [hk]; rfl)
      exact (hread hlen hnext).bind fun _ _ => (expect_clear (by decide)).bind fun _ _ => clear_ok _
    · rename_i hk
      have hnext := hw.opening (by rw [hk]; rfl)
      split
      · rename_i hclose
        have hnext := hnext.closing hclose rfl
        exact (hread hlen' hnext).bind fun _ _ => clear_ok _
      · refine (readLength_clear s c.next).bind fun r h => ?_
        obtain ⟨inner, close⟩ := r
        have hclose := (readLength_eq_ok h).2.2
        have hnext := (hnext.takes (u := []) (readLength_takes hnext h)).closing hclose rfl
        have hlen : close.1.next.ahead.length < n :=
          Nat.lt_of_le_of_lt (Nat.le_trans close.1.next_le close.2) hlen
        dsimp only
        split
        · exact clear_error (by simp [SyntaxFault.OfBrace, fault])
        · exact (hread hlen hnext).bind fun _ _ => clear_ok _
    · rename_i hk
      have hnext := hw.plain hne (by rw [hk]; decide)
      split
      · rename_i hchan
        have hnext := hnext.plain (by rw [hchan.1]; decide) (by rw [hchan.1]; decide)
        exact (hread hlen' hnext).bind fun _ _ => clear_ok _
      · exact clear_error (by simp [SyntaxFault.OfBrace, fault])
    · rename_i hk
      have hnext := hw.plain hne (by rw [hk]; decide)
      split
      · refine (expect_clear (by decide)).bind fun r h => ?_
        have hopen := expect_within hnext h (shift_opening rfl st)
        exact (hbody (Nat.lt_trans r.2.2 hlen) hopen).bind fun _ _ => clear_ok _
      · exact (skipBalanced_clear hnext rfl).bind fun _ _ => clear_ok _
      · refine (expect_clear (by decide)).bind fun r h => ?_
        have hopen := expect_within hnext h (shift_opening rfl st)
        have hlen := Nat.lt_trans r.2.2 hlen
        refine (hread hlen hopen).bind fun key hkey => ?_
        have hkeyed := hopen.takes (u := []) (read_takes hopen hkey)
        refine (expect_clear (by decide)).bind fun close h => ?_
        have hvalue := expect_within hkeyed h (shift_closing rfl st)
        have hlen := Nat.lt_trans close.2.2 (Nat.lt_trans key.2.2 hlen)
        exact (hread hlen hvalue).bind fun _ _ => clear_ok _
      · split
        · rename_i harrow
          have hnext := hnext.plain (by rw [harrow]; decide) (by rw [harrow]; decide)
          exact (hread hlen' hnext).bind fun _ _ => clear_ok _
        · exact (hread hlen hnext).bind fun _ _ => clear_ok _
      · refine (skipBalanced_clear hnext rfl).bind fun e h => ?_
        have hlist := hnext.takes (u := []) (skipBalanced_takes hnext rfl h)
        exact (hresult (Nat.lt_trans e.2 hlen) hlist).bind fun _ _ => clear_ok _
      · refine (readQualified_clear s _ _).bind fun r h => ?_
        obtain ⟨pkg, name, e⟩ := r
        obtain ⟨seg, hp, -, hqualified⟩ := readQualified_eq_ok h
        dsimp only
        split
        · have hlevels := hqualified.levels
          rw [← hk, ← lexemes_cons hne] at hlevels
          have hname := hw.takes (u := []) (takes_of_levels ((passes_next hne).trans hp) hlevels)
          exact (skipBalanced_clear hname rfl).bind fun _ _ => clear_ok _
        · exact clear_ok _
    · exact clear_error (by simp [SyntaxFault.OfBrace, fault])

theorem readResult_clear_step {n : Nat}
    (hread : ∀ {c : Cursor} {st : List TokenKind}, c.ahead.length < n → Within st c →
      Clear (read s c))
    (hc : c.ahead.length < n) (hw : Within st c) : Clear (readResult s c) := by
  have type : Clear (read s c >>= fun r => pure r.2.toFrom) :=
    (hread hc hw).bind fun _ _ => clear_ok _
  unfold readResult
  split
  · exact (skipBalanced_clear hw rfl).bind fun _ _ => clear_ok _
  · exact type
  · exact type
  · exact type
  · exact type
  · exact clear_ok _

theorem readField_clear_step {n : Nat}
    (hread : ∀ {c : Cursor} {st : List TokenKind}, c.ahead.length < n → Within st c →
      Clear (read s c))
    (hc : c.ahead.length < n) (hw : Within st c) : Clear (readField s c) := by
  unfold readField
  split
  · exact clear_error (by simp [SyntaxFault.OfBrace, fault])
  · rename_i hstart
    have hne : c.kind ≠ .eof := fun he => hstart (by rw [he]; rfl)
    refine (readFieldNames_clear s c).bind fun r h => ?_
    obtain ⟨names, d⟩ := r
    have hnamed := hw.takes (u := []) (readFieldNames_takes hne h)
    refine (hread (Nat.lt_of_le_of_lt d.2 hc) hnamed).bind fun _ _ => ?_
    dsimp only
    split
    · exact clear_ok _
    · exact clear_error (by simp [SyntaxFault.OfBrace, fault])

theorem readBody_clear_step {n : Nat} {keyword : Nat} {done : PartialBody}
    (hfield : ∀ {st : List TokenKind}, Within st c → Clear (readField s c))
    (hbody : ∀ {c : Cursor} {st : List TokenKind} {keyword : Nat} {done : PartialBody},
      c.ahead.length < n → Within (.rbrace :: st) c → Clear (readBody s keyword done c))
    (hc : c.ahead.length < n + 1) (hw : Within (.rbrace :: st) c) :
    Clear (readBody s keyword done c) := by
  unfold readBody
  split
  · rename_i he
    cases hw.eof he
  · rename_i hne
    have hstep : (c.step hne).1 = c.next := rfl
    generalize c.step hne = behind at hstep ⊢
    obtain ⟨next, hlt⟩ := behind
    subst hstep
    have hlen : c.next.ahead.length < n := Nat.lt_of_lt_of_le hlt (Nat.le_of_lt_succ hc)
    dsimp only
    split
    · rename_i hk
      have hnext := hw.plain hne (by rw [hk]; decide)
      exact (hbody hlen hnext).bind fun _ _ => clear_ok _
    · rename_i hk
      have hnext := hw.plain hne (by rw [hk]; decide)
      exact (hbody hlen hnext).bind fun _ _ => clear_ok _
    · rename_i hk
      have hnext := hw.plain hne (by rw [hk]; decide)
      exact (hbody hlen hnext).bind fun _ _ => clear_ok _
    · exact clear_ok _
    · refine (hfield hw).bind fun r h => ?_
      obtain ⟨field, e⟩ := r
      have hnext := hw.takes (u := []) (readField_takes hw h)
      exact (hbody (Nat.lt_of_lt_of_le e.2 (Nat.le_of_lt_succ hc)) hnext).bind fun _ _ => clear_ok _

/-- Reading a type does not fail for a closing brace. -/
theorem read_clear (hw : Within st c) : Clear (read s c) := by
  have all : ∀ n,
      (∀ {c : Cursor} {st : List TokenKind}, c.ahead.length < n → Within st c →
        Clear (read s c)) ∧
      ∀ {c : Cursor} {st : List TokenKind} {keyword : Nat} {done : PartialBody},
        c.ahead.length < n → Within (.rbrace :: st) c → Clear (readBody s keyword done c) := by
    intro n
    induction n with
    | zero => exact ⟨fun h => absurd h (Nat.not_lt_zero _), fun h => absurd h (Nat.not_lt_zero _)⟩
    | succ n ih =>
        obtain ⟨hread, hbody⟩ := ih
        have hread' {c : Cursor} {st : List TokenKind} (hc : c.ahead.length < n + 1)
            (hw : Within st c) : Clear (read s c) :=
          read_clear_step hread (readResult_clear_step hread) hbody hc hw
        exact ⟨hread', fun hc hw => readBody_clear_step (readField_clear_step hread' hc) hbody hc hw⟩
  exact (all _).1 (Nat.lt_succ_self _) hw

end TypeExpr

end StructLayout
