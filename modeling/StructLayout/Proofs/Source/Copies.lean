import StructLayout.Proofs.Source.Bare
import StructLayout.Proofs.Source.Completeness
import StructLayout.Proofs.Source.Context
import StructLayout.Proofs.Source.Fills
import StructLayout.Proofs.Source.Spans

/-!
A text that stands at two places is read in the same way at both.
-/

namespace StructLayout

open Text Token

/-! ## Parts of a text -/

theorem Text.takeBytes_append {n : Nat} {cs : List Char} (h : n ≤ byteLen cs) (rest : List Char) :
    takeBytes n (cs ++ rest) = takeBytes n cs := by
  induction cs generalizing n with
  | nil =>
      obtain rfl : n = 0 := Nat.le_zero.mp h
      cases rest <;> rfl
  | cons c cs ih =>
      cases n with
      | zero => rfl
      | succ n =>
          rw [byteLen_cons] at h
          rw [List.cons_append, takeBytes, takeBytes, ih (by omega)]

/-- A part of the text starts at a byte. -/
def SourceText.Holds (s : SourceText) (a : Nat) (cs : List Char) : Prop :=
  ∃ front rest, s.chars = front ++ cs ++ rest ∧ byteLen front = a

theorem SourceText.Holds.slice {s : SourceText} {a i j : Nat} {front back : List Char}
    (h : s.Holds a (front ++ back)) (hi : i = a + byteLen front)
    (hj : j ≤ a + byteLen (front ++ back)) :
    Text.slice i j s.chars = takeBytes (j - i) back := by
  obtain ⟨before, rest, hs, rfl⟩ := h
  have htext : s.chars = before ++ front ++ (back ++ rest) := by rw [hs]; simp
  rw [byteLen_append] at hj
  rw [Text.slice, hi, htext, ← byteLen_append, dropBytes_byteLen]
  exact takeBytes_append (by rw [byteLen_append]; omega) rest

@[simp] theorem Token.lexeme_moved (a b : Nat) (t : Token) : (t.moved a b).lexeme = t.lexeme := rfl

@[simp] theorem Token.kind_moved (a b : Nat) (t : Token) : (t.moved a b).kind = t.kind := rfl

@[simp] theorem Token.text_moved (a b : Nat) (t : Token) : (t.moved a b).text = t.text := rfl

@[simp] theorem Token.map_lexeme_moved (a b : Nat) (ts : List Token) :
    (ts.map (moved a b)).map lexeme = ts.map lexeme := by
  rw [List.map_map]
  rfl

namespace Cursor

variable {c d : Cursor}

/-- Cursors that leave the same behind have passed the same. -/
theorem Passes.split {seg xs ys : List Token} (hp : c.Passes seg d) (ha : c.ahead = xs ++ ys)
    (hl : d.lexemes = ys.map Token.lexeme) : seg = xs ∧ d.ahead = ys := by
  have hlen : d.ahead.length = ys.length := by
    have := congrArg List.length hl
    rw [List.length_map] at this
    exact (List.length_map Token.lexeme).symm.trans this
  exact List.append_inj' (hp.ahead.symm.trans ha) hlen

theorem kind_of_ahead {t : Token} {ts : List Token} (h : c.ahead = t :: ts) : c.kind = t.kind := by
  rw [kind, token, peek, h]
  rfl

theorem next_of_ahead {t : Token} {ts : List Token} (h : c.ahead = t :: ts) :
    c.token = t ∧ c.next.ahead = ts ∧ c.next.before = t :: c.before := by
  rw [token, peek, next, h]
  exact ⟨rfl, rfl, rfl⟩

theorem expect_eq_next {s : SourceText} {kind : TokenKind} {what : String} {t : Token}
    {d : c.After} (h : c.expect s kind what = .ok (t, d)) : c.kind = kind ∧ d.1 = c.next := by
  unfold expect at h
  split at h
  · cases h
  · split at h
    · rename_i hk
      cases h
      exact ⟨hk, rfl⟩
    · cases h

end Cursor

/-! ## Two places -/

open Lexeme

/-- A text at two places, and the tokens that stand behind it there. -/
structure Copy where
  s : SourceText
  s' : SourceText
  start : Nat
  start' : Nat
  text : List Char
  holds : s.Holds start text
  holds' : s'.Holds start' text
  more : List Token
  more' : List Token
  fits : Fits (more.map Token.lexeme) (more'.map Token.lexeme)

namespace Copy

open Cursor TypeExpr

variable {m : Copy}

/-- A token of the text, at the second place. -/
def move (m : Copy) : Token → Token :=
  moved m.start m.start'

/-- A token of the text, at the first place. -/
def Inside (m : Copy) (t : Token) : Prop :=
  ∃ front back, m.text = front ++ back ∧ t.start = m.start + byteLen front ∧
    t.stop ≤ m.start + byteLen m.text

theorem Inside.bounds {t : Token} (h : m.Inside t) :
    m.start ≤ t.start ∧ t.start ≤ t.stop ∧ t.stop ≤ m.start + byteLen m.text := by
  obtain ⟨front, back, -, hs, hle⟩ := h
  exact ⟨by omega, Nat.le_add_right _ _, hle⟩

theorem Inside.slice {t : Token} {j : Nat} (h : m.Inside t) (hl : m.start ≤ j)
    (hr : j ≤ m.start + byteLen m.text) :
    Text.slice (m.move t).start (j - m.start + m.start') m.s'.chars =
      Text.slice t.start j m.s.chars := by
  obtain ⟨front, back, htext, hs, -⟩ := h
  have hh := m.holds
  have hh' := m.holds'
  rw [htext] at hh hh' hr
  have hstart : (m.move t).start = m.start' + byteLen front := by
    show t.start - m.start + m.start' = _
    omega
  rw [hh.slice hs hr, hh'.slice hstart (by omega)]
  congr 1
  omega

/-- Two cursors in front of the same tokens, one at each place. -/
structure Fronts (m : Copy) (c c' : Cursor) : Prop where
  tokens : ∃ xs, c.ahead = xs ++ m.more ∧ c'.ahead = xs.map m.move ++ m.more' ∧
    ∀ t ∈ xs, m.Inside t

/-- What was read last belongs to the text too. -/
structure Twin (m : Copy) (c c' : Cursor) : Prop extends m.Fronts c c' where
  le : m.start ≤ c.lastStop
  ge : c.lastStop ≤ m.start + byteLen m.text
  last : c'.lastStop = c.lastStop - m.start + m.start'

variable {c c' d d' e e' : Cursor}

theorem Fronts.more_le (h : m.Fronts c c') : m.more.length ≤ c.ahead.length := by
  obtain ⟨xs, hc, -⟩ := h.tokens
  rw [hc, List.length_append]
  exact Nat.le_add_left _ _

/-- The place behind some tokens. -/
theorem Twin.after {seg : List Token} (h : m.Twin c c') (hp : c.Passes seg d)
    (hd : m.more.length ≤ d.ahead.length) :
    ∃ ls, c'.lexemes = seg.map Token.lexeme ++ ls ∧ Fits d.lexemes ls ∧
      (m.more.length < d.ahead.length → headKind ls = headKind d.lexemes) ∧
      ∀ {seg' : List Token} {d' : Cursor}, c'.Passes seg' d' → d'.lexemes = ls →
        m.Twin d d' ∧ seg' = seg.map m.move ∧ ∀ t ∈ seg, m.Inside t := by
  obtain ⟨xs, hc, hc', hin⟩ := h.tokens
  obtain ⟨ys, rfl, hys⟩ : ∃ ys, xs = seg ++ ys ∧ d.ahead = ys ++ m.more := by
    rcases List.append_eq_append_iff.mp (hp.ahead.symm.trans hc) with ⟨ys, hx, hy⟩ | ⟨ys, hx, hy⟩
    · exact ⟨ys, hx, hy⟩
    · have : ys = [] := by
        rw [hy, List.length_append] at hd
        exact List.length_eq_zero_iff.mp (by omega)
      subst this
      exact ⟨[], by rw [hx]; simp, by rw [hy]; rfl⟩
  have hlexemes : d.lexemes = ys.map Token.lexeme ++ m.more.map Token.lexeme := by
    rw [Cursor.lexemes, hys, List.map_append]
  have hin' := fun t ht => hin t (List.mem_append_left ys ht)
  rw [List.map_append, List.append_assoc] at hc'
  refine ⟨(ys.map m.move ++ m.more').map Token.lexeme, ?_, ?_, fun hlt => ?_, fun hp' hl => ?_⟩
  · rw [Cursor.lexemes, hc', List.map_append, move, map_lexeme_moved]
  · rw [hlexemes, List.map_append, move, map_lexeme_moved]
    cases ys with
    | nil => exact m.fits
    | cons => exact .inl rfl
  · rw [hlexemes, List.map_append, move, map_lexeme_moved]
    cases ys with
    | nil => simp [hys] at hlt
    | cons => rfl
  · obtain ⟨rfl, hd'⟩ := hp'.split hc' hl
    have hstop := lastStop_passes hp
    have hstop' := lastStop_passes hp'
    rw [List.getLast?_map] at hstop'
    refine ⟨?_, rfl, hin'⟩
    cases hlast : seg.getLast? with
    | none =>
        rw [hlast] at hstop hstop'
        have hstop : d.lastStop = c.lastStop := hstop
        have hstop' : _ = c'.lastStop := hstop'
        exact ⟨⟨ys, hys, hd', fun t ht => hin t (List.mem_append_right _ ht)⟩, hstop ▸ h.le,
          hstop ▸ h.ge, by rw [hstop, hstop', h.last]⟩
    | some t =>
        rw [hlast] at hstop hstop'
        have hb := (hin' t (List.mem_of_getLast? hlast)).bounds
        have hstop : d.lastStop = t.stop := hstop
        have hstop' : _ = (t.moved m.start m.start').stop := hstop'
        exact ⟨⟨ys, hys, hd', fun t ht => hin t (List.mem_append_right _ ht)⟩,
          by rw [hstop]; omega, by rw [hstop]; omega, by rw [hstop, hstop', stop_moved hb.1]⟩

/-- The next token. -/
theorem Fronts.next (h : m.Fronts c c') (hc : m.more.length < c.ahead.length) :
    c'.kind = c.kind ∧ c'.token = m.move c.token ∧ m.Inside c.token ∧ m.Twin c.next c'.next := by
  obtain ⟨xs, hx, hx', hin⟩ := h.tokens
  cases xs with
  | nil => simp [hx] at hc
  | cons t xs =>
      obtain ⟨ht, ha, hb⟩ := next_of_ahead hx
      obtain ⟨ht', ha', hb'⟩ := next_of_ahead hx'
      obtain ⟨htin, hin⟩ := List.forall_mem_cons.mp hin
      have hbounds := htin.bounds
      refine ⟨?_, by rw [ht, ht'], ht ▸ htin, ⟨⟨xs, ha, ha', hin⟩, ?_, ?_, ?_⟩⟩
      · rw [kind_of_ahead hx, kind_of_ahead hx']
        rfl
      · rw [lastStop, hb]
        exact Nat.le_trans hbounds.1 hbounds.2.1
      · rw [lastStop, hb]
        exact hbounds.2.2
      · rw [lastStop, lastStop, hb, hb']
        exact stop_moved hbounds.1

theorem Fronts.token_text (h : m.Fronts c c') (hc : m.more.length < c.ahead.length) :
    c'.token.text = c.token.text := by
  rw [(h.next hc).2.1]
  rfl

/-- The text between two places is the same. -/
theorem Fronts.slice (h : m.Fronts c c') (hc : m.more.length < c.ahead.length) (he : m.Twin e e') :
    Text.slice c'.token.start e'.lastStop m.s'.chars =
      Text.slice c.token.start e.lastStop m.s.chars := by
  obtain ⟨-, htoken, hin, -⟩ := h.next hc
  rw [htoken, he.last]
  exact hin.slice he.le he.ge

theorem Fronts.collapsed (h : m.Fronts c c') (hc : m.more.length < c.ahead.length) (he : m.Twin e e') :
    m.s'.collapsed c'.token.start e'.lastStop = m.s.collapsed c.token.start e.lastStop := by
  rw [SourceText.collapsed, SourceText.collapsed, h.slice hc he]

/-! ## The steps of a reader -/

theorem Twin.skipBalanced {opening closing : TokenKind} {d : c.After} (h : m.Twin c c')
    (ho : opening ≠ .eof) (hr : c.skipBalanced m.s opening closing = .ok d)
    (hd : m.more.length ≤ d.1.ahead.length) :
    ∃ d' : c'.After, c'.skipBalanced m.s' opening closing = .ok d' ∧ m.Twin d.1 d'.1 := by
  obtain ⟨seg, last, hp, -, hb⟩ := skipBalanced_eq_ok hr
  obtain ⟨ls, hls, -, -, htwin⟩ := h.after hp hd
  obtain ⟨segl, hsegl, -, htakes⟩ := hb.takes
  obtain rfl : segl = _ := List.append_cancel_right (hsegl.symm.trans hp.lexemes)
  have hb := htakes ls
  rw [← hls] at hb
  obtain ⟨d', hr', hl⟩ := skipBalanced_of_balanced (s := m.s') ho hb
  obtain ⟨_, _, hp', -⟩ := skipBalanced_eq_ok hr'
  exact ⟨d', hr', (htwin hp' hl).1⟩

theorem Twin.readQualified {first name : String} {pkg : Option String} {d : c.From}
    (h : m.Twin c c') (hr : c.readQualified m.s first = .ok (pkg, name, d))
    (hd : m.more.length ≤ d.1.ahead.length) :
    ∃ d' : c'.From, c'.readQualified m.s' first = .ok (pkg, name, d') ∧ m.Twin d.1 d'.1 := by
  obtain ⟨seg, hp, -, hq⟩ := readQualified_eq_ok hr
  obtain ⟨ls, hls, hfits, -, htwin⟩ := h.after hp hd
  obtain ⟨segl, hsegl, -, htakes⟩ := hq.takes
  rw [hp.lexemes, ← List.cons_append] at hsegl
  obtain rfl : segl = _ := List.append_cancel_right hsegl.symm
  have hq := htakes ls fun hk => hfits.not_kind hk (by decide)
  rw [List.cons_append, ← hls] at hq
  obtain ⟨d', hr', hl⟩ := readQualified_of_qualified (s := m.s') hq
  obtain ⟨_, hp', -⟩ := readQualified_eq_ok hr'
  exact ⟨d', hr', (htwin hp' hl).1⟩

theorem Twin.readLength {inner : List Token} {d : c.From} (h : m.Twin c c')
    (hr : c.readLength m.s = .ok (inner, d)) (hd : m.more.length < d.1.ahead.length) :
    ∃ d' : c'.From, c'.readLength m.s' = .ok (inner.map m.move, d') ∧ m.Twin d.1 d'.1 ∧
      ∀ t ∈ inner, m.Inside t := by
  obtain ⟨hp, hi, hk⟩ := readLength_eq_ok hr
  obtain ⟨ls, hls, -, hhead, htwin⟩ := h.after hp (Nat.le_of_lt hd)
  have hbrack : headKind ls = .rbrack := by rw [hhead hd, ← kind_eq, hk]
  obtain ⟨y, rest, rfl⟩ : ∃ y rest, ls = ⟨.rbrack, y⟩ :: rest := by
    cases ls with
    | nil => cases hbrack
    | cons l ls =>
        obtain ⟨kind, y⟩ := l
        have : kind = .rbrack := hbrack
        exact ⟨y, ls, by rw [this]⟩
  obtain ⟨us, d', hr', -, hl⟩ := readLength_of_inside (s := m.s') hi hls
  obtain ⟨htwin, rfl, hin⟩ := htwin (readLength_eq_ok hr').1 hl
  exact ⟨d', hr', htwin, hin⟩

theorem arrayLen_map {inner : List Token} (hin : ∀ t ∈ inner, m.Inside t) :
    arrayLen m.s' (inner.map m.move) = arrayLen m.s inner := by
  cases inner with
  | nil => rfl
  | cons t ts =>
      have hlast : ts.getLast?.getD t ∈ t :: ts := by
        cases hl : ts.getLast? with
        | none => exact List.mem_cons_self
        | some u => exact List.mem_cons_of_mem _ (List.mem_of_getLast? hl)
      obtain ⟨h₁, h₂, h₃⟩ := (hin _ hlast).bounds
      have htext : m.s'.collapsed (m.move t).start
          ((ts.map m.move).getLast?.getD (m.move t)).stop =
            m.s.collapsed t.start (ts.getLast?.getD t).stop := by
        have hstop : ((ts.map m.move).getLast?.getD (m.move t)).stop =
            (ts.getLast?.getD t).stop - m.start + m.start' := by
          rw [List.getLast?_map, ← stop_moved h₁]
          cases ts.getLast? <;> rfl
        rw [SourceText.collapsed, SourceText.collapsed, hstop,
          (hin t List.mem_cons_self).slice (by omega) h₃]
      rw [List.map_cons, arrayLen, arrayLen, htext]
      have hempty : (ts.map m.move).isEmpty = ts.isEmpty := by cases ts <;> rfl
      rw [hempty]
      rfl

/-- Tokens of some kinds, if others of the text stand behind them. -/
theorem Twin.skip (kinds : List TokenKind) (h : m.Twin c c')
    (hd : m.more.length < (c.skip kinds).ahead.length) :
    m.Twin (c.skip kinds) (c'.skip kinds) ∧
      (c'.ahead.takeWhile fun t => kinds.contains t.kind) =
        (c.ahead.takeWhile fun t => kinds.contains t.kind).map m.move := by
  obtain ⟨seg, rfl, hp, hkinds⟩ := passes_skip kinds c
  obtain ⟨seg', rfl, hp', -⟩ := passes_skip kinds c'
  obtain ⟨ls, hls, -, hhead, htwin⟩ := h.after hp (Nat.le_of_lt hd)
  have hstop : headKind ls ∉ kinds := by
    rw [hhead hd, ← kind_eq]
    have hne : (c.skip kinds).ahead ≠ [] := List.ne_nil_of_length_pos (Nat.zero_lt_of_lt hd)
    have := List.head?_dropWhile_not (fun t : Token => kinds.contains t.kind) c.ahead
    cases ha : c.ahead.dropWhile fun t => kinds.contains t.kind with
    | nil => exact absurd ha hne
    | cons t ts =>
        rw [ha] at this
        have hnot : kinds.contains t.kind = false := by simpa using this
        rw [kind_of_ahead (c := c.skip kinds) ha]
        simpa using hnot
  have hall : ∀ l ∈ (c.ahead.takeWhile fun t => kinds.contains t.kind).map Token.lexeme,
      l.kind ∈ kinds := by
    intro l hl
    obtain ⟨t, ht, rfl⟩ := List.mem_map.mp hl
    exact hkinds t ht
  obtain ⟨htwin, hseg, -⟩ := htwin hp' (skip_lexemes hall hstop hls)
  exact ⟨htwin, hseg⟩

theorem Twin.skipComments (h : m.Twin c c')
    (hd : m.more.length < c.skipComments.1.ahead.length) :
    m.Twin c.skipComments.1 c'.skipComments.1 ∧
      (c'.run .comment).map Token.text = (c.run .comment).map Token.text := by
  obtain ⟨htwin, hrun⟩ := h.skip [.comment] hd
  have hkinds : (fun t : Token => [TokenKind.comment].contains t.kind) =
      fun t => t.kind == .comment := by
    funext t
    rw [List.contains_cons, List.contains_nil, Bool.or_false]
  rw [hkinds] at hrun
  refine ⟨htwin, ?_⟩
  rw [run, hrun, List.map_map]
  rfl

theorem Twin.readTag (h : m.Twin c c') (hc : m.more.length < c.ahead.length) :
    c'.readTag.1 = c.readTag.1 ∧ m.Twin c.readTag.2.1 c'.readTag.2.1 := by
  obtain ⟨hk, htoken, -, hnext⟩ := h.next hc
  unfold Cursor.readTag
  rw [hk]
  split
  · exact ⟨congrArg some (h.token_text hc), hnext⟩
  · exact ⟨rfl, h⟩

theorem Twin.readNames {names : List String} {d : c.After} (h : m.Twin c c')
    (hr : c.readNames m.s = .ok (names, d)) (hd : m.more.length < d.1.ahead.length)
    (hk : d.1.kind ≠ .comma) :
    ∃ d' : c'.After, c'.readNames m.s' = .ok (names, d') ∧ m.Twin d.1 d'.1 := by
  obtain ⟨seg, hp, hn⟩ := readNames_eq_ok hr
  obtain ⟨ls, hls, -, hhead, htwin⟩ := h.after hp (Nat.le_of_lt hd)
  obtain ⟨segl, hsegl, -, htakes⟩ := hn.takes
  obtain rfl : segl = _ := List.append_cancel_right (hsegl.symm.trans hp.lexemes)
  have hn := htakes ls (by rwa [hhead hd, ← kind_eq])
  rw [← hls] at hn
  obtain ⟨d', hr', hl⟩ := readNames_of_names (s := m.s') hn
  obtain ⟨_, hp', -⟩ := readNames_eq_ok hr'
  exact ⟨d', hr', (htwin hp' hl).1⟩

theorem Twin.startsEmbedded (h : m.Twin c c') (hc : m.more.length < c.next.ahead.length) :
    c'.startsEmbedded = c.startsEmbedded := by
  obtain ⟨xs, hx, hx', -⟩ := h.tokens
  unfold Cursor.startsEmbedded
  match xs with
  | [] =>
      have := c.next_le
      rw [hx] at this
      simp at this
      omega
  | [t] =>
      rw [(next_of_ahead hx).2.1] at hc
      exact absurd hc (Nat.lt_irrefl _)
  | t :: u :: xs =>
      rw [kind_of_ahead hx, kind_of_ahead hx', peek, peek, hx, hx']
      rfl

theorem Twin.readFieldNames {names : List String} {d : c.From} (h : m.Twin c c')
    (hr : c.readFieldNames m.s = .ok (names, d)) (hc : m.more.length < c.next.ahead.length)
    (hd : m.more.length < d.1.ahead.length) (hk : d.1.kind ≠ .comma) :
    ∃ d' : c'.From, c'.readFieldNames m.s' = .ok (names, d') ∧ m.Twin d.1 d'.1 := by
  unfold Cursor.readFieldNames at hr ⊢
  rw [h.startsEmbedded hc]
  split at hr
  · rename_i he
    cases hr
    exact ⟨c'.here, if_pos he, h⟩
  · rename_i he
    rw [if_neg he]
    cases hn : c.readNames m.s with
    | error e => rw [hn] at hr; cases hr
    | ok r =>
        rw [hn] at hr
        cases hr
        obtain ⟨d', hr', ht⟩ := h.readNames hn hd hk
        exact ⟨d'.toFrom, by rw [hr']; rfl, ht⟩

theorem Twin.fits (h : m.Twin c c') : Fits c.lexemes c'.lexemes := by
  obtain ⟨ls, hls, hfits, -⟩ := h.after (.refl c) h.more_le
  rwa [hls]

/-! ## Types -/

/-- Types are read alike at both places, if less than `n` tokens are ahead. -/
def ReadsTypes (m : Copy) (n : Nat) : Prop :=
  ∀ {c c' : Cursor} {ty : TypeExpr} {d : c.After}, c.ahead.length < n → m.Fronts c c' →
    read m.s c = .ok (ty, d) → m.more.length ≤ d.1.ahead.length →
    ∃ ty' d', ReadsTo m.s' c' ty' d' ∧ ty'.bare = ty.bare ∧ m.Twin d.1 d'

/-- What has been read of a body, but for the place of it. -/
def Agrees (done done' : PartialBody) : Prop :=
  done'.fields.map bareField = done.fields.map bareField ∧ done'.pending = done.pending

/-- Bodies are read alike, if less than `n` tokens are ahead. -/
def ReadsBodies (m : Copy) (n : Nat) : Prop :=
  ∀ {c c' : Cursor} {keyword keyword' : Nat} {done done' : PartialBody} {body : StructExpr}
    {d : c.After}, c.ahead.length < n → m.Twin c c' → Agrees done done' →
    readBody m.s keyword done c = .ok (body, d) → m.more.length ≤ d.1.ahead.length →
    ∃ body' d', ReadsBody m.s' keyword' done' c' body' d' ∧ bareBody body' = bareBody body ∧
      m.Twin d.1 d'

variable {n : Nat}

theorem next_length {kind : TokenKind} (hk : c.kind = kind) (he : kind ≠ .eof) :
    c.next.ahead.length < c.ahead.length :=
  next_lt (ahead_ne_nil_of_kind (hk ▸ he))

theorem readResult_twin {d : c.From} (hread : m.ReadsTypes n) (hc : c.ahead.length < n)
    (h : m.Twin c c') (hr : readResult m.s c = .ok d) (hd : m.more.length ≤ d.1.ahead.length) :
    ∃ d' : c'.From, readResult m.s' c' = .ok d' ∧ m.Twin d.1 d'.1 := by
  have type (hk : c.kind ∈ [TokenKind.ident, .star, .lbrack, .arrow])
      (hr : (read m.s c >>= fun r => pure r.2.toFrom) = .ok d) :
      ∃ d' : c'.From, readResult m.s' c' = .ok d' ∧ m.Twin d.1 d'.1 := by
    obtain ⟨⟨ty, e⟩, hty, he⟩ := bind_eq_ok.mp hr
    cases he
    obtain ⟨ty', d', hr', -, ht⟩ := hread hc h.toFronts hty hd
    obtain ⟨hk', -⟩ := h.next (Nat.lt_of_le_of_lt hd e.2)
    obtain ⟨hle, hr'⟩ := readResult_type (hk' ▸ hk) hr'
    exact ⟨_, hr', ht⟩
  unfold readResult at hr
  split at hr
  · rename_i hk
    obtain ⟨e, hb, he⟩ := bind_eq_ok.mp hr
    cases he
    obtain ⟨e', hb', ht⟩ := h.skipBalanced (by decide) hb hd
    obtain ⟨hk', -⟩ := h.next (Nat.lt_of_le_of_lt hd e.2)
    exact ⟨_, readResult_list (hk'.trans hk) hb', ht⟩
  · rename_i hk
    exact type (by rw [hk]; decide) hr
  · rename_i hk
    exact type (by rw [hk]; decide) hr
  · rename_i hk
    exact type (by rw [hk]; decide) hr
  · rename_i hk
    exact type (by rw [hk]; decide) hr
  · rename_i h₁ h₂ h₃ h₄ h₅
    cases hr
    have hk : c'.kind ∉ [TokenKind.lparen, .ident, .star, .lbrack, .arrow] := by
      rw [kind_eq]
      refine h.fits.not_mem ?_ (by decide)
      rw [← kind_eq]
      simpa using ⟨h₁, h₂, h₃, h₄, h₅⟩
    exact ⟨c'.here, readResult_none hk, h⟩

theorem read_twin_step {ty : TypeExpr} (hread : m.ReadsTypes n) (hbody : m.ReadsBodies n)
    (hc : c.ahead.length < n + 1) (h : m.Fronts c c') (hp : Parts m.s c ty d)
    (hd : m.more.length ≤ d.ahead.length) :
    ∃ ty' d', ReadsTo m.s' c' ty' d' ∧ ty'.bare = ty.bare ∧ m.Twin d d' := by
  cases hp with
  | @star elem d hk hr =>
      have hlen := next_length hk (by decide)
      have := d.2
      obtain ⟨hk', -, -, hn⟩ := h.next (by omega)
      obtain ⟨elem', d', hr', hb, ht⟩ := hread (by omega) hn.toFronts hr hd
      exact ⟨_, d', readsTo_star (hk'.trans hk) hr', by rw [bare, bare, hb], ht⟩
  | @paren inner d t e hk hr hx =>
      have hlen := next_length hk (by decide)
      have := d.2
      have := e.2
      obtain ⟨hclose, he⟩ := expect_eq_next hx
      obtain ⟨hk', -, -, hn⟩ := h.next (by omega)
      obtain ⟨inner', d', hr', hb, ht⟩ := hread (by omega) hn.toFronts hr (by omega)
      obtain ⟨hclose', -, -, hn'⟩ := ht.next (by omega)
      exact ⟨_, _, readsTo_lparen (hk'.trans hk) hr' (hclose'.trans hclose), hb, he ▸ hn'⟩
  | @slice elem d hk hbrack hr =>
      have hlen := next_length hk (by decide)
      have hlen' := next_length hbrack (by decide)
      have := d.2
      obtain ⟨hk', -, -, hn⟩ := h.next (by omega)
      obtain ⟨hbrack', -, -, hn'⟩ := hn.next (by omega)
      obtain ⟨elem', d', hr', hb, ht⟩ := hread (by omega) hn'.toFronts hr hd
      exact ⟨_, d', readsTo_slice (hk'.trans hk) (hbrack'.trans hbrack) hr',
        by rw [bare, bare, hb], ht⟩
  | @array inner len elem close d hk hbrack hl ha hr =>
      have hlen := next_length hk (by decide)
      have hlen' := next_length (readLength_eq_ok hl).2.2 (by decide)
      have := d.2
      have := close.2
      obtain ⟨hk', -, -, hn⟩ := h.next (by omega)
      obtain ⟨hbrack', -⟩ := hn.next (by omega)
      obtain ⟨close', hl', ht, hin⟩ := hn.readLength hl (by omega)
      obtain ⟨-, -, -, hn'⟩ := ht.next (by omega)
      obtain ⟨elem', d', hr', hb, ht⟩ := hread (by omega) hn'.toFronts hr hd
      exact ⟨_, d', readsTo_array (hk'.trans hk) (hbrack' ▸ hbrack) hl'
        ((arrayLen_map hin).trans ha) hr', by rw [bare, bare, hb], ht⟩
  | @receive elem d hk hchan hr =>
      have hlen := next_length hk (by decide)
      have hlen' := next_length hchan.1 (by decide)
      have := d.2
      obtain ⟨hk', -, -, hn⟩ := h.next (by omega)
      obtain ⟨hchan', -, -, hn'⟩ := hn.next (by omega)
      obtain ⟨elem', d', hr', hb, ht⟩ := hread (by omega) hn'.toFronts hr hd
      exact ⟨_, d', readsTo_receive (hk'.trans hk) (hchan'.trans hchan.1)
        ((hn.token_text (by omega)).trans hchan.2) hr', by rw [render_congr hb], ht⟩
  | @struct body t e d hk htext hx hr =>
      have hlen := next_length hk (by decide)
      have := d.2
      have := e.2
      obtain ⟨hopen, he⟩ := expect_eq_next hx
      obtain ⟨hk', -, -, hn⟩ := h.next (by omega)
      obtain ⟨hopen', -, -, hn'⟩ := hn.next (by omega)
      rw [← he] at hn'
      obtain ⟨body', d', hr', hb, ht⟩ := hbody (by omega) hn' ⟨rfl, rfl⟩ hr hd
      exact ⟨_, d', readsTo_struct (hk'.trans hk) ((h.token_text (by omega)).trans htext)
        (hopen'.trans hopen) hr', by rw [bare, bare, hb], ht⟩
  | @interface d hk htext hr =>
      have hlen := next_length hk (by decide)
      have := d.2
      obtain ⟨hk', -, -, hn⟩ := h.next (by omega)
      obtain ⟨d', hr', ht⟩ := hn.skipBalanced (by decide) hr hd
      refine ⟨_, _, readsTo_interface (hk'.trans hk) ((h.token_text (by omega)).trans htext) hr',
        ?_, ht⟩
      rw [interfaceText, interfaceText, hn.collapsed (by omega) ht]
  | @map key value t u e f g d hk htext hx hkey hx' hvalue =>
      have hlen := next_length hk (by decide)
      have := d.2
      have := e.2
      have := f.2
      have := g.2
      obtain ⟨hopen, he⟩ := expect_eq_next hx
      obtain ⟨hclose, hg⟩ := expect_eq_next hx'
      obtain ⟨hk', -, -, hn⟩ := h.next (by omega)
      obtain ⟨hopen', -, -, hn'⟩ := hn.next (by omega)
      rw [← he] at hn'
      obtain ⟨key', f', hkey', hbkey, htkey⟩ := hread (by omega) hn'.toFronts hkey (by omega)
      obtain ⟨hclose', -, -, hnf⟩ := htkey.next (by omega)
      rw [← hg] at hnf
      obtain ⟨value', d', hvalue', hbvalue, ht⟩ := hread (by omega) hnf.toFronts hvalue hd
      exact ⟨_, d', readsTo_map (hk'.trans hk) ((h.token_text (by omega)).trans htext)
        (hopen'.trans hopen) hkey' (hclose'.trans hclose) hvalue',
        by rw [bare, bare, hbkey, hbvalue], ht⟩
  | @send elem d hk htext harrow hr =>
      have hlen := next_length hk (by decide)
      have hlen' := next_length harrow (by decide)
      have := d.2
      obtain ⟨hk', -, -, hn⟩ := h.next (by omega)
      obtain ⟨harrow', -, -, hn'⟩ := hn.next (by omega)
      obtain ⟨elem', d', hr', hb, ht⟩ := hread (by omega) hn'.toFronts hr hd
      exact ⟨_, d', readsTo_send (hk'.trans hk) ((h.token_text (by omega)).trans htext)
        (harrow'.trans harrow) hr', by rw [render_congr hb], ht⟩
  | @chan elem d hk htext harrow hr =>
      have hlen := next_length hk (by decide)
      have := d.2
      obtain ⟨hk', -, -, hn⟩ := h.next (by omega)
      obtain ⟨harrow', -⟩ := hn.next (by omega)
      obtain ⟨elem', d', hr', hb, ht⟩ := hread (by omega) hn.toFronts hr hd
      exact ⟨_, d', readsTo_chan (hk'.trans hk) ((h.token_text (by omega)).trans htext)
        (harrow' ▸ harrow) hr', by rw [render_congr hb], ht⟩
  | @func e d hk htext hb hr =>
      have hlen := next_length hk (by decide)
      have := d.2
      have := e.2
      obtain ⟨hk', -, -, hn⟩ := h.next (by omega)
      obtain ⟨e', hb', hte⟩ := hn.skipBalanced (by decide) hb (by omega)
      obtain ⟨d', hr', ht⟩ := readResult_twin hread (by omega) hte hr hd
      refine ⟨_, _, readsTo_func (hk'.trans hk) ((h.token_text (by omega)).trans htext) hb' hr',
        ?_, ht⟩
      rw [h.collapsed (by omega) ht]
  | @ref pkg name d hk hword hq hb =>
      have hlen := next_length hk (by decide)
      have := d.2
      obtain ⟨hk', -, -, hn⟩ := h.next (by omega)
      have htext := h.token_text (by omega)
      obtain ⟨d', hq', ht⟩ := hn.readQualified hq hd
      rw [← htext] at hword hq'
      refine ⟨_, _, readsTo_ref (hk'.trans hk) hword hq' ?_, rfl, ht⟩
      rw [kind_eq] at hb ⊢
      exact ht.fits.not_kind hb (by decide)
  | @generic pkg name e d hk hword hq hr =>
      have hlen := next_length hk (by decide)
      have := d.2
      have := e.2
      obtain ⟨hk', -, -, hn⟩ := h.next (by omega)
      have htext := h.token_text (by omega)
      obtain ⟨e', hq', hte⟩ := hn.readQualified hq (by omega)
      obtain ⟨d', hr', ht⟩ := hte.skipBalanced (by decide) hr hd
      have hbrack : e'.1.kind = .lbrack := by
        obtain ⟨⟨u, f⟩, hx, -⟩ := bind_eq_ok.mp hr'
        exact (expect_eq_next hx).1
      rw [← htext] at hword hq'
      refine ⟨_, _, readsTo_generic (hk'.trans hk) hword hq' hbrack hr', ?_, ht⟩
      rw [h.collapsed (by omega) ht]

/-! ## Bodies of structs -/

theorem bareField_readAs {names : List String} (ht : m.Twin d d')
    {ty ty' : TypeExpr} (hty : ty'.bare = ty.bare)
    (hd : m.more.length < d.ahead.length) (he : m.Twin e e')
    (hle : m.more.length < e.readTag.2.1.skipComments.1.ahead.length) (docs : List String) :
    bareField { readAs m.s' c' names d' ty' e' with doc := docs } =
      bareField { readAs m.s c names d ty e with doc := docs } := by
  have hlen := Nat.lt_of_lt_of_le hle
    (Nat.le_trans e.readTag.2.1.skipComments.2 e.readTag.2.2)
  obtain ⟨htag, hcomments⟩ := he.readTag hlen
  obtain ⟨-, hrun⟩ := hcomments.skipComments hle
  rw [readAs, readAs, bareField, bareField, hty, htag, hrun, SourceText.slice, SourceText.slice,
    ht.slice hd he]

theorem readField_twin {field : FieldDecl} {d : c.After} (hread : m.ReadsTypes n)
    (hc : c.ahead.length < n) (h : m.Twin c c') (hr : readField m.s c = .ok (field, d))
    (hd : m.more.length < d.1.ahead.length) :
    ∃ field' d', ReadsField m.s' c' field' d' ∧ (c'.kind = .star ∨ c'.kind = .ident) ∧
      (∀ docs, bareField { field' with doc := docs } = bareField { field with doc := docs }) ∧
      m.Twin d.1 d' := by
  obtain ⟨hstart, hend, names, typed, ty, e, hn, hty, hskip, rfl⟩ := readField_eq_ok hr
  have hle : m.more.length < e.1.readTag.2.1.skipComments.1.ahead.length := hskip ▸ hd
  have hlen := Nat.lt_of_lt_of_le hle
    (Nat.le_trans e.1.readTag.2.1.skipComments.2 e.1.readTag.2.2)
  have := e.2
  have htyped := typed.2
  have hnames : m.more.length < c.next.ahead.length := by
    have hne : c.ahead ≠ [] := List.ne_nil_of_length_pos (by omega)
    obtain ⟨t, ts, hts⟩ := List.exists_cons_of_ne_nil hne
    have hlength := congrArg List.length hts
    rw [List.length_cons, ← (next_of_ahead hts).2.1] at hlength
    omega
  have hcomma : typed.1.kind ≠ .comma := by
    obtain ⟨-, -, ht, -⟩ := read_sound hty
    have := ht.headKind
    rw [← kind_eq] at this
    intro hk
    simp [hk] at this
  obtain ⟨typed', hn', httyped⟩ := h.readFieldNames hn hnames (by omega) hcomma
  obtain ⟨ty', e', hty', hb, hte⟩ := hread (by omega) httyped.toFronts hty (by omega)
  obtain ⟨-, htag⟩ := hte.readTag hlen
  obtain ⟨htg, -⟩ := htag.skipComments hle
  obtain ⟨hkg, -⟩ := htg.next hle
  obtain ⟨hk', -⟩ := h.next (by omega)
  rw [← hk'] at hstart
  rw [hskip] at hend ⊢
  rw [← hkg] at hend
  exact ⟨_, _, readsField hstart hn' hty' rfl hend, hstart,
    bareField_readAs httyped hb (by omega) hte hle, htg⟩

theorem readBody_twin_step (hread : m.ReadsTypes (n + 1)) (hbody : m.ReadsBodies n) :
    m.ReadsBodies (n + 1) := by
  intro c c' keyword keyword' done done' body d hc h hdone hr hd
  have := d.2
  obtain ⟨hne, hr⟩ := readBody_eq_ok hr
  have hlen := next_lt (ahead_ne_nil_of_kind hne)
  obtain ⟨hk', -, -, hn⟩ := h.next (by omega)
  rcases hr with ⟨hk, f, hr, he⟩ | ⟨hk, f, hr, he⟩ | ⟨hk, he, rfl⟩ | ⟨field, f, g, hf, hr, he⟩
  · obtain ⟨body', d', hr', hb, ht⟩ := hbody (by omega) hn hdone hr (he ▸ hd)
    rw [← hk'] at hk
    exact ⟨body', d', readsBody_skip hk hr', hb, he ▸ ht⟩
  · have hkeep : Agrees (keep m.s keyword done c) (keep m.s' keyword' done' c') := by
      refine ⟨hdone.1, ?_⟩
      rw [keep, keep, hdone.2, h.token_text (by omega)]
    obtain ⟨body', d', hr', hb, ht⟩ := hbody (by omega) hn hkeep hr (he ▸ hd)
    exact ⟨body', d', readsBody_comment (hk'.trans hk) hr', hb, he ▸ ht⟩
  · refine ⟨_, _, readsBody_close (hk'.trans hk), ?_, he ▸ hn⟩
    rw [finish, finish, bareBody, bareBody, bareFields_eq, bareFields_eq, hdone.1, hdone.2]
  · have := f.2
    have := g.2
    rw [← he] at hd
    obtain ⟨field', f', hf', hstart, hfield, ht⟩ := readField_twin hread hc h hf (by omega)
    have hadd : Agrees (add m.s keyword done c field) (add m.s' keyword' done' c' field') := by
      refine ⟨?_, rfl⟩
      rw [add, add, List.map_append, List.map_append, hdone.1, hdone.2]
      simp [hfield]
    obtain ⟨body', d', hr', hb, ht'⟩ := hbody (by omega) ht hadd hr hd
    exact ⟨body', d', readsBody_field hstart hf' hr', hb, he ▸ ht'⟩

/-- A type is read in the same way at two places. -/
theorem read_twin {ty : TypeExpr} {d : c.After} (h : m.Fronts c c')
    (hr : read m.s c = .ok (ty, d)) (hd : m.more.length ≤ d.1.ahead.length) :
    ∃ ty' d', ReadsTo m.s' c' ty' d' ∧ ty'.bare = ty.bare ∧ m.Twin d.1 d' := by
  have hall (n : Nat) : m.ReadsTypes n ∧ m.ReadsBodies n := by
    induction n with
    | zero => exact ⟨fun hc => absurd hc (Nat.not_lt_zero _), fun hc => absurd hc (Nat.not_lt_zero _)⟩
    | succ n ih =>
        have hread : m.ReadsTypes (n + 1) := fun hc h hr hd =>
          read_twin_step ih.1 ih.2 hc h (parts_of_read hr) hd
        exact ⟨hread, readBody_twin_step hread ih.2⟩
  exact (hall _).1 (Nat.lt_succ_self _) h hr hd

end Copy

end StructLayout
