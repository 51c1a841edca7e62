import StructLayout.Proofs.Source.Readers

/-!
What is in the grammar is read, in whatever text it stands, and leaves the tokens behind it.
-/

namespace StructLayout

namespace Cursor

open Lexeme

variable {s : SourceText} {c d : Cursor} {l : Lexeme} {ls rest : List Lexeme}

theorem ne_eof_of_lexemes (h : c.lexemes = l :: ls) (hl : l.kind ≠ .eof) : c.kind ≠ .eof := by
  rw [kind_eq, h]
  exact hl

/-- The token ahead and what is left behind it. -/
theorem lexemes_inv {kind : TokenKind} {text : String} (h : c.lexemes = ⟨kind, text⟩ :: ls)
    (hk : kind ≠ .eof) : c.kind = kind ∧ c.token.text = text ∧ c.next.lexemes = ls := by
  have hc := lexemes_cons (ne_eof_of_lexemes h hk)
  rw [h] at hc
  obtain ⟨hl, hr⟩ := List.cons.inj hc
  obtain ⟨hkind, htext⟩ := Lexeme.mk.inj hl
  exact ⟨hkind.symm, htext.symm, hr.symm⟩

theorem expect_of_kind {kind : TokenKind} (hk : c.kind = kind) (he : kind ≠ .eof) (what : String) :
    ∃ h, c.expect s kind what = .ok (c.token, ⟨c.next, h⟩) := by
  have hne : c.kind ≠ .eof := hk ▸ he
  refine ⟨next_lt (ahead_ne_nil_of_kind hne), ?_⟩
  rw [expect, dif_neg hne, if_pos hk]
  rfl

theorem closeFrom_of_closes {opening closing : TokenKind} {depth : Nat} {ts : List Token}
    (h : Closes opening closing depth (ts.map Token.lexeme) rest) (before : List Token) :
    ∃ r, closeFrom opening closing depth before ts = some r ∧ r.2.map Token.lexeme = rest := by
  induction ts generalizing depth before with
  | nil => cases h
  | cons t ts ih =>
      have hk : t.lexeme.kind = t.kind := rfl
      unfold closeFrom
      cases h with
      | last ho hc =>
          rw [hk] at ho hc
          exact ⟨(t :: before, ts), by rw [if_neg ho, if_pos hc], rfl⟩
      | opening ho h =>
          rw [hk] at ho
          rw [if_pos ho]
          exact ih h _
      | closing ho hc h =>
          rw [hk] at ho hc
          rw [if_neg ho, if_pos hc]
          exact ih h _
      | other ho hc h =>
          rw [hk] at ho hc
          rw [if_neg ho, if_neg hc]
          exact ih h _

theorem skipBalanced_of_balanced {opening closing : TokenKind} (he : opening ≠ .eof)
    (h : Balanced opening closing c.lexemes rest) :
    ∃ d : c.After, c.skipBalanced s opening closing = .ok d ∧ d.1.lexemes = rest := by
  obtain ⟨l, inner, hl, hk, hc⟩ := h
  obtain ⟨hkind, -, hnext⟩ := lexemes_inv hl (hk ▸ he)
  obtain ⟨hlt, hx⟩ := expect_of_kind (s := s) (hkind.trans hk) he "opening delimiter"
  rw [← hnext] at hc
  obtain ⟨⟨before, ahead⟩, hr, hrest⟩ := closeFrom_of_closes hc c.next.before
  refine ⟨⟨⟨before, ahead, c.stop⟩, Nat.lt_trans (closeFrom_length hr) hlt⟩,
    bind_eq_ok.mpr ⟨_, hx, ?_⟩, hrest⟩
  dsimp only
  split
  · rename_i hn
    rw [hr] at hn
    cases hn
  · rename_i hc
    rw [hr] at hc
    cases hc
    rfl

theorem lengthTokens_of_inside {depth : Nat} {inner : List Lexeme} {ts : List Token} {y : String}
    (hi : Inside depth inner) (h : ts.map Token.lexeme = inner ++ ⟨.rbrack, y⟩ :: rest) :
    ∃ us vs, lengthTokens depth ts = some (us, vs) ∧ us.map Token.lexeme = inner ∧
      vs.map Token.lexeme = ⟨.rbrack, y⟩ :: rest := by
  induction inner generalizing depth ts with
  | nil =>
      cases ts with
      | nil => cases h
      | cons t ts =>
          have hd : depth = 0 := hi
          have hk : t.kind = .rbrack := congrArg Lexeme.kind (List.cons.inj h).1
          exact ⟨[], t :: ts, by rw [lengthTokens, hk]; exact if_pos hd, rfl, h⟩
  | cons l inner ih =>
      cases ts with
      | nil => cases h
      | cons t ts =>
          obtain ⟨hl, h⟩ := List.cons.inj h
          have more {d : Nat} (hd : Inside d inner)
              (he : lengthTokens depth (t :: ts) =
                (lengthTokens d ts).map fun r => (t :: r.1, r.2)) :
              ∃ us vs, lengthTokens depth (t :: ts) = some (us, vs) ∧
                us.map Token.lexeme = l :: inner ∧ vs.map Token.lexeme = ⟨.rbrack, y⟩ :: rest := by
            obtain ⟨us, vs, hr, hu, hv⟩ := ih hd h
            exact ⟨t :: us, vs, by rw [he, hr]; rfl, by rw [List.map_cons, hl, hu], hv⟩
          have hk : l.kind = t.kind := congrArg Lexeme.kind hl.symm
          unfold Inside at hi
          rw [hk] at hi
          split at hi
          · rename_i hk; exact more hi (by rw [lengthTokens, hk])
          · rename_i hk; exact more hi (by rw [lengthTokens, hk])
          · rename_i hk; exact more hi (by rw [lengthTokens, hk])
          · rename_i hk; exact more hi.2 (by rw [lengthTokens, hk]; exact if_neg hi.1)
          · refine more hi ?_
            rw [lengthTokens]
            dsimp only
            split <;> first | contradiction | rfl

theorem readLength_of_inside {inner : List Lexeme} {y : String} (hi : Inside 0 inner)
    (h : c.lexemes = inner ++ ⟨.rbrack, y⟩ :: rest) :
    ∃ us, ∃ d : c.From, c.readLength s = .ok (us, d) ∧ us.map Token.lexeme = inner ∧
      d.1.lexemes = ⟨.rbrack, y⟩ :: rest := by
  obtain ⟨us, vs, hr, hu, hv⟩ := lengthTokens_of_inside hi h
  refine ⟨us, ⟨⟨us.reverse ++ c.before, vs, c.stop⟩, lengthTokens_length hr⟩, ?_, hu, hv⟩
  unfold readLength
  split
  · rename_i hn
    rw [hr] at hn
    cases hn
  · rename_i hc
    rw [hr] at hc
    cases hc
    rfl

theorem arrayLen_of_isLength {us : List Token} (h : IsLength (us.map Token.lexeme)) :
    ∃ len, arrayLen s us = some len := by
  match us with
  | [] => exact ⟨_, rfl⟩
  | [t] =>
      unfold arrayLen
      by_cases hk : t.kind = .int
      · obtain ⟨n, hn⟩ := Option.isSome_iff_exists.mp (h hk)
        have hn : Literal.parseInt t.text.toList = some n := hn
        exact ⟨.literal n, by simp [hk, hn]⟩
      · by_cases hi : t.kind = .ident
        · exact ⟨.const t.text, by simp [hi]⟩
        · exact ⟨_, by simp [hk, hi]; rfl⟩
  | t :: u :: us => exact ⟨_, by simp [arrayLen]; rfl⟩

theorem readQualified_of_qualified {first name : String} {pkg : Option String}
    (h : Qualified pkg name (⟨.ident, first⟩ :: c.lexemes) rest) :
    ∃ d : c.From, c.readQualified s first = .ok (pkg, name, d) ∧ d.1.lexemes = rest := by
  generalize hall : (⟨.ident, first⟩ : Lexeme) :: c.lexemes = all at h
  cases h with
  | plain hk =>
      obtain ⟨hf, rfl⟩ := List.cons.inj hall
      cases hf
      exact ⟨c.here, by rw [readQualified, if_neg (by rwa [kind_eq])]; rfl, rfl⟩
  | dotted =>
      obtain ⟨hf, hl⟩ := List.cons.inj hall
      cases hf
      obtain ⟨hk, -, hn⟩ := lexemes_inv hl (by decide)
      obtain ⟨hk', ht, hn'⟩ := lexemes_inv hn (by decide)
      obtain ⟨hlt, hx⟩ := expect_of_kind (s := s) hk' (by decide) "qualified type name"
      refine ⟨⟨c.next.next, Nat.le_trans (Nat.le_of_lt hlt) c.next_le⟩, ?_, hn'⟩
      rw [readQualified, if_pos hk]
      refine bind_eq_ok.mpr ⟨_, hx, ?_⟩
      dsimp only
      rw [ht]
      rfl

theorem dropWhile_lexemes {kinds : List TokenKind} {xs : List Lexeme} {ts : List Token}
    (hx : ∀ l ∈ xs, l.kind ∈ kinds) (hr : headKind rest ∉ kinds)
    (h : ts.map Token.lexeme = xs ++ rest) :
    (ts.dropWhile fun t => kinds.contains t.kind).map Token.lexeme = rest := by
  induction xs generalizing ts with
  | nil =>
      cases ts with
      | nil => exact h
      | cons t ts =>
          rw [List.nil_append] at h
          rw [← h] at hr ⊢
          rw [List.dropWhile_cons_of_neg]
          rwa [Bool.not_eq_true, ← Bool.not_eq_true, List.contains_iff_mem]
  | cons l xs ih =>
      obtain ⟨hl, hxs⟩ := List.forall_mem_cons.mp hx
      cases ts with
      | nil => cases h
      | cons t ts =>
          obtain ⟨rfl, htail⟩ := List.cons.inj h
          rw [List.dropWhile_cons_of_pos (by rwa [List.contains_iff_mem])]
          exact ih hxs htail

theorem skip_lexemes {kinds : List TokenKind} {xs : List Lexeme}
    (hx : ∀ l ∈ xs, l.kind ∈ kinds) (hr : headKind rest ∉ kinds) (h : c.lexemes = xs ++ rest) :
    (c.skip kinds).lexemes = rest :=
  dropWhile_lexemes hx hr h

theorem skipComments_lexemes {comments : List Lexeme} (hc : ∀ l ∈ comments, l.kind = .comment)
    (hr : headKind rest ≠ .comment) (h : c.lexemes = comments ++ rest) :
    c.skipComments.1.lexemes = rest :=
  skip_lexemes (fun l hl => List.mem_singleton.mpr (hc l hl))
    (fun hm => hr (List.mem_singleton.mp hm)) h

theorem readNames_of_names {names : List String} (h : Names names c.lexemes rest) :
    ∃ d : c.After, c.readNames s = .ok (names, d) ∧ d.1.lexemes = rest := by
  generalize hl : c.lexemes = ls at h
  induction h generalizing c with
  | @one name rest hk =>
      obtain ⟨hkind, htext, hn⟩ := lexemes_inv hl (by decide)
      obtain ⟨hlt, hx⟩ := expect_of_kind (s := s) hkind (by decide) "field name"
      refine ⟨⟨c.next, hlt⟩, ?_, hn⟩
      unfold readNames
      refine bind_eq_ok.mpr ⟨_, hx, ?_⟩
      dsimp only
      rw [if_neg (by rwa [kind_eq, hn]), htext]
      rfl
  | @more name comma names breaks ls rest hb h ih =>
      obtain ⟨hkind, htext, hn⟩ := lexemes_inv hl (by decide)
      obtain ⟨hlt, hx⟩ := expect_of_kind (s := s) hkind (by decide) "field name"
      obtain ⟨hkind', -, hn'⟩ := lexemes_inv hn (by decide)
      have hhead : headKind ls ∉ [TokenKind.lineBreak] := by
        cases h <;> simp [headKind]
      have hskip := skip_lexemes (fun l hl => List.mem_singleton.mpr (hb l hl)) hhead hn'
      obtain ⟨⟨e, he⟩, hr, hrest⟩ := ih hskip
      have hlt' : e.ahead.length < c.ahead.length := by
        have := Nat.le_trans (skip_le [.lineBreak] c.next.next) c.next.next_le
        omega
      refine ⟨⟨e, hlt'⟩, ?_, hrest⟩
      unfold readNames
      refine bind_eq_ok.mpr ⟨_, hx, ?_⟩
      dsimp only
      rw [if_pos hkind']
      refine bind_eq_ok.mpr ⟨_, hr, ?_⟩
      rw [htext]
      rfl

theorem readTag_lexemes (h : Tag c.lexemes rest) : c.readTag.2.1.lexemes = rest := by
  generalize hl : c.lexemes = ls at h
  unfold readTag
  cases h with
  | @some l rest hk =>
      have hne : l.kind ≠ .eof := by rcases hk with hk | hk <;> rw [hk] <;> decide
      obtain ⟨hkind, -, hn⟩ := lexemes_inv hl hne
      rw [if_pos (hkind ▸ hk)]
      exact hn
  | none hs hr =>
      rw [if_neg (by rw [kind_eq, hl]; exact not_or.mpr ⟨hs, hr⟩)]
      exact hl

end Cursor

namespace TypeExpr

open Lexeme Cursor

variable {s : SourceText} {c d e : Cursor} {ty elem : TypeExpr}

/-- A type is read at a cursor, up to another one. -/
def ReadsTo (s : SourceText) (c : Cursor) (ty : TypeExpr) (d : Cursor) : Prop :=
  ∃ h, read s c = .ok (ty, ⟨d, h⟩)

variable {body : StructExpr}

theorem lt_of_next {n : Nat} (hne : c.kind ≠ .eof) (hle : d.ahead.length ≤ n)
    (hn : n ≤ c.next.ahead.length) : d.ahead.length < c.ahead.length :=
  Nat.lt_of_le_of_lt (Nat.le_trans hle hn) (next_lt (ahead_ne_nil_of_kind hne))

theorem ne_eof_of_kind {kind : TokenKind} (hk : c.kind = kind) (h : kind ≠ .eof) : c.kind ≠ .eof :=
  hk ▸ h

theorem readsTo_star (hk : c.kind = .star) (h : ReadsTo s c.next elem d) :
    ReadsTo s c (.pointer elem) d := by
  obtain ⟨hlt, h⟩ := h
  have hne := ne_eof_of_kind hk (by decide)
  refine ⟨lt_of_next hne (Nat.le_of_lt hlt) (Nat.le_refl _), ?_⟩
  unfold read
  rw [dif_neg hne]
  simp only [step, hk]
  exact bind_eq_ok.mpr ⟨_, h, rfl⟩

theorem readsTo_lparen (hk : c.kind = .lparen) (h : ReadsTo s c.next elem d)
    (hd : d.kind = .rparen) : ReadsTo s c elem d.next := by
  obtain ⟨hlt, h⟩ := h
  obtain ⟨hlt', hx⟩ := expect_of_kind (s := s) hd (by decide) ")"
  have hne := ne_eof_of_kind hk (by decide)
  refine ⟨lt_of_next hne (Nat.le_of_lt (Nat.lt_trans hlt' hlt)) (Nat.le_refl _), ?_⟩
  unfold read
  rw [dif_neg hne]
  simp only [step, hk]
  exact bind_eq_ok.mpr ⟨_, h, bind_eq_ok.mpr ⟨_, hx, rfl⟩⟩

theorem readsTo_slice (hk : c.kind = .lbrack) (hr : c.next.kind = .rbrack)
    (h : ReadsTo s c.next.next elem d) : ReadsTo s c (.slice elem) d := by
  obtain ⟨hlt, h⟩ := h
  have hne := ne_eof_of_kind hk (by decide)
  refine ⟨lt_of_next hne (Nat.le_of_lt hlt) c.next.next_le, ?_⟩
  unfold read
  rw [dif_neg hne]
  simp only [step, hk]
  exact (if_pos hr).trans (bind_eq_ok.mpr ⟨_, h, rfl⟩)

theorem readsTo_array {inner : List Token} {close : c.next.From} {len : ArrayLen}
    (hk : c.kind = .lbrack) (hr : c.next.kind ≠ .rbrack)
    (hl : c.next.readLength s = .ok (inner, close)) (ha : arrayLen s inner = some len)
    (h : ReadsTo s close.1.next elem d) : ReadsTo s c (.array len elem) d := by
  obtain ⟨hlt, h⟩ := h
  have hne := ne_eof_of_kind hk (by decide)
  refine ⟨lt_of_next hne (Nat.le_of_lt hlt) (Nat.le_trans close.1.next_le close.2), ?_⟩
  unfold read
  rw [dif_neg hne]
  simp only [step, hk]
  refine (if_neg hr).trans (bind_eq_ok.mpr ⟨_, hl, ?_⟩)
  simp only [ha]
  exact bind_eq_ok.mpr ⟨_, h, rfl⟩

theorem readsTo_receive (hk : c.kind = .arrow) (hr : c.next.kind = .ident)
    (ht : c.next.token.text = "chan") (h : ReadsTo s c.next.next elem d) :
    ReadsTo s c (.chan ("<-chan " ++ elem.render)) d := by
  obtain ⟨hlt, h⟩ := h
  have hne := ne_eof_of_kind hk (by decide)
  refine ⟨lt_of_next hne (Nat.le_of_lt hlt) c.next.next_le, ?_⟩
  unfold read
  rw [dif_neg hne]
  simp only [step, hk]
  exact (if_pos ⟨hr, ht⟩).trans (bind_eq_ok.mpr ⟨_, h, rfl⟩)

theorem readsTo_struct {e : Cursor} (hk : c.kind = .ident) (ht : c.token.text = "struct")
    (hb : c.next.kind = .lbrace)
    (h : ∃ hlt, readBody s c.token.start {} c.next.next = .ok (body, ⟨e, hlt⟩)) :
    ReadsTo s c (.struct body) e := by
  obtain ⟨hlt, h⟩ := h
  obtain ⟨hlt', hx⟩ := expect_of_kind (s := s) hb (by decide) "\x7b"
  have hne := ne_eof_of_kind hk (by decide)
  refine ⟨lt_of_next hne (Nat.le_of_lt hlt) c.next.next_le, ?_⟩
  unfold read
  rw [dif_neg hne]
  simp only [step, hk, ht]
  exact bind_eq_ok.mpr ⟨_, hx, bind_eq_ok.mpr ⟨_, h, rfl⟩⟩

theorem readsTo_interface {e : c.next.After} (hk : c.kind = .ident)
    (ht : c.token.text = "interface") (h : c.next.skipBalanced s .lbrace .rbrace = .ok e) :
    ReadsTo s c (.interface (interfaceText s c.next e.1)) e.1 := by
  have hne := ne_eof_of_kind hk (by decide)
  refine ⟨lt_of_next hne (Nat.le_of_lt e.2) (Nat.le_refl _), ?_⟩
  unfold read
  rw [dif_neg hne]
  simp only [step, hk, ht]
  exact bind_eq_ok.mpr ⟨_, h, rfl⟩

theorem readsTo_map {e f : Cursor} {key value : TypeExpr} (hk : c.kind = .ident)
    (ht : c.token.text = "map") (hb : c.next.kind = .lbrack)
    (hkey : ReadsTo s c.next.next key e) (he : e.kind = .rbrack)
    (hvalue : ReadsTo s e.next value f) : ReadsTo s c (.map key value) f := by
  obtain ⟨hlt, hkey⟩ := hkey
  obtain ⟨hlt', hvalue⟩ := hvalue
  obtain ⟨ho, hopen⟩ := expect_of_kind (s := s) hb (by decide) "["
  obtain ⟨hc, hclose⟩ := expect_of_kind (s := s) he (by decide) "]"
  have hne := ne_eof_of_kind hk (by decide)
  have hle : f.ahead.length ≤ c.next.next.ahead.length :=
    Nat.le_of_lt (Nat.lt_trans hlt' (Nat.lt_trans hc hlt))
  refine ⟨lt_of_next hne hle c.next.next_le, ?_⟩
  unfold read
  rw [dif_neg hne]
  simp only [step, hk, ht]
  exact bind_eq_ok.mpr ⟨_, hopen, bind_eq_ok.mpr ⟨_, hkey,
    bind_eq_ok.mpr ⟨_, hclose, bind_eq_ok.mpr ⟨_, hvalue, rfl⟩⟩⟩⟩

theorem readsTo_send (hk : c.kind = .ident) (ht : c.token.text = "chan")
    (ha : c.next.kind = .arrow) (h : ReadsTo s c.next.next elem d) :
    ReadsTo s c (.chan ("chan<- " ++ elem.render)) d := by
  obtain ⟨hlt, h⟩ := h
  have hne := ne_eof_of_kind hk (by decide)
  refine ⟨lt_of_next hne (Nat.le_of_lt hlt) c.next.next_le, ?_⟩
  unfold read
  rw [dif_neg hne]
  simp only [step, hk, ht]
  exact (if_pos ha).trans (bind_eq_ok.mpr ⟨_, h, rfl⟩)

theorem readsTo_chan (hk : c.kind = .ident) (ht : c.token.text = "chan")
    (ha : c.next.kind ≠ .arrow) (h : ReadsTo s c.next elem d) :
    ReadsTo s c (.chan ("chan " ++ elem.render)) d := by
  obtain ⟨hlt, h⟩ := h
  have hne := ne_eof_of_kind hk (by decide)
  refine ⟨lt_of_next hne (Nat.le_of_lt hlt) (Nat.le_refl _), ?_⟩
  unfold read
  rw [dif_neg hne]
  simp only [step, hk, ht]
  exact (if_neg ha).trans (bind_eq_ok.mpr ⟨_, h, rfl⟩)

theorem readsTo_func {e : c.next.After} {f : e.1.From} (hk : c.kind = .ident)
    (ht : c.token.text = "func") (h : c.next.skipBalanced s .lparen .rparen = .ok e)
    (hr : readResult s e.1 = .ok f) :
    ReadsTo s c (.func (s.collapsed c.token.start f.1.lastStop)) f.1 := by
  have hne := ne_eof_of_kind hk (by decide)
  refine ⟨lt_of_next hne (Nat.le_of_lt (Nat.lt_of_le_of_lt f.2 e.2)) (Nat.le_refl _), ?_⟩
  unfold read
  rw [dif_neg hne]
  simp only [step, hk, ht]
  exact bind_eq_ok.mpr ⟨_, h, bind_eq_ok.mpr ⟨_, hr, rfl⟩⟩

section named

variable {pkg : Option String} {name : String} {e : c.next.From}

theorem readsTo_ref (hk : c.kind = .ident) (ht : c.token.text ∉ keywords)
    (hq : c.next.readQualified s c.token.text = .ok (pkg, name, e)) (hb : e.1.kind ≠ .lbrack) :
    ReadsTo s c (.ref pkg name) e.1 := by
  have hne := ne_eof_of_kind hk (by decide)
  simp only [keywords, List.mem_cons, List.not_mem_nil, or_false, not_or] at ht
  obtain ⟨_, _, _, _, _⟩ := ht
  refine ⟨lt_of_next hne e.2 (Nat.le_refl _), ?_⟩
  unfold read
  rw [dif_neg hne]
  simp only [step, hk]
  exact bind_eq_ok.mpr ⟨_, hq, if_neg hb⟩

theorem readsTo_generic {f : e.1.After} (hk : c.kind = .ident) (ht : c.token.text ∉ keywords)
    (hq : c.next.readQualified s c.token.text = .ok (pkg, name, e)) (hb : e.1.kind = .lbrack)
    (h : e.1.skipBalanced s .lbrack .rbrack = .ok f) :
    ReadsTo s c (.generic (TypeExpr.ref pkg name).render
      (s.collapsed c.token.start f.1.lastStop)) f.1 := by
  have hne := ne_eof_of_kind hk (by decide)
  simp only [keywords, List.mem_cons, List.not_mem_nil, or_false, not_or] at ht
  obtain ⟨_, _, _, _, _⟩ := ht
  refine ⟨lt_of_next hne (Nat.le_trans (Nat.le_of_lt f.2) e.2) (Nat.le_refl _), ?_⟩
  unfold read
  rw [dif_neg hne]
  simp only [step, hk]
  exact bind_eq_ok.mpr ⟨_, hq, (if_pos hb).trans (bind_eq_ok.mpr ⟨_, h, rfl⟩)⟩

end named

theorem readResult_list {d : c.After} (hk : c.kind = .lparen)
    (h : c.skipBalanced s .lparen .rparen = .ok d) : readResult s c = .ok d.toFrom := by
  unfold readResult
  rw [hk]
  exact bind_eq_ok.mpr ⟨_, h, rfl⟩

theorem readResult_type (hk : c.kind ∈ [TokenKind.ident, .star, .lbrack, .arrow])
    (h : ReadsTo s c elem d) : ∃ hle, readResult s c = .ok ⟨d, hle⟩ := by
  obtain ⟨hlt, h⟩ := h
  refine ⟨Nat.le_of_lt hlt, ?_⟩
  unfold readResult
  simp only [List.mem_cons, List.not_mem_nil, or_false] at hk
  rcases hk with hk | hk | hk | hk <;> rw [hk] <;> exact bind_eq_ok.mpr ⟨_, h, rfl⟩

theorem readResult_none (hk : c.kind ∉ [TokenKind.lparen, .ident, .star, .lbrack, .arrow]) :
    readResult s c = .ok c.here := by
  simp only [List.mem_cons, List.not_mem_nil, or_false, not_or] at hk
  obtain ⟨_, _, _, _, _⟩ := hk
  unfold readResult
  split
  · contradiction
  · contradiction
  · contradiction
  · contradiction
  · contradiction
  · rfl

/-- The body of a struct is read at a cursor, up to another one. -/
def ReadsBody (s : SourceText) (keyword : Nat) (done : PartialBody) (c : Cursor)
    (body : StructExpr) (d : Cursor) : Prop :=
  ∃ h, readBody s keyword done c = .ok (body, ⟨d, h⟩)

/-- One field is read at a cursor, up to the end of its line. -/
def ReadsField (s : SourceText) (c : Cursor) (field : FieldDecl) (d : Cursor) : Prop :=
  ∃ h, readField s c = .ok (field, ⟨d, h⟩)

section body

variable {keyword : Nat} {done : PartialBody}

theorem readsBody_skip (hk : c.kind = .lineBreak ∨ c.kind = .semicolon)
    (h : ReadsBody s keyword done c.next body d) : ReadsBody s keyword done c body d := by
  obtain ⟨hlt, h⟩ := h
  have hne : c.kind ≠ .eof := by rcases hk with hk | hk <;> rw [hk] <;> decide
  refine ⟨lt_of_next hne (Nat.le_of_lt hlt) (Nat.le_refl _), ?_⟩
  unfold readBody
  rw [dif_neg hne]
  rcases hk with hk | hk
  · simp only [step, hk]
    exact bind_eq_ok.mpr ⟨_, h, rfl⟩
  · simp only [step, hk]
    exact bind_eq_ok.mpr ⟨_, h, rfl⟩

theorem readsBody_comment (hk : c.kind = .comment)
    (h : ReadsBody s keyword (keep s keyword done c) c.next body d) :
    ReadsBody s keyword done c body d := by
  obtain ⟨hlt, h⟩ := h
  have hne := ne_eof_of_kind hk (by decide)
  refine ⟨lt_of_next hne (Nat.le_of_lt hlt) (Nat.le_refl _), ?_⟩
  unfold readBody
  rw [dif_neg hne]
  simp only [step, hk]
  exact bind_eq_ok.mpr ⟨_, h, rfl⟩

theorem readsBody_close (hk : c.kind = .rbrace) :
    ReadsBody s keyword done c (finish s keyword done c) c.next := by
  have hne := ne_eof_of_kind hk (by decide)
  refine ⟨next_lt (ahead_ne_nil_of_kind hne), ?_⟩
  unfold readBody
  rw [dif_neg hne]
  simp only [step, hk]
  rfl

theorem readsBody_field {field : FieldDecl} (hk : c.kind = .star ∨ c.kind = .ident)
    (hf : ReadsField s c field e) (h : ReadsBody s keyword (add s keyword done c field) e body d) :
    ReadsBody s keyword done c body d := by
  obtain ⟨hlt, hf⟩ := hf
  obtain ⟨hlt', h⟩ := h
  have hne : c.kind ≠ .eof := by rcases hk with hk | hk <;> rw [hk] <;> decide
  refine ⟨Nat.lt_trans hlt' hlt, ?_⟩
  unfold readBody
  rw [dif_neg hne]
  rcases hk with hk | hk
  · simp only [hk]
    exact bind_eq_ok.mpr ⟨_, hf, bind_eq_ok.mpr ⟨_, h, rfl⟩⟩
  · simp only [hk]
    exact bind_eq_ok.mpr ⟨_, hf, bind_eq_ok.mpr ⟨_, h, rfl⟩⟩

end body

theorem readsField {names : List String} {typed : c.From} {g : Cursor}
    (hk : c.kind = .star ∨ c.kind = .ident) (hn : c.readFieldNames s = .ok (names, typed))
    (h : ReadsTo s typed.1 ty e) (hg : e.readTag.2.1.skipComments.1 = g)
    (hend : g.kind = .lineBreak ∨ g.kind = .semicolon ∨ g.kind = .rbrace) :
    ReadsField s c (readAs s c names typed.1 ty e) g := by
  obtain ⟨hlt, h⟩ := h
  subst hg
  have hle := Nat.le_trans e.readTag.2.1.skipComments.2 e.readTag.2.2
  refine ⟨Nat.lt_of_le_of_lt hle (Nat.lt_of_lt_of_le hlt typed.2), ?_⟩
  unfold readField
  rw [if_neg (by rcases hk with hk | hk <;> simp [hk])]
  exact bind_eq_ok.mpr ⟨_, hn, bind_eq_ok.mpr ⟨_, h, if_pos hend⟩⟩

end TypeExpr

namespace Lexeme

open Cursor TypeExpr

variable {s : SourceText}

mutual

/-- A type is read, and leaves what stands behind it. -/
theorem Types.reads {name : Option String} (s : SourceText) : {ls rest : List Lexeme} →
    Types name ls rest → (c : Cursor) → c.lexemes = ls →
    ∃ ty d, ReadsTo s c ty d ∧ d.lexemes = rest ∧ ty.embeddedName? = name
  | _, _, .pointer h, c, hc => by
      obtain ⟨hk, -, hn⟩ := lexemes_inv hc (by decide)
      obtain ⟨ty, d, hr, hd, hname⟩ := h.reads s c.next hn
      exact ⟨_, d, readsTo_star hk hr, hd, hname⟩
  | _, _, .paren h, c, hc => by
      obtain ⟨hk, -, hn⟩ := lexemes_inv hc (by decide)
      obtain ⟨ty, d, hr, hd, hname⟩ := h.reads s c.next hn
      obtain ⟨hk', -, hn'⟩ := lexemes_inv hd (by decide)
      exact ⟨ty, d.next, readsTo_lparen hk hr hk', hn', hname⟩
  | _, _, .slice h, c, hc => by
      obtain ⟨hk, -, hn⟩ := lexemes_inv hc (by decide)
      obtain ⟨hk', -, hn'⟩ := lexemes_inv hn (by decide)
      obtain ⟨ty, d, hr, hd, -⟩ := h.reads s c.next.next hn'
      exact ⟨_, d, readsTo_slice hk hk' hr, hd, rfl⟩
  | _, _, @Types.array x y _ inner _ _ hne hi hl h, c, hc => by
      obtain ⟨hk, -, hn⟩ := lexemes_inv hc (by decide)
      obtain ⟨us, close, hlen, hus, hclose⟩ := readLength_of_inside (s := s) hi hn
      obtain ⟨len, ha⟩ := arrayLen_of_isLength (s := s) (hus ▸ hl)
      obtain ⟨hk', -, hn'⟩ := lexemes_inv hclose (by decide)
      obtain ⟨ty, d, hr, hd, -⟩ := h.reads s close.1.next hn'
      refine ⟨_, d, readsTo_array hk ?_ hlen ha hr, hd, rfl⟩
      -- a bracket would close the length at once
      intro hb
      cases inner with
      | nil => exact hne rfl
      | cons l inner =>
          rw [kind_eq, hn] at hb
          have hb : l.kind = .rbrack := hb
          unfold Inside at hi
          rw [hb] at hi
          exact hi.1 rfl
  | _, _, .receive h, c, hc => by
      obtain ⟨hk, -, hn⟩ := lexemes_inv hc (by decide)
      obtain ⟨hk', ht, hn'⟩ := lexemes_inv hn (by decide)
      obtain ⟨ty, d, hr, hd, -⟩ := h.reads s c.next.next hn'
      exact ⟨_, d, readsTo_receive hk hk' ht hr, hd, rfl⟩
  | _, _, .struct h, c, hc => by
      obtain ⟨hk, ht, hn⟩ := lexemes_inv hc (by decide)
      obtain ⟨hk', -, hn'⟩ := lexemes_inv hn (by decide)
      obtain ⟨body, d, hr, hd⟩ := h.reads s c.token.start {} c.next.next hn'
      exact ⟨_, d, readsTo_struct hk ht hk' hr, hd, rfl⟩
  | _, _, .interface h, c, hc => by
      obtain ⟨hk, ht, hn⟩ := lexemes_inv hc (by decide)
      rw [← hn] at h
      obtain ⟨d, hr, hd⟩ := skipBalanced_of_balanced (s := s) (by decide) h
      exact ⟨_, d.1, readsTo_interface hk ht hr, hd, rfl⟩
  | _, _, .map hkey hvalue, c, hc => by
      obtain ⟨hk, ht, hn⟩ := lexemes_inv hc (by decide)
      obtain ⟨hk', -, hn'⟩ := lexemes_inv hn (by decide)
      obtain ⟨key, d, hr, hd, -⟩ := hkey.reads s c.next.next hn'
      obtain ⟨hk'', -, hn''⟩ := lexemes_inv hd (by decide)
      obtain ⟨value, e, hr', he, -⟩ := hvalue.reads s d.next hn''
      exact ⟨_, e, readsTo_map hk ht hk' hr hk'' hr', he, rfl⟩
  | _, _, .send h, c, hc => by
      obtain ⟨hk, ht, hn⟩ := lexemes_inv hc (by decide)
      obtain ⟨hk', -, hn'⟩ := lexemes_inv hn (by decide)
      obtain ⟨ty, d, hr, hd, -⟩ := h.reads s c.next.next hn'
      exact ⟨_, d, readsTo_send hk ht hk' hr, hd, rfl⟩
  | _, _, .chan ha h, c, hc => by
      obtain ⟨hk, ht, hn⟩ := lexemes_inv hc (by decide)
      obtain ⟨ty, d, hr, hd, -⟩ := h.reads s c.next hn
      exact ⟨_, d, readsTo_chan hk ht (by rwa [kind_eq, hn]) hr, hd, rfl⟩
  | _, _, .func h hres, c, hc => by
      obtain ⟨hk, ht, hn⟩ := lexemes_inv hc (by decide)
      rw [← hn] at h
      obtain ⟨d, hr, hd⟩ := skipBalanced_of_balanced (s := s) (by decide) h
      obtain ⟨e, hr', he⟩ := hres.reads s d.1 hd
      exact ⟨_, e.1, readsTo_func hk ht hr hr', he, rfl⟩
  | _, _, .ref hf h hb, c, hc => by
      obtain ⟨hk, ht, hn⟩ := lexemes_inv hc (by decide)
      rw [← hn, ← ht] at h
      obtain ⟨d, hr, hd⟩ := readQualified_of_qualified (s := s) h
      exact ⟨_, d.1, readsTo_ref hk (ht ▸ hf) hr (by rwa [kind_eq, hd]), hd, rfl⟩
  | _, _, .generic hf h hb, c, hc => by
      obtain ⟨hk, ht, hn⟩ := lexemes_inv hc (by decide)
      rw [← hn, ← ht] at h
      obtain ⟨d, hr, hd⟩ := readQualified_of_qualified (s := s) h
      have hbrack : d.1.kind = .lbrack := by
        obtain ⟨l, inner, hl, hk, -⟩ := hb
        rw [kind_eq, hd, hl]
        exact hk
      rw [← hd] at hb
      obtain ⟨e, hr', he⟩ := skipBalanced_of_balanced (s := s) (by decide) hb
      exact ⟨_, e.1, readsTo_generic hk (ht ▸ hf) hr hbrack hr', he, rfl⟩

theorem Result.reads (s : SourceText) : {ls rest : List Lexeme} → Result ls rest →
    (c : Cursor) → c.lexemes = ls → ∃ d : c.From, readResult s c = .ok d ∧ d.1.lexemes = rest
  | _, _, .list h, c, hc => by
      have hk : c.kind = .lparen := by
        obtain ⟨l, inner, rfl, hk, -⟩ := h
        rw [kind_eq, hc]
        exact hk
      rw [← hc] at h
      obtain ⟨d, hr, hd⟩ := skipBalanced_of_balanced (s := s) (by decide) h
      exact ⟨d.toFrom, readResult_list hk hr, hd⟩
  | _, _, .type hk h, c, hc => by
      obtain ⟨ty, d, hr, hd, -⟩ := h.reads s c hc
      obtain ⟨hle, hr⟩ := readResult_type (by rwa [kind_eq, hc]) hr
      exact ⟨_, hr, hd⟩
  | _, _, .none hk, c, hc => ⟨c.here, readResult_none (by rwa [kind_eq, hc]), hc⟩

theorem Body.reads (s : SourceText) (keyword : Nat) (done : PartialBody) :
    {ls rest : List Lexeme} → Body ls rest → (c : Cursor) → c.lexemes = ls →
    ∃ body d, ReadsBody s keyword done c body d ∧ d.lexemes = rest
  | _, _, @Body.skip l _ _ hk h, c, hc => by
      simp only [List.mem_cons, List.not_mem_nil, or_false] at hk
      have hne : l.kind ≠ .eof := by rcases hk with hk | hk | hk <;> rw [hk] <;> decide
      obtain ⟨hkind, -, hn⟩ := lexemes_inv hc hne
      rcases hk with hk | hk | hk
      · obtain ⟨body, d, hr, hd⟩ := h.reads s keyword done c.next hn
        exact ⟨body, d, readsBody_skip (.inl (hkind.trans hk)) hr, hd⟩
      · obtain ⟨body, d, hr, hd⟩ := h.reads s keyword done c.next hn
        exact ⟨body, d, readsBody_skip (.inr (hkind.trans hk)) hr, hd⟩
      · obtain ⟨body, d, hr, hd⟩ := h.reads s keyword _ c.next hn
        exact ⟨body, d, readsBody_comment (hkind.trans hk) hr, hd⟩
  | _, _, .close, c, hc => by
      obtain ⟨hk, -, hn⟩ := lexemes_inv hc (by decide)
      exact ⟨_, _, readsBody_close hk, hn⟩
  | _, _, .field hf h, c, hc => by
      obtain ⟨field, d, hk, hr, hd⟩ := hf.reads s c hc
      obtain ⟨body, e, hr', he⟩ := h.reads s keyword _ d hd
      exact ⟨body, e, readsBody_field hk hr hr', he⟩

theorem Declares.reads (s : SourceText) : {ls rest : List Lexeme} → Declares ls rest →
    (c : Cursor) → c.lexemes = ls →
    ∃ field d, (c.kind = .star ∨ c.kind = .ident) ∧ ReadsField s c field d ∧ d.lexemes = rest
  | _, _, .embedded he hk h ht hcomments hend, c, hc => by
      obtain ⟨ty, d, hr, hd, -⟩ := h.reads s c hc
      have hstart : c.kind = .star ∨ c.kind = .ident := by rwa [kind_eq, hc]
      have hne : c.kind ≠ .eof := by rcases hstart with hk | hk <;> rw [hk] <;> decide
      have hnames : c.readFieldNames s = .ok ([], c.here) := by
        rw [readFieldNames, if_pos ((startsEmbedded_iff hne).mpr (hc ▸ he))]
      have hrest := skipComments_lexemes hcomments (by rintro hk; rw [hk] at hend; simp at hend)
        (readTag_lexemes (hd ▸ ht))
      refine ⟨_, _, hstart, readsField hstart hnames hr rfl ?_, hrest⟩
      rw [kind_eq, hrest]
      simpa using hend
  | _, _, @Declares.named names _ _ _ _ _ _ he hn h ht hcomments hend, c, hc => by
      have hstart : c.kind = .ident := by
        rw [kind_eq, hc]
        cases hn <;> rfl
      rw [← hc] at hn
      obtain ⟨d₁, hr₁, hd₁⟩ := readNames_of_names (s := s) hn
      obtain ⟨ty, d, hr, hd, -⟩ := h.reads s d₁.1 hd₁
      have hne := ne_eof_of_kind hstart (by decide)
      have hnames : c.readFieldNames s = .ok (names, d₁.toFrom) := by
        rw [readFieldNames, if_neg fun h => he (hc ▸ (startsEmbedded_iff hne).mp h), hr₁]
        rfl
      have hrest := skipComments_lexemes hcomments (by rintro hk; rw [hk] at hend; simp at hend)
        (readTag_lexemes (hd ▸ ht))
      refine ⟨_, _, .inr hstart, readsField (.inr hstart) hnames hr rfl ?_, hrest⟩
      rw [kind_eq, hrest]
      simpa using hend

end

end Lexeme

end StructLayout
