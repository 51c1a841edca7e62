import StructLayout.Proofs.Sequence
import StructLayout.Proofs.Source.Grammar

/-!
Readers take tokens from those ahead and put them behind, and those they take are in the grammar.
-/

namespace StructLayout

namespace Cursor

open Lexeme

/-- The tokens ahead without their places. -/
def lexemes (c : Cursor) : List Lexeme :=
  c.ahead.map Token.lexeme

/-- The tokens between two places of a text. -/
structure Passes (c : Cursor) (seg : List Token) (d : Cursor) : Prop where
  ahead : c.ahead = seg ++ d.ahead
  before : d.before = seg.reverse ++ c.before
  stop : d.stop = c.stop

/-- Kinds of the last token of a type. -/
def closers : List TokenKind := [.ident, .rparen, .rbrack, .rbrace]

/-- A token that can end a type was read last. -/
def Settled (c : Cursor) : Prop :=
  ∃ t ts, c.before = t :: ts ∧ t.kind ∈ closers

variable {s : SourceText} {c d e : Cursor}

theorem Passes.refl (c : Cursor) : c.Passes [] c :=
  ⟨rfl, rfl, rfl⟩

theorem Passes.trans {xs ys : List Token} (h : c.Passes xs d) (h' : d.Passes ys e) :
    c.Passes (xs ++ ys) e where
  ahead := by rw [h.ahead, h'.ahead, List.append_assoc]
  before := by rw [h'.before, h.before, List.reverse_append, List.append_assoc]
  stop := h'.stop.trans h.stop

theorem Passes.lexemes {xs : List Token} (h : c.Passes xs d) :
    c.lexemes = xs.map Token.lexeme ++ d.lexemes := by
  rw [Cursor.lexemes, h.ahead, List.map_append, Cursor.lexemes]

theorem Passes.settled {xs : List Token} {t : Token} (h : c.Passes (xs ++ [t]) d)
    (hk : t.kind ∈ closers) : d.Settled :=
  ⟨t, xs.reverse ++ c.before, by rw [h.before]; simp, hk⟩

theorem Passes.settled_token {t : Token} (h : c.Passes [t] d) (hk : t.kind ∈ closers) :
    d.Settled :=
  ⟨t, c.before, h.before, hk⟩

theorem kind_eq (c : Cursor) : c.kind = headKind c.lexemes := by
  unfold kind token peek Cursor.lexemes headKind
  cases c.ahead <;> rfl

theorem passes_next (h : c.kind ≠ .eof) : c.Passes [c.token] c.next := by
  cases ha : c.ahead with
  | nil => exact absurd ha (ahead_ne_nil_of_kind h)
  | cons t ts =>
      have ht : c.token = t := by simp [token, peek, ha]
      have hn : c.next = { c with before := t :: c.before, ahead := ts } := by
        unfold next
        rw [ha]
      exact ⟨by rw [ha, ht, hn]; rfl, by rw [ht, hn]; rfl, by rw [hn]⟩

/-- The token ahead, when it is not the end. -/
theorem lexemes_cons (h : c.kind ≠ .eof) : c.lexemes = ⟨c.kind, c.token.text⟩ :: c.next.lexemes :=
  (passes_next h).lexemes

theorem expect_eq_ok {kind : TokenKind} {what : String} {t : Token} {d : c.After}
    (h : c.expect s kind what = .ok (t, d)) : c.Passes [t] d.1 ∧ t.kind = kind := by
  unfold expect at h
  split at h
  · cases h
  · rename_i he
    split at h
    · rename_i hk
      cases h
      exact ⟨passes_next he, hk⟩
    · cases h

theorem closeFrom_eq_some {opening closing : TokenKind} {depth : Nat} {before ts : List Token}
    {r : List Token × List Token} (h : closeFrom opening closing depth before ts = some r) :
    ∃ seg last, ts = seg ++ last :: r.2 ∧ r.1 = last :: (seg.reverse ++ before) ∧
      last.kind = closing ∧
      Closes opening closing depth (ts.map Token.lexeme) (r.2.map Token.lexeme) := by
  fun_induction closeFrom opening closing depth before ts with
  | case1 => cases h
  | case2 depth before t ts ho ih =>
      obtain ⟨seg, last, rfl, hr, hl, hc⟩ := ih h
      exact ⟨t :: seg, last, rfl, by simp [hr], hl, .opening ho hc⟩
  | case3 before t ts ho hk =>
      cases h
      exact ⟨[], t, rfl, rfl, hk, .last ho hk⟩
  | case4 before t ts ho hk depth ih =>
      obtain ⟨seg, last, rfl, hr, hl, hc⟩ := ih h
      exact ⟨t :: seg, last, rfl, by simp [hr], hl, .closing ho hk hc⟩
  | case5 depth before t ts ho hk ih =>
      obtain ⟨seg, last, rfl, hr, hl, hc⟩ := ih h
      exact ⟨t :: seg, last, rfl, by simp [hr], hl, .other ho hk hc⟩

theorem skipBalanced_eq_ok {opening closing : TokenKind} {d : c.After}
    (h : c.skipBalanced s opening closing = .ok d) :
    ∃ seg last, c.Passes (seg ++ [last]) d.1 ∧ last.kind = closing ∧
      Balanced opening closing c.lexemes d.1.lexemes := by
  obtain ⟨⟨t, inner⟩, he, h⟩ := bind_eq_ok.mp h
  obtain ⟨hp, ht⟩ := expect_eq_ok he
  dsimp only at h
  split at h
  · cases h
  · rename_i before ahead hc
    cases h
    obtain ⟨seg, last, ha, hb, hl, hcl⟩ := closeFrom_eq_some hc
    refine ⟨t :: seg, last, ⟨?_, ?_, rfl⟩, hl, ⟨t.lexeme, _, hp.lexemes, ht, hcl⟩⟩
    · show c.ahead = t :: seg ++ [last] ++ ahead
      rw [hp.ahead, ha]
      simp
    · show before = (t :: seg ++ [last]).reverse ++ c.before
      rw [show before = _ from hb, hp.before]
      simp

theorem lengthTokens_eq_some {depth : Nat} {ts : List Token} {r : List Token × List Token}
    (h : lengthTokens depth ts = some r) :
    ts = r.1 ++ r.2 ∧ Inside depth (r.1.map Token.lexeme) ∧
      headKind (r.2.map Token.lexeme) = .rbrack := by
  induction ts generalizing depth r with
  | nil => cases h
  | cons t ts ih =>
      have more {d : Nat} (hd : (lengthTokens d ts).map (fun r => (t :: r.1, r.2)) = some r)
          (hin : ∀ ls, Inside d ls → Inside depth (t.lexeme :: ls)) :
          t :: ts = r.1 ++ r.2 ∧ Inside depth (r.1.map Token.lexeme) ∧
            headKind (r.2.map Token.lexeme) = .rbrack := by
        obtain ⟨q, hq, rfl⟩ := Option.map_eq_some_iff.mp hd
        obtain ⟨rfl, hi, hk⟩ := ih hq
        exact ⟨rfl, hin _ hi, hk⟩
      unfold lengthTokens at h
      dsimp only at h
      split at h
      · rename_i hk
        exact more h fun ls hi => by simpa [Inside, Token.lexeme, hk] using hi
      · rename_i hk
        exact more h fun ls hi => by simpa [Inside, Token.lexeme, hk] using hi
      · rename_i hk
        exact more h fun ls hi => by simpa [Inside, Token.lexeme, hk] using hi
      · rename_i hk
        split at h
        · rename_i hd
          cases h
          exact ⟨rfl, hd, hk⟩
        · rename_i hd
          exact more h fun ls hi => by simpa [Inside, Token.lexeme, hk, hd] using hi
      · rename_i h₁ h₂ h₃ h₄
        refine more h fun ls hi => ?_
        unfold Inside
        split <;> first | contradiction | exact hi

theorem readLength_eq_ok {inner : List Token} {d : c.From}
    (h : c.readLength s = .ok (inner, d)) :
    c.Passes inner d.1 ∧ Inside 0 (inner.map Token.lexeme) ∧ d.1.kind = .rbrack := by
  unfold readLength at h
  split at h
  · cases h
  · rename_i inner ahead hl
    cases h
    obtain ⟨ha, hi, hk⟩ := lengthTokens_eq_some hl
    exact ⟨⟨ha, rfl, rfl⟩, hi, (kind_eq _).trans hk⟩

theorem passes_skip (kinds : List TokenKind) (c : Cursor) :
    ∃ seg, seg = (c.ahead.takeWhile fun t => kinds.contains t.kind) ∧
      c.Passes seg (c.skip kinds) ∧ ∀ t ∈ seg, t.kind ∈ kinds := by
  refine ⟨_, rfl, ⟨(List.takeWhile_append_dropWhile
    (p := fun t : Token => kinds.contains t.kind)).symm, rfl, rfl⟩, fun t ht => ?_⟩
  simpa using List.all_eq_true.mp List.all_takeWhile t ht

theorem passes_run (kind : TokenKind) (c : Cursor) :
    c.Passes (c.run kind) (c.skip [kind]) ∧ ∀ l ∈ (c.run kind).map Token.lexeme, l.kind = kind := by
  obtain ⟨seg, hseg, hp, hk⟩ := passes_skip [kind] c
  have hrun : c.run kind = seg := by
    rw [hseg, run]
    congr
    funext t
    rw [List.contains_cons, List.contains_nil, Bool.or_false]
  rw [hrun]
  refine ⟨hp, fun l hl => ?_⟩
  obtain ⟨t, ht, rfl⟩ := List.mem_map.mp hl
  exact List.mem_singleton.mp (hk t ht)

theorem readNames_eq_ok {names : List String} {d : c.After} (h : c.readNames s = .ok (names, d)) :
    ∃ seg, c.Passes seg d.1 ∧ Names names c.lexemes d.1.lexemes := by
  obtain ⟨n, hn⟩ : ∃ n, c.ahead.length < n := ⟨_, Nat.lt_succ_self _⟩
  induction n generalizing c names d with
  | zero => exact absurd hn (Nat.not_lt_zero _)
  | succ n ih =>
      unfold readNames at h
      obtain ⟨⟨t, d, hd⟩, he, h⟩ := bind_eq_ok.mp h
      obtain ⟨hp, ht⟩ := expect_eq_ok he
      have hl : c.lexemes = ⟨.ident, t.text⟩ :: d.lexemes := by
        rw [hp.lexemes, ← ht]
        rfl
      dsimp only at h
      split at h
      · rename_i hk
        have hne : d.kind ≠ .eof := by rw [hk]; decide
        obtain ⟨hb, hkinds⟩ := passes_run .lineBreak d.next
        obtain ⟨⟨names, e, hlt⟩, hr, h⟩ := bind_eq_ok.mp h
        cases h
        have hlen : (d.next.skip [.lineBreak]).ahead.length < n := by
          have := Nat.le_trans (skip_le [.lineBreak] d.next) d.next_le
          omega
        obtain ⟨seg, hs, hnames⟩ := ih hr hlen
        refine ⟨_, ((hp.trans (passes_next hne)).trans hb).trans hs, ?_⟩
        rw [hl, lexemes_cons hne, hb.lexemes, hk]
        exact .more hkinds hnames
      · rename_i hk
        cases h
        rw [hl]
        exact ⟨_, hp, .one (by rwa [← kind_eq])⟩

theorem peek_one_kind (h : c.kind ≠ .eof) : (c.peek 1).kind = headKind c.lexemes.tail := by
  unfold peek Cursor.lexemes headKind
  cases ha : c.ahead with
  | nil => exact absurd ha (ahead_ne_nil_of_kind h)
  | cons t ts => cases ts <;> rfl

theorem startsEmbedded_iff (h : c.kind ≠ .eof) :
    c.startsEmbedded = true ↔ StartsEmbedded c.lexemes := by
  rw [startsEmbedded, peek_one_kind h, Bool.or_eq_true, beq_iff_eq, List.contains_iff_mem, kind_eq]
  rfl

theorem readFieldNames_eq_ok {names : List String} {d : c.From} (hk : c.kind ≠ .eof)
    (h : c.readFieldNames s = .ok (names, d)) :
    ∃ seg, c.Passes seg d.1 ∧
      (StartsEmbedded c.lexemes ∧ d.1.lexemes = c.lexemes ∧ names = [] ∨
        ¬StartsEmbedded c.lexemes ∧ Names names c.lexemes d.1.lexemes) := by
  unfold readFieldNames at h
  split at h
  · rename_i he
    cases h
    exact ⟨[], .refl c, .inl ⟨(startsEmbedded_iff hk).mp he, rfl, rfl⟩⟩
  · rename_i he
    cases hr : c.readNames s with
    | error e => rw [hr] at h; cases h
    | ok r =>
        rw [hr] at h
        cases h
        obtain ⟨seg, hs, hn⟩ := readNames_eq_ok hr
        exact ⟨seg, hs, .inr ⟨fun hb => he ((startsEmbedded_iff hk).mpr hb), hn⟩⟩

theorem readQualified_eq_ok {first name : String} {pkg : Option String} {d : c.From}
    (h : c.readQualified s first = .ok (pkg, name, d)) :
    ∃ seg, c.Passes seg d.1 ∧ (seg = [] ∨ ∃ init last, seg = init ++ [last] ∧ last.kind = .ident) ∧
      Qualified pkg name (⟨.ident, first⟩ :: c.lexemes) d.1.lexemes := by
  unfold readQualified at h
  split at h
  · rename_i hk
    have hne : c.kind ≠ .eof := by rw [hk]; decide
    obtain ⟨⟨t, e, he⟩, hx, h⟩ := bind_eq_ok.mp h
    cases h
    obtain ⟨hp, ht⟩ := expect_eq_ok hx
    refine ⟨_, (passes_next hne).trans hp, .inr ⟨_, t, rfl, ht⟩, ?_⟩
    rw [lexemes_cons hne, hp.lexemes, hk]
    have : t.lexeme = ⟨.ident, t.text⟩ := by rw [← ht]; rfl
    rw [List.map_singleton, this]
    exact .dotted
  · rename_i hk
    cases h
    exact ⟨[], .refl c, .inl rfl, .plain (by rwa [← kind_eq])⟩

theorem readTag_spec (c : Cursor) :
    ∃ seg, c.Passes seg c.readTag.2.1 ∧ Tag c.lexemes c.readTag.2.1.lexemes := by
  unfold readTag
  split
  · rename_i hk
    have hne : c.kind ≠ .eof := by rcases hk with hk | hk <;> rw [hk] <;> decide
    refine ⟨_, passes_next hne, ?_⟩
    show Tag c.lexemes c.next.lexemes
    rw [lexemes_cons hne]
    exact .some hk
  · rename_i hk
    rw [kind_eq, not_or] at hk
    exact ⟨[], .refl c, .none hk.1 hk.2⟩

theorem skipComments_spec (c : Cursor) :
    c.Passes (c.run .comment) c.skipComments.1 ∧
      ∀ l ∈ (c.run .comment).map Token.lexeme, l.kind = .comment :=
  passes_run .comment c

end Cursor

namespace TypeExpr

open Lexeme

variable {s : SourceText}

/-- The tokens between two cursors are a type. -/
def Reads (c : Cursor) (ty : TypeExpr) (d : Cursor) : Prop :=
  ∃ seg, c.Passes seg d ∧ Types ty.embeddedName? c.lexemes d.lexemes ∧ d.Settled

theorem isLength_of_arrayLen {inner : List Token} {len : ArrayLen}
    (h : Cursor.arrayLen s inner = some len) : IsLength (inner.map Token.lexeme) := by
  match inner with
  | [] => trivial
  | [t] =>
      intro hk
      have hk : t.kind = .int := hk
      simp only [Cursor.arrayLen, List.isEmpty_nil, hk, beq_self_eq_true, Bool.and_self, if_true,
        Option.map_eq_some_iff] at h
      obtain ⟨n, hn, -⟩ := h
      exact Option.isSome_iff_exists.mpr ⟨n, hn⟩
  | _ :: _ :: _ => trivial

/-- The spelling of an interface type whose body stands between two places. -/
def interfaceText (s : SourceText) (d e : Cursor) : String :=
  let body := s.collapsed d.token.start e.lastStop
  if body == "\x7b\x7d" || body == "\x7b \x7d" then "interface\x7b\x7d" else "interface " ++ body

/-- The parts that a type is read from, by its first token. -/
inductive Parts (s : SourceText) (c : Cursor) : TypeExpr → Cursor → Prop
  | star {elem : TypeExpr} {d : c.next.After} (hk : c.kind = .star)
      (h : read s c.next = .ok (elem, d)) : Parts s c (.pointer elem) d.1
  | paren {inner : TypeExpr} {d : c.next.After} {t : Token} {e : d.1.After} (hk : c.kind = .lparen)
      (h : read s c.next = .ok (inner, d)) (hx : d.1.expect s .rparen ")" = .ok (t, e)) :
      Parts s c inner e.1
  | slice {elem : TypeExpr} {d : c.next.next.After} (hk : c.kind = .lbrack)
      (hb : c.next.kind = .rbrack) (h : read s c.next.next = .ok (elem, d)) :
      Parts s c (.slice elem) d.1
  | array {inner : List Token} {len : ArrayLen} {elem : TypeExpr} {close : c.next.From}
      {d : close.1.next.After} (hk : c.kind = .lbrack) (hb : c.next.kind ≠ .rbrack)
      (hl : c.next.readLength s = .ok (inner, close)) (ha : Cursor.arrayLen s inner = some len)
      (h : read s close.1.next = .ok (elem, d)) : Parts s c (.array len elem) d.1
  | receive {elem : TypeExpr} {d : c.next.next.After} (hk : c.kind = .arrow)
      (hc : c.next.kind = .ident ∧ c.next.token.text = "chan")
      (h : read s c.next.next = .ok (elem, d)) : Parts s c (.chan ("<-chan " ++ elem.render)) d.1
  | struct {body : StructExpr} {t : Token} {e : c.next.After} {d : e.1.After} (hk : c.kind = .ident)
      (ht : c.token.text = "struct") (hx : c.next.expect s .lbrace "\x7b" = .ok (t, e))
      (h : readBody s c.token.start {} e.1 = .ok (body, d)) : Parts s c (.struct body) d.1
  | interface {d : c.next.After} (hk : c.kind = .ident) (ht : c.token.text = "interface")
      (h : c.next.skipBalanced s .lbrace .rbrace = .ok d) :
      Parts s c (.interface (interfaceText s c.next d.1)) d.1
  | map {key value : TypeExpr} {t u : Token} {e : c.next.After} {f : e.1.After} {g : f.1.After}
      {d : g.1.After} (hk : c.kind = .ident) (ht : c.token.text = "map")
      (hx : c.next.expect s .lbrack "[" = .ok (t, e)) (hkey : read s e.1 = .ok (key, f))
      (hx' : f.1.expect s .rbrack "]" = .ok (u, g)) (h : read s g.1 = .ok (value, d)) :
      Parts s c (.map key value) d.1
  | send {elem : TypeExpr} {d : c.next.next.After} (hk : c.kind = .ident)
      (ht : c.token.text = "chan") (ha : c.next.kind = .arrow)
      (h : read s c.next.next = .ok (elem, d)) : Parts s c (.chan ("chan<- " ++ elem.render)) d.1
  | chan {elem : TypeExpr} {d : c.next.After} (hk : c.kind = .ident)
      (ht : c.token.text = "chan") (ha : c.next.kind ≠ .arrow)
      (h : read s c.next = .ok (elem, d)) : Parts s c (.chan ("chan " ++ elem.render)) d.1
  | func {e : c.next.After} {d : e.1.From} (hk : c.kind = .ident)
      (ht : c.token.text = "func") (hb : c.next.skipBalanced s .lparen .rparen = .ok e)
      (h : readResult s e.1 = .ok d) :
      Parts s c (.func (s.collapsed c.token.start d.1.lastStop)) d.1
  | ref {pkg : Option String} {name : String} {d : c.next.From} (hk : c.kind = .ident)
      (ht : c.token.text ∉ keywords)
      (hq : c.next.readQualified s c.token.text = .ok (pkg, name, d)) (hb : d.1.kind ≠ .lbrack) :
      Parts s c (.ref pkg name) d.1
  | generic {pkg : Option String} {name : String} {e : c.next.From} {d : e.1.After}
      (hk : c.kind = .ident) (ht : c.token.text ∉ keywords)
      (hq : c.next.readQualified s c.token.text = .ok (pkg, name, e))
      (h : e.1.skipBalanced s .lbrack .rbrack = .ok d) :
      Parts s c (.generic (TypeExpr.ref pkg name).render
        (s.collapsed c.token.start d.1.lastStop)) d.1

theorem parts_of_read {c : Cursor} {ty : TypeExpr} {d : c.After} (h : read s c = .ok (ty, d)) :
    Parts s c ty d.1 := by
  unfold read at h
  split at h
  · cases h
  · rename_i hne
    have hstep : (c.step hne).1 = c.next := rfl
    generalize c.step hne = behind at h hstep
    obtain ⟨next, hlt⟩ := behind
    subst hstep
    dsimp only at h
    split at h
    · rename_i hk
      obtain ⟨⟨elem, e⟩, hr, h⟩ := bind_eq_ok.mp h
      cases h
      exact .star hk hr
    · rename_i hk
      obtain ⟨⟨inner, e⟩, hr, h⟩ := bind_eq_ok.mp h
      obtain ⟨⟨t, f⟩, hx, h⟩ := bind_eq_ok.mp h
      cases h
      exact .paren hk hr hx
    · rename_i hk
      by_cases hbrack : c.next.kind = .rbrack
      · rw [if_pos hbrack] at h
        obtain ⟨⟨elem, e⟩, hr, h⟩ := bind_eq_ok.mp h
        cases h
        exact .slice hk hbrack hr
      · rw [if_neg hbrack] at h
        obtain ⟨⟨inner, close⟩, hi, h⟩ := bind_eq_ok.mp h
        dsimp only at h
        split at h
        · cases h
        · rename_i len hlength
          obtain ⟨⟨elem, e⟩, hr, h⟩ := bind_eq_ok.mp h
          cases h
          exact .array hk hbrack hi hlength hr
    · rename_i hk
      by_cases hchan : c.next.kind = .ident ∧ c.next.token.text = "chan"
      · rw [if_pos hchan] at h
        obtain ⟨⟨elem, e⟩, hr, h⟩ := bind_eq_ok.mp h
        cases h
        exact .receive hk hchan hr
      · rw [if_neg hchan] at h
        cases h
    · rename_i hk
      split at h
      · rename_i htext
        obtain ⟨⟨t, e⟩, hx, h⟩ := bind_eq_ok.mp h
        obtain ⟨⟨body, f⟩, hr, h⟩ := bind_eq_ok.mp h
        cases h
        exact .struct hk htext hx hr
      · rename_i htext
        obtain ⟨e, hb, h⟩ := bind_eq_ok.mp h
        cases h
        exact .interface hk htext hb
      · rename_i htext
        obtain ⟨⟨t, e⟩, hx, h⟩ := bind_eq_ok.mp h
        obtain ⟨⟨key, f⟩, hkey, h⟩ := bind_eq_ok.mp h
        obtain ⟨⟨u, g⟩, hx', h⟩ := bind_eq_ok.mp h
        obtain ⟨⟨value, i⟩, hvalue, h⟩ := bind_eq_ok.mp h
        cases h
        exact .map hk htext hx hkey hx' hvalue
      · rename_i htext
        by_cases harrow : c.next.kind = .arrow
        · rw [if_pos harrow] at h
          obtain ⟨⟨elem, e⟩, hr, h⟩ := bind_eq_ok.mp h
          cases h
          exact .send hk htext harrow hr
        · rw [if_neg harrow] at h
          obtain ⟨⟨elem, e⟩, hr, h⟩ := bind_eq_ok.mp h
          cases h
          exact .chan hk htext harrow hr
      · rename_i htext
        obtain ⟨e, hb, h⟩ := bind_eq_ok.mp h
        obtain ⟨f, hr, h⟩ := bind_eq_ok.mp h
        cases h
        exact .func hk htext hb hr
      · rename_i h₁ h₂ h₃ h₄ h₅
        have hword : c.token.text ∉ keywords := by
          simpa [keywords] using ⟨h₁, h₂, h₃, h₄, h₅⟩
        obtain ⟨⟨pkg, name, e⟩, hq, h⟩ := bind_eq_ok.mp h
        split at h
        · obtain ⟨f, hb, h⟩ := bind_eq_ok.mp h
          cases h
          exact .generic hk hword hq hb
        · rename_i hbrack
          cases h
          exact .ref hk hword hq hbrack
    · cases h

theorem read_sound_step {n : Nat} {c : Cursor}
    (hread : ∀ {c : Cursor} {ty : TypeExpr} {d : c.After}, c.ahead.length < n →
      read s c = .ok (ty, d) → Reads c ty d.1)
    (hresult : ∀ {c : Cursor} {d : c.From}, c.ahead.length < n → readResult s c = .ok d →
      ∃ seg, c.Passes seg d.1 ∧ Result c.lexemes d.1.lexemes ∧ (d.1 = c ∨ d.1.Settled))
    (hbody : ∀ {c : Cursor} {keyword : Nat} {done : PartialBody} {body : StructExpr} {d : c.After},
      c.ahead.length < n → readBody s keyword done c = .ok (body, d) →
      ∃ seg, c.Passes seg d.1 ∧ Body c.lexemes d.1.lexemes ∧ d.1.Settled)
    {ty : TypeExpr} {d : Cursor} (hc : c.ahead.length < n + 1) (h : Parts s c ty d) :
    Reads c ty d := by
  have start {kind : TokenKind} (hk : c.kind = kind) (he : kind ≠ .eof) :
      c.Passes [c.token] c.next ∧ c.lexemes = ⟨kind, c.token.text⟩ :: c.next.lexemes ∧
        c.next.ahead.length < n := by
    have hne : c.kind ≠ .eof := hk ▸ he
    refine ⟨Cursor.passes_next hne, by rw [Cursor.lexemes_cons hne, hk], ?_⟩
    exact Nat.lt_of_lt_of_le (c.step hne).2 (Nat.le_of_lt_succ hc)
  cases h with
  | star hk h =>
      obtain ⟨hfirst, hl, hlen⟩ := start hk (by decide)
      obtain ⟨seg, hp, ht, hs⟩ := hread hlen h
      refine ⟨_, hfirst.trans hp, ?_, hs⟩
      rw [hl]
      exact .pointer ht
  | paren hk h hx =>
      obtain ⟨hfirst, hl, hlen⟩ := start hk (by decide)
      obtain ⟨seg, hp, ht, -⟩ := hread hlen h
      obtain ⟨hclose, hkind⟩ := Cursor.expect_eq_ok hx
      refine ⟨_, (hfirst.trans hp).trans hclose, ?_, hclose.settled_token (by rw [hkind]; decide)⟩
      rw [hclose.lexemes, List.map_singleton, Token.lexeme, hkind] at ht
      rw [hl]
      exact .paren ht
  | slice hk hb h =>
      obtain ⟨hfirst, hl, hlen⟩ := start hk (by decide)
      have hne : c.next.kind ≠ .eof := by rw [hb]; decide
      obtain ⟨seg, hp, ht, hs⟩ := hread (Nat.lt_of_le_of_lt c.next.next_le hlen) h
      refine ⟨_, (hfirst.trans (Cursor.passes_next hne)).trans hp, ?_, hs⟩
      rw [hl, Cursor.lexemes_cons hne, hb]
      exact .slice ht
  | @array inner len elem close d hk hb hi ha h =>
      obtain ⟨hfirst, hl, hlen⟩ := start hk (by decide)
      obtain ⟨hp, hin, hkind⟩ := Cursor.readLength_eq_ok hi
      have hne : close.1.kind ≠ .eof := by rw [hkind]; decide
      have hle := Nat.le_trans close.1.next_le close.2
      obtain ⟨seg, hp', ht, hs⟩ := hread (Nat.lt_of_le_of_lt hle hlen) h
      refine ⟨_, ((hfirst.trans hp).trans (Cursor.passes_next hne)).trans hp', ?_, hs⟩
      rw [hl, hp.lexemes, Cursor.lexemes_cons hne, hkind]
      refine .array ?_ hin (isLength_of_arrayLen ha) ht
      rintro hnil
      have hl := hp.lexemes
      rw [hnil, List.nil_append] at hl
      exact hb (by rw [Cursor.kind_eq, hl, ← Cursor.kind_eq, hkind])
  | receive hk hchan h =>
      obtain ⟨hfirst, hl, hlen⟩ := start hk (by decide)
      have hne : c.next.kind ≠ .eof := by rw [hchan.1]; decide
      obtain ⟨seg, hp, ht, hs⟩ := hread (Nat.lt_of_le_of_lt c.next.next_le hlen) h
      refine ⟨_, (hfirst.trans (Cursor.passes_next hne)).trans hp, ?_, hs⟩
      rw [hl, Cursor.lexemes_cons hne, hchan.1, hchan.2]
      exact .receive ht
  | @struct body t e d hk htext hx h =>
      obtain ⟨hfirst, hl, hlen⟩ := start hk (by decide)
      obtain ⟨hopen, hkind⟩ := Cursor.expect_eq_ok hx
      obtain ⟨seg, hp, hb, hs⟩ := hbody (Nat.lt_trans e.2 hlen) h
      refine ⟨_, (hfirst.trans hopen).trans hp, ?_, hs⟩
      rw [hl, htext, hopen.lexemes, List.map_singleton, Token.lexeme, hkind]
      exact .struct hb
  | interface hk htext h =>
      obtain ⟨hfirst, hl, -⟩ := start hk (by decide)
      obtain ⟨seg, last, hp, hkind, hb⟩ := Cursor.skipBalanced_eq_ok h
      refine ⟨_, hfirst.trans hp, ?_, hp.settled (by rw [hkind]; decide)⟩
      rw [hl, htext]
      exact .interface hb
  | @map key value t u e f g d hk htext hx hkey hx' h =>
      obtain ⟨hfirst, hl, hlen⟩ := start hk (by decide)
      obtain ⟨hopen, hkind⟩ := Cursor.expect_eq_ok hx
      obtain ⟨hclose, hkind'⟩ := Cursor.expect_eq_ok hx'
      have hle : e.1.ahead.length < n := Nat.lt_trans e.2 hlen
      obtain ⟨seg, hp, ht, -⟩ := hread hle hkey
      obtain ⟨seg', hp', ht', hs⟩ := hread (Nat.lt_trans g.2 (Nat.lt_trans f.2 hle)) h
      refine ⟨_, (((hfirst.trans hopen).trans hp).trans hclose).trans hp', ?_, hs⟩
      rw [hclose.lexemes, List.map_singleton, Token.lexeme, hkind'] at ht
      rw [hl, htext, hopen.lexemes, List.map_singleton, Token.lexeme, hkind]
      exact .map ht ht'
  | send hk htext ha h =>
      obtain ⟨hfirst, hl, hlen⟩ := start hk (by decide)
      have hne : c.next.kind ≠ .eof := by rw [ha]; decide
      obtain ⟨seg, hp, ht, hs⟩ := hread (Nat.lt_of_le_of_lt c.next.next_le hlen) h
      refine ⟨_, (hfirst.trans (Cursor.passes_next hne)).trans hp, ?_, hs⟩
      rw [hl, htext, Cursor.lexemes_cons hne, ha]
      exact .send ht
  | chan hk htext ha h =>
      obtain ⟨hfirst, hl, hlen⟩ := start hk (by decide)
      obtain ⟨seg, hp, ht, hs⟩ := hread hlen h
      refine ⟨_, hfirst.trans hp, ?_, hs⟩
      rw [hl, htext]
      exact .chan (by rwa [← Cursor.kind_eq]) ht
  | @func e d hk htext hb h =>
      obtain ⟨hfirst, hl, hlen⟩ := start hk (by decide)
      obtain ⟨seg, last, hp, hkind, hb⟩ := Cursor.skipBalanced_eq_ok hb
      obtain ⟨seg', hp', hres, hs⟩ := hresult (Nat.lt_trans e.2 hlen) h
      refine ⟨_, (hfirst.trans hp).trans hp', ?_, ?_⟩
      · rw [hl, htext]
        exact .func hb hres
      · rcases hs with hs | hs
        · rw [hs]
          exact hp.settled (by rw [hkind]; decide)
        · exact hs
  | ref hk hword hq hb =>
      obtain ⟨hfirst, hl, -⟩ := start hk (by decide)
      obtain ⟨seg, hp, hlast, hqual⟩ := Cursor.readQualified_eq_ok hq
      refine ⟨_, hfirst.trans hp, ?_, ?_⟩
      · rw [hl]
        exact .ref hword hqual (by rwa [← Cursor.kind_eq])
      · rcases hlast with rfl | ⟨init, last, rfl, hkind⟩
        · have hkind : c.token.kind = .ident := hk
          exact Cursor.Passes.settled_token (hfirst.trans hp) (by rw [hkind]; decide)
        · exact hp.settled (by rw [hkind]; decide)
  | generic hk hword hq h =>
      obtain ⟨hfirst, hl, -⟩ := start hk (by decide)
      obtain ⟨seg, hp, -, hqual⟩ := Cursor.readQualified_eq_ok hq
      obtain ⟨seg', last, hp', hkind, hb⟩ := Cursor.skipBalanced_eq_ok h
      refine ⟨_, (hfirst.trans hp).trans hp', ?_, hp'.settled (by rw [hkind]; decide)⟩
      rw [hl]
      exact .generic hword hqual hb

theorem readResult_sound_step {n : Nat} {c : Cursor}
    (hread : ∀ {c : Cursor} {ty : TypeExpr} {d : c.After}, c.ahead.length < n →
      read s c = .ok (ty, d) → Reads c ty d.1)
    {d : c.From} (hc : c.ahead.length < n) (h : readResult s c = .ok d) :
    ∃ seg, c.Passes seg d.1 ∧ Result c.lexemes d.1.lexemes ∧ (d.1 = c ∨ d.1.Settled) := by
  have type (hk : headKind c.lexemes ∈ [TokenKind.ident, .star, .lbrack, .arrow])
      (h : (read s c >>= fun r => pure r.2.toFrom) = .ok d) :
      ∃ seg, c.Passes seg d.1 ∧ Result c.lexemes d.1.lexemes ∧ (d.1 = c ∨ d.1.Settled) := by
    obtain ⟨⟨ty, e⟩, hr, h⟩ := bind_eq_ok.mp h
    cases h
    obtain ⟨seg, hp, ht, hs⟩ := hread hc hr
    exact ⟨seg, hp, .type hk ht, .inr hs⟩
  unfold readResult at h
  split at h
  · obtain ⟨e, hb, h⟩ := bind_eq_ok.mp h
    cases h
    obtain ⟨seg, last, hp, hkind, hb⟩ := Cursor.skipBalanced_eq_ok hb
    exact ⟨_, hp, .list hb, .inr (hp.settled (by rw [hkind]; decide))⟩
  · rename_i hk
    exact type (by rw [← Cursor.kind_eq, hk]; decide) h
  · rename_i hk
    exact type (by rw [← Cursor.kind_eq, hk]; decide) h
  · rename_i hk
    exact type (by rw [← Cursor.kind_eq, hk]; decide) h
  · rename_i hk
    exact type (by rw [← Cursor.kind_eq, hk]; decide) h
  · rename_i h₁ h₂ h₃ h₄ h₅
    cases h
    refine ⟨[], .refl c, .none ?_, .inl rfl⟩
    rw [← Cursor.kind_eq]
    simpa using ⟨h₁, h₂, h₃, h₄, h₅⟩

/-- The field whose names were read up to a cursor, and its type up to another one. -/
def readAs (s : SourceText) (c : Cursor) (names : List String) (typed : Cursor) (ty : TypeExpr)
    (e : Cursor) : FieldDecl where
  names := names
  pos := s.info.pos c.token.start
  ty := ty
  tyText := s.slice typed.token.start e.lastStop
  tag := e.readTag.1
  comment := (e.readTag.2.1.run .comment).map Token.text

theorem readField_eq_ok {c : Cursor} {field : FieldDecl} {d : c.After}
    (h : readField s c = .ok (field, d)) :
    (c.kind = .star ∨ c.kind = .ident) ∧
      (d.1.kind = .lineBreak ∨ d.1.kind = .semicolon ∨ d.1.kind = .rbrace) ∧
      ∃ names, ∃ typed : c.From, ∃ ty, ∃ e : typed.1.After,
        c.readFieldNames s = .ok (names, typed) ∧ read s typed.1 = .ok (ty, e) ∧
        d.1 = e.1.readTag.2.1.skipComments.1 ∧ field = readAs s c names typed.1 ty e.1 := by
  unfold readField at h
  by_cases hstart : (c.kind != .star && c.kind != .ident) = true
  · rw [if_pos hstart] at h
    cases h
  · rw [if_neg hstart] at h
    have hstart : c.kind = .star ∨ c.kind = .ident := by
      by_cases hk : c.kind = .star
      · exact .inl hk
      · exact .inr (by simpa [hk] using hstart)
    obtain ⟨⟨names, typed⟩, hn, h⟩ := bind_eq_ok.mp h
    obtain ⟨⟨ty, e⟩, hr, h⟩ := bind_eq_ok.mp h
    dsimp only at h
    by_cases hend : e.1.readTag.2.1.skipComments.1.kind = .lineBreak ∨
        e.1.readTag.2.1.skipComments.1.kind = .semicolon ∨
        e.1.readTag.2.1.skipComments.1.kind = .rbrace
    · rw [if_pos hend] at h
      cases h
      exact ⟨hstart, hend, names, typed, ty, e, hn, hr, rfl, rfl⟩
    · rw [if_neg hend] at h
      cases h

theorem readField_sound_step {n : Nat} {c : Cursor}
    (hread : ∀ {c : Cursor} {ty : TypeExpr} {d : c.After}, c.ahead.length < n →
      read s c = .ok (ty, d) → Reads c ty d.1)
    {field : FieldDecl} {d : c.After} (hc : c.ahead.length < n)
    (h : readField s c = .ok (field, d)) :
    ∃ seg, c.Passes seg d.1 ∧ Declares c.lexemes d.1.lexemes := by
  obtain ⟨hstart, hend, names, typed, ty, e, hn, hr, hd, -⟩ := readField_eq_ok h
  have hne : c.kind ≠ .eof := by rcases hstart with hk | hk <;> rw [hk] <;> decide
  obtain ⟨seg₁, hp₁, hnames⟩ := Cursor.readFieldNames_eq_ok hne hn
  obtain ⟨seg₂, hp₂, ht, -⟩ := hread (Nat.lt_of_le_of_lt typed.2 hc) hr
  obtain ⟨seg₃, hp₃, htag⟩ := Cursor.readTag_spec e.1
  obtain ⟨hp₄, hcomments⟩ := Cursor.skipComments_spec e.1.readTag.2.1
  rw [hp₄.lexemes] at htag
  rw [← hd] at hp₄ htag
  have hend : headKind d.1.lexemes ∈ [TokenKind.lineBreak, .semicolon, .rbrace] := by
    rw [← Cursor.kind_eq]
    simpa using hend
  refine ⟨_, ((hp₁.trans hp₂).trans hp₃).trans hp₄, ?_⟩
  rcases hnames with ⟨hemb, heq, -⟩ | ⟨hemb, hnames⟩
  · rw [heq] at ht
    exact .embedded hemb (by rwa [← Cursor.kind_eq]) ht htag hcomments hend
  · exact .named hemb hnames ht htag hcomments hend

/-- A comment above a field is kept for it. -/
def keep (s : SourceText) (keyword : Nat) (done : PartialBody) (c : Cursor) : PartialBody :=
  { done with
    pending := done.pending ++ [c.token.text]
    fieldIndent := done.fieldIndent.or (s.bodyIndent? keyword c.token.start) }

/-- A field takes the comments above it. -/
def add (s : SourceText) (keyword : Nat) (done : PartialBody) (c : Cursor) (field : FieldDecl) :
    PartialBody where
  fields := done.fields ++ [{ field with doc := done.pending }]
  fieldIndent := done.fieldIndent.or (s.bodyIndent? keyword c.token.start)

def finish (s : SourceText) (keyword : Nat) (done : PartialBody) (c : Cursor) : StructExpr where
  span := ⟨keyword, c.token.stop⟩
  fields := done.fields
  trailing := done.pending
  closeIndent := s.closeIndent keyword c.token.start
  fieldIndent := done.fieldIndent

/-- A body goes on behind a line break or a comment, ends, or has a field next. -/
theorem readBody_eq_ok {keyword : Nat} {done : PartialBody} {c : Cursor} {body : StructExpr}
    {d : c.After} (h : readBody s keyword done c = .ok (body, d)) :
    c.kind ≠ .eof ∧
      ((c.kind = .lineBreak ∨ c.kind = .semicolon) ∧
          (∃ e, readBody s keyword done c.next = .ok (body, e) ∧ e.1 = d.1) ∨
        c.kind = .comment ∧
          (∃ e, readBody s keyword (keep s keyword done c) c.next = .ok (body, e) ∧ e.1 = d.1) ∨
        c.kind = .rbrace ∧ d.1 = c.next ∧ body = finish s keyword done c ∨
        ∃ field, ∃ e : c.After, ∃ f, readField s c = .ok (field, e) ∧
          readBody s keyword (add s keyword done c field) e.1 = .ok (body, f) ∧ f.1 = d.1) := by
  unfold readBody at h
  split at h
  · cases h
  · rename_i hne
    refine ⟨hne, ?_⟩
    have hstep : (c.step hne).1 = c.next := rfl
    generalize c.step hne = behind at h hstep
    obtain ⟨next, hlt⟩ := behind
    subst hstep
    dsimp only at h
    split at h
    · rename_i hk
      obtain ⟨⟨body, e⟩, hr, h⟩ := bind_eq_ok.mp h
      cases h
      exact .inl ⟨.inl hk, e, hr, rfl⟩
    · rename_i hk
      obtain ⟨⟨body, e⟩, hr, h⟩ := bind_eq_ok.mp h
      cases h
      exact .inl ⟨.inr hk, e, hr, rfl⟩
    · rename_i hk
      obtain ⟨⟨body, e⟩, hr, h⟩ := bind_eq_ok.mp h
      cases h
      exact .inr (.inl ⟨hk, e, hr, rfl⟩)
    · rename_i hk
      cases h
      exact .inr (.inr (.inl ⟨hk, rfl, rfl⟩))
    · obtain ⟨⟨field, e⟩, hf, h⟩ := bind_eq_ok.mp h
      obtain ⟨⟨body, f⟩, hr, h⟩ := bind_eq_ok.mp h
      cases h
      exact .inr (.inr (.inr ⟨field, e, f, hf, hr, rfl⟩))

theorem readBody_sound_step {n : Nat} {c : Cursor}
    (hfield : ∀ {field : FieldDecl} {d : c.After}, readField s c = .ok (field, d) →
      ∃ seg, c.Passes seg d.1 ∧ Declares c.lexemes d.1.lexemes)
    (hbody : ∀ {c : Cursor} {keyword : Nat} {done : PartialBody} {body : StructExpr} {d : c.After},
      c.ahead.length < n → readBody s keyword done c = .ok (body, d) →
      ∃ seg, c.Passes seg d.1 ∧ Body c.lexemes d.1.lexemes ∧ d.1.Settled)
    {keyword : Nat} {done : PartialBody} {body : StructExpr} {d : c.After}
    (hc : c.ahead.length < n + 1) (h : readBody s keyword done c = .ok (body, d)) :
    ∃ seg, c.Passes seg d.1 ∧ Body c.lexemes d.1.lexemes ∧ d.1.Settled := by
  obtain ⟨hne, h⟩ := readBody_eq_ok h
  have hfirst := Cursor.passes_next hne
  have hl := Cursor.lexemes_cons hne
  have hlen : c.next.ahead.length < n :=
    Nat.lt_of_lt_of_le (c.step hne).2 (Nat.le_of_lt_succ hc)
  rcases h with ⟨hk, e, hr, he⟩ | ⟨hk, e, hr, he⟩ | ⟨hk, he, -⟩ | ⟨field, e, f, hf, hr, he⟩
  · obtain ⟨seg, hp, hb, hs⟩ := hbody hlen hr
    rw [he] at hp hb hs
    refine ⟨_, hfirst.trans hp, ?_, hs⟩
    rw [hl]
    exact .skip (by rcases hk with hk | hk <;> simp [hk]) hb
  · obtain ⟨seg, hp, hb, hs⟩ := hbody hlen hr
    rw [he] at hp hb hs
    refine ⟨_, hfirst.trans hp, ?_, hs⟩
    rw [hl]
    exact .skip (by simp [hk]) hb
  · have hkind : c.token.kind = .rbrace := hk
    rw [he]
    refine ⟨_, hfirst, ?_, hfirst.settled_token (by rw [hkind]; decide)⟩
    rw [hl, hk]
    exact .close
  · obtain ⟨seg, hp, hd⟩ := hfield hf
    obtain ⟨seg', hp', hb, hs⟩ := hbody (Nat.lt_of_lt_of_le e.2 (Nat.le_of_lt_succ hc)) hr
    rw [he] at hp' hb hs
    exact ⟨_, hp.trans hp', .field hd hb, hs⟩

/-- What is read as a type is one. -/
theorem read_sound {c : Cursor} {ty : TypeExpr} {d : c.After} (h : read s c = .ok (ty, d)) :
    Reads c ty d.1 := by
  have all : ∀ n,
      (∀ {c : Cursor} {ty : TypeExpr} {d : c.After}, c.ahead.length < n →
        read s c = .ok (ty, d) → Reads c ty d.1) ∧
      ∀ {c : Cursor} {keyword : Nat} {done : PartialBody} {body : StructExpr} {d : c.After},
        c.ahead.length < n → readBody s keyword done c = .ok (body, d) →
        ∃ seg, c.Passes seg d.1 ∧ Body c.lexemes d.1.lexemes ∧ d.1.Settled := by
    intro n
    induction n with
    | zero => exact ⟨fun h => absurd h (Nat.not_lt_zero _), fun h => absurd h (Nat.not_lt_zero _)⟩
    | succ n ih =>
        obtain ⟨hread, hbody⟩ := ih
        have hread' {c : Cursor} {ty : TypeExpr} {d : c.After} (hc : c.ahead.length < n + 1)
            (h : read s c = .ok (ty, d)) : Reads c ty d.1 :=
          read_sound_step hread (readResult_sound_step hread) hbody hc (parts_of_read h)
        exact ⟨hread', fun hc h =>
          readBody_sound_step (fun hf => readField_sound_step hread' hc hf) hbody hc h⟩
  exact (all _).1 (Nat.lt_succ_self _) h

theorem readField_sound {c : Cursor} {field : FieldDecl} {d : c.After}
    (h : readField s c = .ok (field, d)) :
    ∃ seg, c.Passes seg d.1 ∧ Declares c.lexemes d.1.lexemes :=
  readField_sound_step (fun _ h => read_sound h) (Nat.lt_succ_self _) h

/-- What is read as a struct type is one, or one in parentheses. -/
theorem read_struct_eq_ok {c : Cursor} {body : StructExpr} {d : c.After}
    (h : read s c = .ok (.struct body, d)) :
    c.kind ≠ .eof ∧ ((∃ e, read s c.next = .ok (.struct body, e)) ∨
      ∃ seg, ∃ e : Cursor, ∃ f, c.Passes seg e ∧ readBody s c.token.start {} e = .ok (body, f)) := by
  have hparts := parts_of_read h
  generalize hty : TypeExpr.struct body = ty at hparts
  generalize d.1 = e at hparts
  cases hparts with
  | paren hk h hx =>
      subst hty
      exact ⟨by rw [hk]; decide, .inl ⟨_, h⟩⟩
  | struct hk ht hx h =>
      cases hty
      have hne : c.kind ≠ .eof := by rw [hk]; decide
      exact ⟨hne, .inr ⟨_, _, _, (Cursor.passes_next hne).trans (Cursor.expect_eq_ok hx).1, h⟩⟩
  | _ => cases hty

end TypeExpr

end StructLayout
