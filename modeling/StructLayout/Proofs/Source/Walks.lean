import StructLayout.Proofs.Source.Blocks
import StructLayout.Proofs.Source.Copies

/-!
The rest of a block, read item by item, and the places of the declarations in it. The trivia in front of
an item is stepped over first.
-/

namespace StructLayout

open Token

/-! ## Trivia -/

def triviaKinds : List TokenKind := [.lineBreak, .comment, .semicolon]

namespace Cursor

variable {s : SourceText} {c d : Cursor}

theorem skip_of_mem {kinds : List TokenKind} {t : Token} {ts : List Token} (ha : c.ahead = t :: ts)
    (hk : t.kind ∈ kinds) : c.skip kinds = c.next.skip kinds := by
  obtain ⟨before, ahead, stop⟩ := c
  cases ha
  simp [skip, next, hk]

theorem skip_of_not_mem {kinds : List TokenKind} (h : ∀ t ∈ c.ahead.head?, t.kind ∉ kinds) :
    c.skip kinds = c := by
  obtain ⟨before, ahead, stop⟩ := c
  cases ahead with
  | nil => rfl
  | cons t ts =>
      have hk := h t rfl
      simp [skip, hk]

theorem skip_head (kinds : List TokenKind) (c : Cursor) :
    ∀ t ∈ (c.skip kinds).ahead.head?, t.kind ∉ kinds := by
  intro t ht
  have := List.head?_dropWhile_not (fun t : Token => kinds.contains t.kind) c.ahead
  have ht : (c.ahead.dropWhile fun t => kinds.contains t.kind).head? = some t := ht
  rw [ht] at this
  simpa using this

theorem skip_skip (kinds : List TokenKind) (c : Cursor) : (c.skip kinds).skip kinds = c.skip kinds :=
  skip_of_not_mem (skip_head kinds c)

theorem skipTrivia_not_mem (c : Cursor) : c.skipTrivia.kind ∉ triviaKinds := by
  cases ha : c.skipTrivia.ahead with
  | nil =>
      rw [kind_eq, lexemes, ha]
      decide
  | cons t ts =>
      rw [kind_eq, lexemes, ha]
      exact skip_head triviaKinds c t (congrArg List.head? ha)

/-- The trivia in front of an item. -/
theorem passes_skipTrivia (c : Cursor) :
    ∃ seg, c.Passes seg c.skipTrivia ∧ ∀ t ∈ seg, t.kind ∈ triviaKinds := by
  obtain ⟨seg, -, hp, hk⟩ := passes_skip triviaKinds c
  exact ⟨seg, hp, hk⟩

/-- Nothing but comments of a declaration was read behind the last token that is no line break, or
nothing is left. -/
def Calm (c : Cursor) : Prop :=
  Shut c.before ∨ c.ahead = []

theorem Calm.shut (h : Calm c) (hk : c.skipTrivia.kind ≠ .eof) : Shut c.before := by
  refine h.resolve_right fun hnil => hk ?_
  rw [kind, token, peek, skipTrivia, skip, hnil]
  rfl

theorem calm_next (he : c.kind ≠ .eof) (hk : c.kind ∉ triviaKinds) : Calm c.next := by
  left
  rw [(passes_next he).before]
  exact .token (fun h => hk (by rw [kind, h]; decide)) (fun h => hk (by rw [kind, h]; decide))

theorem calm_settled (h : c.Settled) : Calm c :=
  .inl h.shut

theorem skipBalanced_calm {opening closing : TokenKind} {d : c.After}
    (h : c.skipBalanced s opening closing = .ok d) (hk : closing ∈ closers) : Calm d.1 := by
  obtain ⟨seg, last, hp, hlast, -⟩ := skipBalanced_eq_ok h
  exact calm_settled (hp.settled (hlast ▸ hk))

end Cursor

/-! ## Constants -/

namespace ConstSpec

open Cursor

/-- A declaration ends in front of a token of this kind. -/
def stops (grouped : Bool) (depth : Nat) (kind : TokenKind) : Bool :=
  depth == 0 && (kind == .lineBreak || kind == .semicolon || (grouped && kind == .rparen))

/-- How many brackets are open behind a token of this kind. -/
def depthBehind (depth : Nat) : TokenKind → Nat
  | .lparen | .lbrack | .lbrace => depth + 1
  | .rparen | .rbrack | .rbrace => depth - 1
  | _ => depth

theorem splitTokens_cons (grouped : Bool) (depth : Nat) (t : Token) (ts : List Token) :
    splitTokens grouped depth (t :: ts) =
      if stops grouped depth t.kind then ([], t :: ts)
      else
        (t :: (splitTokens grouped (depthBehind depth t.kind) ts).1,
          (splitTokens grouped (depthBehind depth t.kind) ts).2) := by
  rw [splitTokens]
  cases t.kind <;> cases grouped <;> cases depth <;> rfl

/-- A declaration that ends in front of other tokens ends outside of brackets. -/
theorem splitTokens_shut {grouped : Bool} {ts : List Token} {depth : Nat}
    (h : (splitTokens grouped depth ts).2 ≠ []) {back : List Token} (hb : depth = 0 → Shut back) :
    Shut ((splitTokens grouped depth ts).1.reverse ++ back) := by
  induction ts generalizing depth back with
  | nil => exact absurd rfl h
  | cons t ts ih =>
      rw [splitTokens_cons] at h ⊢
      by_cases hs : stops grouped depth t.kind = true
      · rw [if_pos hs]
        simp only [stops, Bool.and_eq_true, beq_iff_eq] at hs
        exact hb hs.1
      · rw [if_neg hs] at h ⊢
        rw [List.reverse_cons, List.append_assoc, List.singleton_append]
        refine ih h fun hd => ?_
        by_cases hc : t.kind = .comment
        · rw [hc] at hd
          exact .comment hc (hb hd)
        · refine .token (fun hl => hs ?_) hc
          rw [hl] at hd ⊢
          rw [show depth = 0 from hd]
          rfl

theorem read_calm {grouped : Bool} {c : Cursor} (h : Shut c.before) : Calm (read grouped c).2.1 := by
  by_cases hnil : (splitTokens grouped 0 c.ahead).2 = []
  · exact .inr hnil
  · exact .inl (splitTokens_shut hnil fun _ => h)

theorem readGroup_calm {s : SourceText} {c : Cursor} {cs : List ConstSpec} {d : c.From}
    (h : readGroup s c = .ok (cs, d)) : Calm d.1 := by
  obtain ⟨n, hn⟩ : ∃ n, c.ahead.length < n := ⟨_, Nat.lt_succ_self _⟩
  induction n generalizing c cs d with
  | zero => exact absurd hn (Nat.not_lt_zero _)
  | succ n ih =>
      have hle : c.skipTrivia.ahead.length ≤ c.ahead.length := c.skip_le _
      unfold readGroup at h
      dsimp only at h
      split at h
      · rename_i hk
        cases h
        exact calm_next (by rw [hk]; decide) c.skipTrivia_not_mem
      · rename_i hk
        split at h
        · cases h
        · rename_i he
          split at h
          · cases h
          · rename_i hr
            cases h
            have hlt : (read true c.skipTrivia).2.1.ahead.length < c.skipTrivia.ahead.length :=
              read_lt hk he c.skipTrivia_kind
            have := ih hr (by omega)
            exact this

theorem readDecl_calm {s : SourceText} {c : Cursor} {cs : List ConstSpec} {d : c.next.From}
    (hk : c.kind = .ident) (h : readDecl s c = .ok (cs, d)) : Calm d.1 := by
  unfold readDecl at h
  split at h
  · split at h
    · cases h
    · rename_i hr
      cases h
      have := readGroup_calm hr
      exact this
  · cases h
    refine read_calm ?_
    have hkind : c.token.kind = .ident := hk
    rw [(passes_next (by rw [hk]; decide)).before]
    exact .token (by rw [hkind]; decide) (by rw [hkind]; decide)

end ConstSpec

/-! ## Declarations -/

namespace TypeSpec

open Cursor

/-- A declaration, and where it was read: behind one place and in front of another. In a group it starts
with its name. -/
structure Place where
  base : Cursor
  grouped : Bool
  spec : TypeSpec
  rest : Cursor

namespace Place

def anchor (p : Place) : Cursor :=
  p.base.skipTrivia

/-- In front of the name. -/
def named (p : Place) : Cursor :=
  if p.grouped then p.anchor else p.anchor.next

structure IsRead (s : SourceText) (p : Place) : Prop where
  shut : Shut p.base.before
  anchor : p.anchor.kind = .ident
  keyword : p.grouped = false → Block.isTypeDecl p.anchor = true ∧ p.anchor.next.kind ≠ .lparen
  read : ∃ h, TypeSpec.read s p.anchor p.named = .ok (p.spec, ⟨p.rest, h⟩)

end Place

namespace Place

variable {s : SourceText} {p : Place}

theorem passes_anchor (p : Place) :
    ∃ seg, p.base.Passes seg p.anchor ∧ ∀ t ∈ seg, t.kind ∈ triviaKinds :=
  passes_skipTrivia p.base

theorem IsRead.read_grouped (h : p.IsRead s) (hg : p.grouped = true) :
    ∃ h, TypeSpec.read s p.anchor p.anchor = .ok (p.spec, ⟨p.rest, h⟩) := by
  have hnamed : p.named = p.anchor := if_pos hg
  exact hnamed ▸ h.read

theorem IsRead.read_single (h : p.IsRead s) (hg : p.grouped = false) :
    ∃ h, TypeSpec.read s p.anchor p.anchor.next = .ok (p.spec, ⟨p.rest, h⟩) := by
  have hnamed : p.named = p.anchor.next := by rw [named, hg]; rfl
  exact hnamed ▸ h.read

theorem IsRead.passes_named (h : p.IsRead s) : ∃ seg, p.anchor.Passes seg p.named := by
  unfold named
  split
  · exact ⟨[], .refl _⟩
  · exact ⟨_, passes_next (by rw [h.anchor]; decide)⟩

theorem IsRead.passes (h : p.IsRead s) : ∃ seg, p.base.Passes seg p.rest := by
  obtain ⟨seg₁, h₁, -⟩ := p.passes_anchor
  obtain ⟨seg₂, h₂⟩ := h.passes_named
  obtain ⟨hlt, hr⟩ := h.read
  obtain ⟨name, f, g, head, comments, h₃, -, ⟨ty, h₄, -, -⟩, -, h₅, -⟩ := read_eq_ok hr
  exact ⟨_, h₁.trans (h₂.trans (h₃.trans (h₄.trans h₅)))⟩

end Place

/-- Places of declarations that follow one another. -/
inductive Chain (s : SourceText) : Cursor → List Place → Cursor → Prop
  | nil {c d : Cursor} {seg : List Token} (h : c.Passes seg d) : Chain s c [] d
  | cons {c d : Cursor} {p : Place} {log : List Place} {seg : List Token} (hc : c.Passes seg p.base)
      (hp : p.IsRead s) (h : Chain s p.rest log d) : Chain s c (p :: log) d

namespace Chain

variable {s : SourceText} {c d e : Cursor} {log log' : List Place} {seg : List Token}

theorem before (hc : c.Passes seg d) (h : Chain s d log e) : Chain s c log e := by
  cases h with
  | nil h => exact .nil (hc.trans h)
  | cons hd hp h => exact .cons (hc.trans hd) hp h

theorem append (h : Chain s c log d) (h' : Chain s d log' e) : Chain s c (log ++ log') e := by
  induction h with
  | nil h => exact before h h'
  | cons hc hp _ ih => exact .cons hc hp (ih h')

theorem passes (h : Chain s c log d) : ∃ seg, c.Passes seg d := by
  induction h with
  | nil h => exact ⟨_, h⟩
  | cons hc hp _ ih =>
      obtain ⟨seg, hseg⟩ := hp.passes
      obtain ⟨seg', hseg'⟩ := ih
      exact ⟨_, hc.trans (hseg.trans hseg')⟩

/-- The declarations stand in the order of the text. -/
theorem row {p : Nat} (h : Chain s c log d) (ho : Over s c) (hp : c.Past p) :
    ∃ q, Row s.chars p q (log.map Place.spec) ∧ d.Past q := by
  induction h generalizing p with
  | nil h => exact ⟨p, .nil, hp.passes h⟩
  | @cons c d place log seg hc hread _ ih =>
      obtain ⟨seg₁, h₁, -⟩ := place.passes_anchor
      obtain ⟨seg₂, h₂⟩ := hread.passes_named
      obtain ⟨hlt, hr⟩ := hread.read
      have hanchor := hc.trans h₁
      obtain ⟨hplaced, hle, hstop, hshut, seg₃, h₃⟩ := read_placed (ho.passes hanchor)
        (hp.passes hanchor) (by rw [hread.anchor]; decide) (by rw [hread.anchor]; decide) h₂ hr
      obtain ⟨q, hrow, hpast⟩ := ih (ho.passes (hanchor.trans (h₂.trans h₃))) (past_of_shut hshut)
      exact ⟨q, .cons hplaced hle hstop hrow, hpast⟩

end Chain

/-- The declarations of a group, read one by one. -/
inductive WalksGroup (s : SourceText) : Cursor → Cursor → List Place → Prop
  | close {c : Cursor} (hk : c.skipTrivia.kind = .rparen) : WalksGroup s c c.skipTrivia.next []
  | spec {p : Place} {d : Cursor} {log : List Place} (hp : p.IsRead s) (hg : p.grouped = true)
      (h : WalksGroup s p.rest d log) : WalksGroup s p.base d (p :: log)

theorem WalksGroup.calm {s : SourceText} {c d : Cursor} {log : List Place}
    (h : WalksGroup s c d log) : Calm d := by
  induction h with
  | close hk => exact calm_next (by rw [hk]; decide) (skipTrivia_not_mem _)
  | spec _ _ _ ih => exact ih

theorem WalksGroup.chain {s : SourceText} {c d : Cursor} {log : List Place}
    (h : WalksGroup s c d log) : Chain s c log d := by
  induction h with
  | @close c hk =>
      obtain ⟨seg, hseg, -⟩ := passes_skipTrivia c
      exact .nil (hseg.trans (passes_next (by rw [hk]; decide)))
  | spec hp _ _ ih => exact .cons (.refl _) hp ih

theorem WalksGroup.reads {s : SourceText} {c d : Cursor} {log : List Place}
    (h : WalksGroup s c d log) : ∃ h, readGroup s c = .ok (log.map Place.spec, ⟨d, h⟩) := by
  induction h with
  | @close c hk =>
      refine ⟨Nat.le_trans (next_le _) (c.skip_le _), ?_⟩
      rw [readGroup]
      dsimp only
      rw [hk]
      rfl
  | @spec p d log hp hg _ ih =>
      obtain ⟨hlt, hr⟩ := hp.read_grouped hg
      obtain ⟨hle, h⟩ := ih
      have hskip : p.anchor.ahead.length ≤ p.base.ahead.length := p.base.skip_le _
      have hk : p.base.skipTrivia.kind = .ident := hp.anchor
      refine ⟨by omega, ?_⟩
      rw [readGroup]
      dsimp only
      rw [hk]
      exact bind_eq_ok.mpr ⟨_, hr, bind_eq_ok.mpr ⟨_, h, rfl⟩⟩

theorem read_kind {s : SourceText} {anchor c : Cursor} {t : TypeSpec} {d : c.After}
    (h : read s anchor c = .ok (t, d)) : c.kind = .ident := by
  unfold read at h
  obtain ⟨⟨name, d₁⟩, hname, -⟩ := bind_eq_ok.mp h
  exact (expect_eq_next hname).1

theorem read_shut {s : SourceText} {anchor c : Cursor} {t : TypeSpec} {d : c.After}
    (h : read s anchor c = .ok (t, d)) : Shut d.1.before := by
  obtain ⟨name, f, g, head, comments, -, -, ⟨ty, -, -, hsettled⟩, -, hcomments, hkinds, -⟩ :=
    read_eq_ok h
  rw [hcomments.before]
  refine hsettled.shut.append fun l hl => hkinds l ?_
  simpa using hl

theorem walksGroup_of_readGroup {s : SourceText} {c : Cursor} {ts : List TypeSpec} {d : c.From}
    (hc : Calm c) (h : readGroup s c = .ok (ts, d)) :
    ∃ log, WalksGroup s c d.1 log ∧ ts = log.map Place.spec := by
  obtain ⟨n, hn⟩ : ∃ n, c.ahead.length < n := ⟨_, Nat.lt_succ_self _⟩
  induction n generalizing c ts d with
  | zero => exact absurd hn (Nat.not_lt_zero _)
  | succ n ih =>
      have hle : c.skipTrivia.ahead.length ≤ c.ahead.length := c.skip_le _
      unfold readGroup at h
      dsimp only at h
      split at h
      · rename_i hk
        cases h
        exact ⟨[], .close hk, rfl⟩
      · cases h
      · obtain ⟨⟨t, f, hf⟩, ht, h⟩ := bind_eq_ok.mp h
        obtain ⟨⟨ts, g⟩, hts, h⟩ := bind_eq_ok.mp h
        cases h
        have hk := read_kind ht
        obtain ⟨log, hlog, rfl⟩ := ih (.inl (read_shut ht)) hts
          (Nat.lt_of_lt_of_le hf (Nat.le_trans hle (Nat.le_of_lt_succ hn)))
        let p : Place := ⟨c, true, t, f⟩
        have hp : p.IsRead s := ⟨hc.shut (by rw [hk]; decide), hk, by simp [p], hf, ht⟩
        exact ⟨p :: log, .spec hp rfl hlog, rfl⟩

end TypeSpec

/-! ## Blocks -/

namespace Block

open Cursor TypeSpec
open TypeExpr (ne_eof_of_kind)

/-- A word of a block that is read as nothing else. -/
structure IsWord (c : Cursor) : Prop where
  decl : isTypeDecl c ≠ true
  const : c.token.text ≠ "const"
  literal : ¬((c.token.text = "struct" ∨ c.token.text = "interface") ∧ c.next.kind = .lbrace)

/-- The rest of a block, read item by item between two places, and the declarations in it. -/
inductive Walks (s : SourceText) : Bool → Block → Cursor → Block → Cursor → List Place → Prop
  | finish {b : Block} {c : Cursor} (hk : c.skipTrivia.kind = .eof) :
      Walks s false b c b c.skipTrivia []
  | close {b : Block} {c : Cursor} (hk : c.skipTrivia.kind = .rbrace) :
      Walks s true b c { b with span := { b.span with stop := c.skipTrivia.token.stop } }
        c.skipTrivia.next []
  | nest {nested : Bool} {b child b' : Block} {c d e : Cursor} {log log' : List Place}
      (hk : c.skipTrivia.kind = .lbrace)
      (hchild : Walks s true { span := ⟨c.skipTrivia.token.start, c.skipTrivia.token.stop⟩ }
        c.skipTrivia.next child d log)
      (h : Walks s nested { b with blocks := b.blocks ++ [child] } d b' e log') :
      Walks s nested b c b' e (log ++ log')
  | type {nested : Bool} {b b' : Block} {p : Place} {e : Cursor} {log : List Place}
      (hp : p.IsRead s) (hg : p.grouped = false)
      (h : Walks s nested { b with specs := b.specs ++ [p.spec] } p.rest b' e log) :
      Walks s nested b p.base b' e (p :: log)
  | group {nested : Bool} {b b' : Block} {c d e : Cursor} {log log' : List Place}
      (hk : c.skipTrivia.kind = .ident) (ht : isTypeDecl c.skipTrivia = true)
      (hp : c.skipTrivia.next.kind = .lparen) (hg : WalksGroup s c.skipTrivia.next.next d log)
      (h : Walks s nested { b with specs := b.specs ++ log.map Place.spec } d b' e log') :
      Walks s nested b c b' e (log ++ log')
  | consts {nested : Bool} {b b' : Block} {c e : Cursor} {new : List ConstSpec}
      {d : c.skipTrivia.next.From} {log : List Place} (hk : c.skipTrivia.kind = .ident)
      (ht : isTypeDecl c.skipTrivia ≠ true) (hc : c.skipTrivia.token.text = "const")
      (hr : ConstSpec.readDecl s c.skipTrivia = .ok (new, d))
      (h : Walks s nested { b with consts := b.consts ++ new } d.1 b' e log) :
      Walks s nested b c b' e log
  | literal {nested : Bool} {b b' : Block} {c e : Cursor} {d : c.skipTrivia.next.After}
      {log : List Place} (hk : c.skipTrivia.kind = .ident)
      (ht : c.skipTrivia.token.text = "struct" ∨ c.skipTrivia.token.text = "interface")
      (hb : c.skipTrivia.next.kind = .lbrace)
      (hr : c.skipTrivia.next.skipBalanced s .lbrace .rbrace = .ok d)
      (h : Walks s nested b d.1 b' e log) : Walks s nested b c b' e log
  | other {nested : Bool} {b b' : Block} {c e : Cursor} {log : List Place}
      (hk : c.skipTrivia.kind ∉ [TokenKind.eof, .lbrace, .rbrace])
      (hw : c.skipTrivia.kind = .ident → IsWord c.skipTrivia)
      (h : Walks s nested b c.skipTrivia.next b' e log) : Walks s nested b c b' e log

/-- The rest of a block is read. -/
def ReadsRest (s : SourceText) (nested : Bool) (b : Block) (c : Cursor) (b' : Block) (d : Cursor) :
    Prop :=
  ∃ h, readFrom s nested b c = .ok (b', ⟨d, h⟩)

variable {s : SourceText} {nested : Bool} {b b' child : Block} {c d e : Cursor}

theorem readsRest_trivia_iff (hk : c.kind ∈ triviaKinds) :
    ReadsRest s nested b c b' d ↔ ReadsRest s nested b c.next b' d := by
  have hne : c.kind ≠ .eof := fun he => absurd (he ▸ hk) (by decide)
  have hread : readFrom s nested b c = (readFrom s nested b c.next >>= fun r =>
      pure (r.1, ⟨r.2.1, Nat.le_trans r.2.2 c.next_le⟩)) := by
    rw [readFrom.eq_def, dif_neg hne]
    simp only [triviaKinds, List.mem_cons, List.not_mem_nil, or_false] at hk
    rcases hk with hk | hk | hk <;> simp only [hk]
  constructor
  · rintro ⟨h, hr⟩
    rw [hread] at hr
    obtain ⟨⟨b₁, d₁⟩, hnext, he⟩ := bind_eq_ok.mp hr
    cases he
    exact ⟨d₁.2, hnext⟩
  · rintro ⟨h, hr⟩
    exact ⟨Nat.le_trans h c.next_le, by rw [hread]; exact bind_eq_ok.mpr ⟨_, hr, rfl⟩⟩

theorem readsRest_skipTrivia_iff :
    ReadsRest s nested b c b' d ↔ ReadsRest s nested b c.skipTrivia b' d := by
  obtain ⟨n, hn⟩ : ∃ n, c.ahead.length < n := ⟨_, Nat.lt_succ_self _⟩
  induction n generalizing c with
  | zero => exact absurd hn (Nat.not_lt_zero _)
  | succ n ih =>
      by_cases hk : c.kind ∈ triviaKinds
      · obtain ⟨t, ts, ha⟩ : ∃ t ts, c.ahead = t :: ts :=
          ⟨_, _, (passes_next fun he => absurd (he ▸ hk) (by decide)).ahead⟩
        have hlt := next_lt (c := c) (by rw [ha]; exact List.cons_ne_nil _ _)
        rw [readsRest_trivia_iff hk, ih (by omega), skipTrivia, skipTrivia,
          skip_of_mem ha ((kind_of_ahead ha) ▸ hk)]
      · have : c.skipTrivia = c := by
          refine skip_of_not_mem fun t ht => ?_
          obtain ⟨ts, ha⟩ := List.head?_eq_some_iff.mp ht
          rw [kind_of_ahead ha] at hk
          exact hk
        rw [this]

/-! ### Reading an item -/

theorem readsRest_finish (hk : c.kind = .eof) : ReadsRest s false b c b c := by
  refine ⟨Nat.le_refl _, ?_⟩
  rw [readFrom, dif_pos hk]
  rfl

theorem readsRest_close (hk : c.kind = .rbrace) :
    ReadsRest s true b c { b with span := { b.span with stop := c.token.stop } } c.next := by
  have hne := ne_eof_of_kind hk (by decide)
  refine ⟨c.next_le, ?_⟩
  rw [readFrom, dif_neg hne]
  simp only [hk]
  rfl

theorem readsRest_nest (hk : c.kind = .lbrace)
    (hchild : ReadsRest s true { span := ⟨c.token.start, c.token.stop⟩ } c.next child d)
    (h : ReadsRest s nested { b with blocks := b.blocks ++ [child] } d b' e) :
    ReadsRest s nested b c b' e := by
  have hne := ne_eof_of_kind hk (by decide)
  obtain ⟨hd, hchild⟩ := hchild
  obtain ⟨he, h⟩ := h
  have hle := c.next_le
  refine ⟨by omega, ?_⟩
  rw [readFrom, dif_neg hne]
  simp only [hk]
  exact bind_eq_ok.mpr ⟨_, hchild, bind_eq_ok.mpr ⟨_, h, rfl⟩⟩

theorem readsRest_types {new : List TypeSpec} (hk : c.kind = .ident) (ht : isTypeDecl c = true)
    (hr : ∃ h, readDecl s c = .ok (new, ⟨d, h⟩))
    (h : ReadsRest s nested { b with specs := b.specs ++ new } d b' e) :
    ReadsRest s nested b c b' e := by
  have hne := ne_eof_of_kind hk (by decide)
  obtain ⟨hd, hr⟩ := hr
  obtain ⟨he, h⟩ := h
  have hle := c.next_le
  refine ⟨by omega, ?_⟩
  rw [readFrom, dif_neg hne]
  simp only [hk]
  rw [if_pos ht]
  exact bind_eq_ok.mpr ⟨_, hr, bind_eq_ok.mpr ⟨_, h, rfl⟩⟩

theorem readsRest_consts {new : List ConstSpec} (hk : c.kind = .ident) (ht : isTypeDecl c ≠ true)
    (hc : c.token.text = "const") (hr : ∃ h, ConstSpec.readDecl s c = .ok (new, ⟨d, h⟩))
    (h : ReadsRest s nested { b with consts := b.consts ++ new } d b' e) :
    ReadsRest s nested b c b' e := by
  have hne := ne_eof_of_kind hk (by decide)
  obtain ⟨hd, hr⟩ := hr
  obtain ⟨he, h⟩ := h
  have hle := c.next_le
  refine ⟨by omega, ?_⟩
  rw [readFrom, dif_neg hne]
  simp only [hk]
  rw [if_neg ht, if_pos hc]
  exact bind_eq_ok.mpr ⟨_, hr, bind_eq_ok.mpr ⟨_, h, rfl⟩⟩

theorem isTypeDecl_text (h : isTypeDecl c = true) : c.token.text = "type" := by
  unfold isTypeDecl at h
  exact beq_iff_eq.mp (Bool.and_eq_true_iff.mp h).1

theorem readsRest_literal {d : c.next.After} (hk : c.kind = .ident)
    (ht : c.token.text = "struct" ∨ c.token.text = "interface") (hb : c.next.kind = .lbrace)
    (hr : c.next.skipBalanced s .lbrace .rbrace = .ok d) (h : ReadsRest s nested b d.1 b' e) :
    ReadsRest s nested b c b' e := by
  have hne := ne_eof_of_kind hk (by decide)
  obtain ⟨he, h⟩ := h
  have hle := c.next_le
  have hd := d.2
  refine ⟨by omega, ?_⟩
  have hdecl : isTypeDecl c ≠ true := fun h => by
    rw [isTypeDecl_text h] at ht
    revert ht
    decide
  have hconst : c.token.text ≠ "const" := fun h => by
    rw [h] at ht
    revert ht
    decide
  rw [readFrom, dif_neg hne]
  simp only [hk]
  rw [if_neg hdecl, if_neg hconst, if_pos ⟨ht, hb⟩]
  exact bind_eq_ok.mpr ⟨_, hr, bind_eq_ok.mpr ⟨_, h, rfl⟩⟩

theorem readsRest_other (hk : c.kind ∉ [TokenKind.eof, .lbrace, .rbrace])
    (hw : c.kind = .ident → IsWord c) (h : ReadsRest s nested b c.next b' e) :
    ReadsRest s nested b c b' e := by
  simp only [List.mem_cons, List.not_mem_nil, or_false, not_or] at hk
  obtain ⟨hne, hopen, hclose⟩ := hk
  obtain ⟨he, h⟩ := h
  have hle := c.next_le
  refine ⟨by omega, ?_⟩
  rw [readFrom, dif_neg hne]
  dsimp only
  split
  · contradiction
  · contradiction
  · rename_i hk
    obtain ⟨hdecl, hconst, hliteral⟩ := hw hk
    rw [if_neg hdecl, if_neg hconst, if_neg hliteral]
    exact bind_eq_ok.mpr ⟨_, h, rfl⟩
  · exact bind_eq_ok.mpr ⟨_, h, rfl⟩

/-! ### Soundness -/

theorem Walks.calm {log : List Place} (h : Walks s nested b c b' d log) (hn : nested = true) :
    Calm d := by
  induction h with
  | finish => cases hn
  | close hk => exact calm_next (ne_eof_of_kind hk (by decide)) (skipTrivia_not_mem _)
  | nest _ _ _ _ ih => exact ih hn
  | type _ _ _ ih | group _ _ _ _ _ ih | consts _ _ _ _ _ ih | literal _ _ _ _ _ ih
  | other _ _ _ ih => exact ih hn

theorem walks_of_readDecl {new : List TypeSpec} {d : c.skipTrivia.next.From}
    (hc : Calm c) (hk : c.skipTrivia.kind = .ident) (ht : isTypeDecl c.skipTrivia = true)
    (hr : readDecl s c.skipTrivia = .ok (new, d))
    (h : Calm d.1 → ∃ log, Walks s nested { b with specs := b.specs ++ new } d.1 b' e log) :
    ∃ log, Walks s nested b c b' e log := by
  unfold readDecl at hr
  split at hr
  · rename_i hp
    obtain ⟨⟨ts, f, hf⟩, hts, hr⟩ := bind_eq_ok.mp hr
    cases hr
    obtain ⟨log, hlog, rfl⟩ := walksGroup_of_readGroup (calm_next (by rw [hp]; decide)
      (by rw [hp]; decide)) hts
    obtain ⟨log', hlog'⟩ := h hlog.calm
    exact ⟨_, .group hk ht hp hlog hlog'⟩
  · rename_i hp
    obtain ⟨⟨t, f, hf⟩, hspec, hr⟩ := bind_eq_ok.mp hr
    cases hr
    let p : Place := ⟨c, false, t, f⟩
    have hp : p.IsRead s := ⟨hc.shut (by rw [hk]; decide), hk, fun _ => ⟨ht, hp⟩, hf, hspec⟩
    obtain ⟨log, hlog⟩ := h (.inl (read_shut hspec))
    exact ⟨p :: log, .type hp rfl hlog⟩

theorem ReadsRest.walks (hc : Calm c) (h : ReadsRest s nested b c b' d) :
    ∃ log, Walks s nested b c b' d log := by
  obtain ⟨n, hn⟩ : ∃ n, c.ahead.length < n := ⟨_, Nat.lt_succ_self _⟩
  induction n generalizing c b b' d nested with
  | zero => exact absurd hn (Nat.not_lt_zero _)
  | succ n ih =>
      obtain ⟨hle, h⟩ := readsRest_skipTrivia_iff.mp h
      have hskip : c.skipTrivia.ahead.length ≤ c.ahead.length := c.skip_le _
      have htrivia := c.skipTrivia_not_mem
      unfold readFrom at h
      split at h
      · rename_i he
        split at h
        · cases h
        · rename_i hnested
          cases h
          rw [Bool.eq_false_iff.mpr hnested]
          exact ⟨[], .finish he⟩
      · rename_i he
        have hlt := next_lt (ahead_ne_nil_of_kind he)
        have hnext := calm_next he htrivia
        dsimp only at h
        split at h
        · rename_i hk
          split at h
          · rename_i hnested
            cases h
            rw [hnested]
            exact ⟨[], .close hk⟩
          · cases h
        · rename_i hk
          obtain ⟨⟨child, d₁⟩, hchild, h⟩ := bind_eq_ok.mp h
          obtain ⟨⟨b₂, e⟩, hr, h⟩ := bind_eq_ok.mp h
          cases h
          have := d₁.2
          obtain ⟨log, hlog⟩ := ih hnext ⟨d₁.2, hchild⟩ (by omega)
          obtain ⟨log', hlog'⟩ := ih (hlog.calm rfl) ⟨e.2, hr⟩ (by omega)
          exact ⟨_, .nest hk hlog hlog'⟩
        · rename_i hk
          split at h
          · rename_i ht
            obtain ⟨⟨new, d₁⟩, hnew, h⟩ := bind_eq_ok.mp h
            obtain ⟨⟨b₂, e⟩, hr, h⟩ := bind_eq_ok.mp h
            cases h
            have := d₁.2
            exact walks_of_readDecl hc hk ht hnew fun hcalm => ih hcalm ⟨e.2, hr⟩ (by omega)
          · rename_i ht
            split at h
            · rename_i hc
              obtain ⟨⟨new, d₁⟩, hnew, h⟩ := bind_eq_ok.mp h
              obtain ⟨⟨b₂, e⟩, hr, h⟩ := bind_eq_ok.mp h
              cases h
              have := d₁.2
              obtain ⟨log, hlog⟩ := ih (ConstSpec.readDecl_calm hk hnew) ⟨e.2, hr⟩ (by omega)
              exact ⟨_, .consts hk ht hc hnew hlog⟩
            · rename_i hc
              split at h
              · rename_i hl
                obtain ⟨d₁, hskip, h⟩ := bind_eq_ok.mp h
                obtain ⟨⟨b₂, e⟩, hr, h⟩ := bind_eq_ok.mp h
                cases h
                have := d₁.2
                obtain ⟨log, hlog⟩ := ih (skipBalanced_calm hskip (by decide)) ⟨e.2, hr⟩ (by omega)
                exact ⟨_, .literal hk hl.1 hl.2 hskip hlog⟩
              · rename_i hl
                obtain ⟨⟨b₂, e⟩, hr, h⟩ := bind_eq_ok.mp h
                cases h
                obtain ⟨log, hlog⟩ := ih hnext ⟨e.2, hr⟩ (by omega)
                exact ⟨_, .other (by rw [hk]; decide) (fun _ => ⟨ht, hc, hl⟩) hlog⟩
        · rename_i hclose hopen hident
          obtain ⟨⟨b₂, e⟩, hr, h⟩ := bind_eq_ok.mp h
          cases h
          obtain ⟨log, hlog⟩ := ih hnext ⟨e.2, hr⟩ (by omega)
          refine ⟨_, .other ?_ (absurd · hident) hlog⟩
          simp only [List.mem_cons, List.not_mem_nil, or_false, not_or]
          exact ⟨‹_›, hopen, hclose⟩

/-! ### Completeness -/

theorem Walks.reads {log : List Place} (h : Walks s nested b c b' d log) :
    ReadsRest s nested b c b' d := by
  induction h with
  | finish hk => exact readsRest_skipTrivia_iff.mpr (readsRest_finish hk)
  | close hk => exact readsRest_skipTrivia_iff.mpr (readsRest_close hk)
  | nest hk _ _ ihchild ih => exact readsRest_skipTrivia_iff.mpr (readsRest_nest hk ihchild ih)
  | @type _ b b' p e log hp hg _ ih =>
      obtain ⟨ht, hne⟩ := hp.keyword hg
      obtain ⟨hlt, hr⟩ := hp.read_single hg
      refine readsRest_skipTrivia_iff.mpr (readsRest_types hp.anchor ht ⟨Nat.le_of_lt hlt, ?_⟩ ih)
      exact (if_neg hne).trans (bind_eq_ok.mpr ⟨_, hr, rfl⟩)
  | @group _ b b' c _ _ _ _ hk ht hp hg _ ih =>
      obtain ⟨hle, hr⟩ := hg.reads
      have hnext := c.skipTrivia.next.next_le
      refine readsRest_skipTrivia_iff.mpr (readsRest_types hk ht ⟨by omega, ?_⟩ ih)
      exact (if_pos hp).trans (bind_eq_ok.mpr ⟨_, hr, rfl⟩)
  | consts hk ht hc hr _ ih => exact readsRest_skipTrivia_iff.mpr (readsRest_consts hk ht hc ⟨_, hr⟩ ih)
  | literal hk ht hb hr _ ih => exact readsRest_skipTrivia_iff.mpr (readsRest_literal hk ht hb hr ih)
  | other hk hw _ ih => exact readsRest_skipTrivia_iff.mpr (readsRest_other hk hw ih)

/-! ### Declarations of a block -/

theorem Walks.chain {log : List Place} (h : Walks s nested b c b' d log) : Chain s c log d := by
  induction h with
  | @finish b c hk =>
      obtain ⟨seg, hseg, -⟩ := passes_skipTrivia c
      exact .nil hseg
  | @close b c hk =>
      obtain ⟨seg, hseg, -⟩ := passes_skipTrivia c
      exact .nil (hseg.trans (passes_next (ne_eof_of_kind hk (by decide))))
  | @nest _ _ _ _ c _ _ _ _ hk _ _ ihchild ih =>
      obtain ⟨seg, hseg, -⟩ := passes_skipTrivia c
      exact .before (hseg.trans (passes_next (ne_eof_of_kind hk (by decide)))) (ihchild.append ih)
  | type hp _ _ ih => exact .cons (.refl _) hp ih
  | @group _ _ _ c _ _ _ _ hk _ hp hg _ ih =>
      obtain ⟨seg, hseg, -⟩ := passes_skipTrivia c
      exact .before ((hseg.trans (passes_next (ne_eof_of_kind hk (by decide)))).trans
        (passes_next (ne_eof_of_kind hp (by decide)))) (hg.chain.append ih)
  | @consts _ _ _ c _ _ _ _ hk _ _ hr _ ih =>
      obtain ⟨seg, hseg, -⟩ := passes_skipTrivia c
      obtain ⟨seg', hseg'⟩ := ConstSpec.readDecl_passes hk hr
      exact .before (hseg.trans hseg') ih
  | @literal _ _ _ c _ _ _ hk _ _ hr _ ih =>
      obtain ⟨seg, hseg, -⟩ := passes_skipTrivia c
      obtain ⟨seg', last, hseg', -⟩ := skipBalanced_eq_ok hr
      exact .before ((hseg.trans (passes_next (ne_eof_of_kind hk (by decide)))).trans hseg') ih
  | @other _ _ _ c _ _ hk _ _ ih =>
      obtain ⟨seg, hseg, -⟩ := passes_skipTrivia c
      exact .before (hseg.trans (passes_next fun he => hk (by rw [he]; decide))) ih

/-- The declarations that are read are added to those of the block. -/
theorem Walks.perm {log : List Place} (h : Walks s nested b c b' d log) :
    b'.allSpecs.Perm (b.allSpecs ++ log.map Place.spec) := by
  have addSpecs (b : Block) (new : List TypeSpec) :
      ({ b with specs := b.specs ++ new } : Block).allSpecs.Perm (b.allSpecs ++ new) := by
    rw [allSpecs_eq, allSpecs_eq, List.append_assoc, List.append_assoc]
    exact List.perm_append_comm.append_left _
  induction h with
  | finish => simp
  | close => simp [allSpecs_eq]
  | @nest _ b child _ _ _ _ log log' _ _ _ ihchild ih =>
      have hall : ({ b with blocks := b.blocks ++ [child] } : Block).allSpecs =
          b.allSpecs ++ child.allSpecs := by
        rw [allSpecs_eq, allSpecs_eq, allSpecsIn_append, List.append_assoc, allSpecsIn, allSpecsIn,
          List.append_nil]
      have hempty (span : Span) : ({ span } : Block).allSpecs = [] := by
        rw [allSpecs_eq]
        rfl
      rw [hall] at ih
      rw [hempty, List.nil_append] at ihchild
      rw [List.map_append, ← List.append_assoc]
      exact ih.trans ((ihchild.append_left _).append_right _)
  | @type _ b _ p _ log _ _ _ ih =>
      have := ih.trans ((addSpecs b [p.spec]).append_right _)
      rwa [List.append_assoc] at this
  | @group _ b _ _ _ _ log log' _ _ _ _ _ ih =>
      have := ih.trans ((addSpecs b (log.map Place.spec)).append_right _)
      rwa [List.append_assoc, ← List.map_append] at this
  | consts _ _ _ _ _ ih => simpa [allSpecs_eq] using ih
  | literal _ _ _ _ _ ih => exact ih
  | other _ _ _ ih => exact ih

end Block

end StructLayout
