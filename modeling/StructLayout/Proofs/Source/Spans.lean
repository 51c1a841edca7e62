import StructLayout.Proofs.Source.Lines
import StructLayout.Proofs.Source.Readers
import StructLayout.Source.File

/-!
The bytes of declarations. The docs of a declaration start behind everything that was read as part
of an earlier one, so the spans of all declarations of a file are apart from each other.
-/

namespace StructLayout

open Token Text

/-- A place between two characters. -/
def Text.Boundary (cs : List Char) (n : Nat) : Prop :=
  ∃ front rest, cs = front ++ rest ∧ byteLen front = n

theorem Text.Boundary.le {cs : List Char} {n : Nat} (h : Boundary cs n) : n ≤ byteLen cs := by
  obtain ⟨front, rest, rfl, rfl⟩ := h
  rw [byteLen_append]
  exact Nat.le_add_right _ _

/-- A token that is no line break was read last, not counting comments behind it. -/
inductive Shut : List Token → Prop
  | token {t : Token} {ts : List Token} (hl : t.kind ≠ .lineBreak) (hc : t.kind ≠ .comment) :
      Shut (t :: ts)
  | comment {t : Token} {ts : List Token} (hc : t.kind = .comment) (h : Shut ts) : Shut (t :: ts)

theorem Shut.cons {ts : List Token} (h : Shut ts) :
    ∃ t us, ts = t :: us ∧ t.kind ≠ .lineBreak := by
  cases h with
  | token hl => exact ⟨_, _, rfl, hl⟩
  | comment hc => exact ⟨_, _, rfl, by rw [hc]; decide⟩

theorem Shut.append {cs ts : List Token} (h : Shut ts)
    (hc : ∀ l ∈ cs.map Token.lexeme, l.kind = .comment) : Shut (cs ++ ts) := by
  induction cs with
  | nil => exact h
  | cons c cs ih =>
      obtain ⟨hk, hc⟩ := List.forall_mem_cons.mp hc
      exact .comment hk (ih hc)

/-- The docs of a declaration come behind a line break that comes behind all that was read as part
of an earlier one. -/
theorem docTokens_eq {back : List Token} (hb : Shut back) (mid : List Token) :
    docTokens (mid ++ back) = [] ∨ ∃ first docs, docTokens (mid ++ back) = first :: docs ∧
      ∃ post pre br, mid = post ++ first :: br :: pre ∧ br.kind = .lineBreak ∧
        docTokens (br :: (pre ++ back)) = [] := by
  match mid with
  | [] =>
      left
      obtain ⟨t, ts, rfl, hk⟩ := hb.cons
      unfold docTokens
      split
      · rename_i heq
        cases heq
        rw [if_neg fun h => hk h.1]
      · rfl
  | [x] =>
      left
      cases hb with
      | token hl hc =>
          rw [List.singleton_append, docTokens, if_neg fun h => hc h.2.1]
      | comment hc hb =>
          obtain ⟨t, ts, rfl, hk⟩ := hb.cons
          rw [List.singleton_append, docTokens, if_neg fun h => hk (by simpa using h.2.2)]
  | x :: y :: mid =>
      rw [List.cons_append, List.cons_append, docTokens]
      split
      · rename_i h
        right
        rcases docTokens_eq hb mid with hd | ⟨first, docs, hd, post, pre, br, rfl, hk, hnone⟩
        · cases mid with
          | nil =>
              obtain ⟨t, ts, rfl, hk⟩ := hb.cons
              exact absurd h.2.2 (by simpa using hk)
          | cons br mid =>
              exact ⟨y, [], by rw [hd]; rfl, [x], mid, br, rfl, by simpa using h.2.2, hd⟩
        · exact ⟨first, docs ++ [y], by rw [hd]; rfl, x :: y :: post, pre, br, rfl, hk, hnone⟩
      · exact .inl rfl

namespace Cursor

variable {s : SourceText} {c d : Cursor} {p q : Nat}

/-- The cursor stands between the tokens of the text. -/
def Over (s : SourceText) (c : Cursor) : Prop :=
  Tile 0 s.chars (c.before.reverse ++ c.ahead)

/-- Everything up to a byte was read as part of an earlier declaration. -/
def Past (p : Nat) (c : Cursor) : Prop :=
  ∃ mid t back, c.before = mid ++ t :: back ∧ Shut (t :: back) ∧ p ≤ t.stop

theorem Settled.shut (h : c.Settled) : Shut c.before := by
  obtain ⟨t, ts, hb, hk⟩ := h
  rw [hb]
  exact .token (fun h => by simp [h, closers] at hk) (fun h => by simp [h, closers] at hk)

theorem Over.passes {seg : List Token} (h : Over s c) (hp : c.Passes seg d) : Over s d := by
  unfold Over
  rw [hp.before, List.reverse_append, List.reverse_reverse, List.append_assoc, ← hp.ahead]
  exact h

theorem Past.passes {seg : List Token} (h : c.Past p) (hp : c.Passes seg d) : d.Past p := by
  obtain ⟨mid, t, back, hb, hs, hle⟩ := h
  exact ⟨seg.reverse ++ mid, t, back, by rw [hp.before, hb, List.append_assoc], hs, hle⟩

theorem past_of_shut (h : Shut c.before) : c.Past c.lastStop := by
  obtain ⟨t, ts, hb, -⟩ := h.cons
  rw [hb] at h
  exact ⟨[], t, ts, hb, h, Nat.le_of_eq (by rw [lastStop, hb]; rfl)⟩

/-- The text in front of a cursor and the tokens behind it. -/
theorem Over.split (h : Over s c) :
    ∃ front rest, s.chars = front ++ rest ∧ byteLen front = c.lastStop ∧
      Tile c.lastStop rest c.ahead := by
  obtain ⟨front, rest, hs, ht, hl⟩ := h.append_inv
  rw [Nat.zero_add] at ht hl
  have : byteLen front = c.lastStop := by
    rw [hl, List.getLast?_reverse]
    rfl
  exact ⟨front, rest, hs, this, this ▸ ht⟩

theorem Over.boundary (h : Over s c) : Boundary s.chars c.lastStop := by
  obtain ⟨front, rest, hs, hl, -⟩ := h.split
  exact ⟨front, rest, hs, hl⟩

theorem Over.token (h : Over s c) (hk : c.kind ≠ .eof) :
    c.lastStop ≤ c.token.start ∧ c.token.start < c.token.stop ∧
      Boundary s.chars c.token.start := by
  obtain ⟨front, rest, hs, hl, ht⟩ := h.split
  rw [(passes_next hk).ahead] at ht
  obtain ⟨gap, body, rest, rfl, -, hstart, hheads, -⟩ := ht.cons_inv
  refine ⟨by omega, hheads.start_lt_stop, front ++ gap, body, by simp [hs], ?_⟩
  rw [byteLen_append, hl, hstart]

theorem lastStop_next (h : c.kind ≠ .eof) : c.next.lastStop = c.token.stop := by
  rw [lastStop, (passes_next h).before]
  rfl

theorem lastStop_passes {seg : List Token} (hp : c.Passes seg d) :
    d.lastStop = (seg.getLast?.map Token.stop).getD c.lastStop := by
  rw [lastStop, hp.before, List.head?_append, List.head?_reverse]
  cases seg.getLast? <;> rfl

theorem Over.lastStop_le {seg : List Token} (h : Over s c) (hp : c.Passes seg d) :
    c.lastStop ≤ d.lastStop := by
  obtain ⟨front, rest, -, hl, ht⟩ := h.split
  rw [hp.ahead] at ht
  obtain ⟨front', rest', -, -, hl'⟩ := ht.append_inv
  have hd := lastStop_passes hp
  omega

/-- Behind a token that was read, everything is behind its end. -/
theorem Over.stop_le {seg : List Token} (h : Over s c) (hk : c.kind ≠ .eof) (hp : c.Passes seg d)
    (hne : seg ≠ []) : c.token.stop ≤ d.lastStop := by
  have hn := passes_next hk
  cases seg with
  | nil => exact absurd rfl hne
  | cons t seg =>
      have ha : c.token :: c.next.ahead = t :: (seg ++ d.ahead) := hn.ahead.symm.trans hp.ahead
      obtain ⟨ht, ha⟩ := List.cons.inj ha
      have hd : c.next.Passes seg d :=
        ⟨ha, by rw [hp.before, hn.before, ht]; simp, hp.stop.trans hn.stop.symm⟩
      exact lastStop_next hk ▸ (h.passes hn).lastStop_le hd

theorem Past.le_lastStop (h : c.Past p) (ho : Over s c) : p ≤ c.lastStop := by
  obtain ⟨mid, t, back, hb, -, hle⟩ := h
  let start : Cursor := { before := t :: back, ahead := mid.reverse ++ c.ahead, stop := c.stop }
  have hp : start.Passes mid.reverse c := ⟨rfl, by rw [hb, List.reverse_reverse], rfl⟩
  have hs : Over s start := by
    unfold Over at ho ⊢
    rw [hb] at ho
    simpa [start] using ho
  exact Nat.le_trans hle (hs.lastStop_le hp)

/-- Where the declaration at a cursor starts, with its docs and without them. -/
theorem Over.declStart {u : Token} {back : List Token} (h : Over s c) (hb : c.before = u :: back)
    (hk : c.kind ≠ .eof) (hl : c.kind ≠ .lineBreak) :
    c.lastStop ≤ s.declStart c.token.start ∧ s.declStart c.token.start ≤ c.token.start ∧
      Boundary s.chars (s.declStart c.token.start) := by
  obtain ⟨hle, -, hbound⟩ := h.token hk
  have htile : Tile 0 s.chars (back.reverse ++ u :: c.token :: c.next.ahead) := by
    have := h
    rw [Over, hb, (passes_next hk).ahead] at this
    simpa using this
  have hstop : c.lastStop = u.stop := by rw [lastStop, hb]; rfl
  rcases s.declStart_eq htile hl with he | he
  · rw [he, ← hstop]
    exact ⟨Nat.le_refl _, hle, h.boundary⟩
  · rw [he]
    exact ⟨hle, Nat.le_refl _, hbound⟩

theorem Over.docStart {first : Token} {docs : List Token} (h : Over s c) (hp : c.Past p)
    (hd : docTokens c.before = first :: docs) :
    p ≤ s.lineStart first.start ∧ s.lineStart first.start ≤ c.lastStop ∧
      Boundary s.chars (s.lineStart first.start) := by
  obtain ⟨mid, t, back, hb, hs, hle⟩ := hp
  rw [hb] at hd
  rcases docTokens_eq hs mid with hd' | ⟨first', docs', hd', post, pre, br, rfl, hk, -⟩
  · rw [hd'] at hd
    cases hd
  · rw [hd'] at hd
    cases hd
    -- the place between the line break and the first of the docs
    let top : Cursor :=
      ⟨br :: (pre ++ t :: back), first :: (post.reverse ++ c.ahead), c.stop⟩
    have htop : top.Passes (first :: post.reverse) c := ⟨rfl, by simp [hb, top], rfl⟩
    have hover : Over s top := by
      unfold Over at h ⊢
      rw [hb] at h
      simpa [top] using h
    have htile : Tile 0 s.chars
        ((pre ++ t :: back).reverse ++ br :: first :: (post.reverse ++ c.ahead)) := by
      have := hover
      simpa [Over, top] using this
    have hline : s.lineStart first.start = top.lastStop := s.lineStart_of_lineBreak htile hk
    have hpast : top.Past p := ⟨br :: pre, t, back, rfl, hs, hle⟩
    rw [hline]
    exact ⟨hpast.le_lastStop hover, hover.lastStop_le htop, hover.boundary⟩

end Cursor

namespace TypeSpec

open Cursor Lexeme

variable {s : SourceText} {p : Nat}

def spans (t : TypeSpec) : List Span :=
  [t.docSpan, t.tySpan, t.commentSpan]

/-- The spans of a declaration follow one another and end between characters; the one of the type
is not empty. -/
structure Placed (cs : List Char) (t : TypeSpec) : Prop where
  doc : t.docSpan.start ≤ t.docSpan.stop
  doc_ty : t.docSpan.stop ≤ t.tySpan.start
  ty : t.tySpan.start < t.tySpan.stop
  ty_comment : t.tySpan.stop ≤ t.commentSpan.start
  comment : t.commentSpan.start ≤ t.commentSpan.stop
  boundary : ∀ span ∈ t.spans, Boundary cs span.start ∧ Boundary cs span.stop

theorem skipTypeParams_eq_ok {c : Cursor} {r : Bool × c.From} (h : c.skipTypeParams s = .ok r) :
    ∃ seg, c.Passes seg r.2.1 := by
  unfold skipTypeParams at h
  split at h
  · obtain ⟨d, hb, h⟩ := bind_eq_ok.mp h
    cases h
    obtain ⟨seg, last, hp, -⟩ := skipBalanced_eq_ok hb
    exact ⟨_, hp⟩
  · cases h
    exact ⟨[], .refl c⟩

theorem skipAssign_spec (c : Cursor) : ∃ seg, c.Passes seg c.skipAssign.2.1 := by
  unfold skipAssign
  split
  · rename_i hk
    exact ⟨_, passes_next (by rw [hk]; decide)⟩
  · exact ⟨[], .refl c⟩

/-- The parts of a declaration: its name, parameters and sign, its type, and the comments. -/
theorem read_eq_ok {anchor c : Cursor} {t : TypeSpec} {d : c.After}
    (h : read s anchor c = .ok (t, d)) :
    ∃ name f g head comments, c.Passes (name :: head) f ∧ name.kind = .ident ∧
      TypeExpr.Reads f t.ty g ∧ g.ahead.length < f.ahead.length ∧ g.Passes comments d.1 ∧
      (∀ l ∈ comments.map Token.lexeme, l.kind = .comment) ∧
      t.name = name.text ∧ t.pos = s.info.pos name.start ∧
      t.comment = comments.map Token.text ∧ t.tySpan = ⟨f.token.start, g.lastStop⟩ ∧
      t.commentSpan = ⟨g.lastStop, d.1.lastStop⟩ ∧
      t.docSpan = ⟨((docTokens anchor.before).head?.map fun t => s.lineStart t.start).getD
        (s.declStart anchor.token.start), s.declStart anchor.token.start⟩ := by
  unfold read at h
  obtain ⟨⟨name, d₁, hd₁⟩, hname, h⟩ := bind_eq_ok.mp h
  obtain ⟨⟨isGeneric, e, he⟩, hparams, h⟩ := bind_eq_ok.mp h
  dsimp only at h
  obtain ⟨seg₂, hp₂⟩ := skipAssign_spec e
  generalize e.skipAssign = assign at h hp₂
  obtain ⟨isAlias, f, hf⟩ := assign
  dsimp only at h
  obtain ⟨⟨ty, g, hg⟩, hty, h⟩ := bind_eq_ok.mp h
  obtain ⟨hp₀, hkind⟩ := expect_eq_ok hname
  obtain ⟨seg₁, hp₁⟩ := skipTypeParams_eq_ok hparams
  obtain ⟨hp₃, hcomments⟩ := passes_run .comment g
  have hlast : ((g.run .comment).getLast?.map Token.stop).getD g.lastStop =
      g.skipComments.1.lastStop := by
    show _ = (g.skip [.comment]).lastStop
    rw [lastStop_passes hp₃]
  cases h
  exact ⟨name, f, g, _, _, (hp₀.trans hp₁).trans hp₂, hkind, TypeExpr.read_sound hty, hg,
    hp₃, hcomments, rfl, rfl, rfl, rfl, by rw [← hlast], rfl⟩

/-- A declaration is placed behind everything that was read as part of an earlier one, and so is
what comes after it. -/
theorem read_placed {anchor c : Cursor} {t : TypeSpec} {d : c.After} {seg : List Token}
    (ho : Over s anchor) (hp : anchor.Past p) (hk : anchor.kind ≠ .eof)
    (hl : anchor.kind ≠ .lineBreak) (hc : anchor.Passes seg c)
    (h : read s anchor c = .ok (t, d)) :
    t.Placed s.chars ∧ p ≤ t.docSpan.start ∧ t.commentSpan.stop = d.1.lastStop ∧
      Shut d.1.before ∧ ∃ seg, c.Passes seg d.1 := by
  obtain ⟨name, f, g, head, comments, hhead, -, ⟨ty, hty, htypes, hsettled⟩, hlt,
    hcomments, hkinds, -, -, -, htySpan, hcommentSpan, hdocSpan⟩ := read_eq_ok h
  have hf : Over s f := ho.passes (hc.trans hhead)
  have hg : Over s g := hf.passes hty
  have hd : Over s d.1 := hg.passes hcomments
  have hfk : f.kind ≠ .eof := by
    intro he
    have := htypes.headKind
    rw [← kind_eq, he] at this
    simp at this
  have hne : ty ≠ [] := by
    rintro rfl
    rw [hty.ahead] at hlt
    exact Nat.lt_irrefl _ hlt
  obtain ⟨u, us, hu⟩ : ∃ u us, anchor.before = u :: us := by
    obtain ⟨mid, u, us, hu, -⟩ := hp
    rw [hu]
    cases mid <;> exact ⟨_, _, rfl⟩
  obtain ⟨hdl, hdr, hdb⟩ := ho.declStart hu hk hl
  obtain ⟨hfl, hfs, hfb⟩ := hf.token hfk
  have hanchor : anchor.token.start ≤ f.token.start := by
    have h₁ := ho.stop_le hk (hc.trans hhead) (by simp)
    have h₂ := (ho.token hk).2.1
    omega
  have htyp : f.token.stop ≤ g.lastStop := hf.stop_le hfk hty hne
  have hdoc : p ≤ t.docSpan.start ∧ t.docSpan.start ≤ t.docSpan.stop ∧
      Boundary s.chars t.docSpan.start := by
    rw [hdocSpan]
    cases hdocs : docTokens anchor.before with
    | nil => exact ⟨Nat.le_trans (hp.le_lastStop ho) hdl, Nat.le_refl _, hdb⟩
    | cons first docs =>
        obtain ⟨h₁, h₂, h₃⟩ := ho.docStart hp hdocs
        exact ⟨h₁, Nat.le_trans h₂ hdl, h₃⟩
  have hshut : Shut d.1.before := by
    rw [hcomments.before]
    refine hsettled.shut.append fun l hl => hkinds l ?_
    simpa using hl
  refine ⟨⟨hdoc.2.1, ?_, ?_, ?_, ?_, ?_⟩, hdoc.1, by rw [hcommentSpan], hshut, _,
    hhead.trans (hty.trans hcomments)⟩
  · rw [hdocSpan, htySpan]
    exact Nat.le_trans hdr hanchor
  · rw [htySpan]
    exact Nat.lt_of_lt_of_le hfs htyp
  · exact Nat.le_of_eq (by rw [htySpan, hcommentSpan])
  · rw [hcommentSpan]
    exact hg.lastStop_le hcomments
  · intro span hspan
    simp only [spans, List.mem_cons, List.not_mem_nil, or_false] at hspan
    rcases hspan with rfl | rfl | rfl
    · exact ⟨hdoc.2.2, by rw [hdocSpan]; exact hdb⟩
    · rw [htySpan]
      exact ⟨hfb, hg.boundary⟩
    · rw [hcommentSpan]
      exact ⟨hg.boundary, hd.boundary⟩

theorem Placed.lt {cs : List Char} {t : TypeSpec} (h : t.Placed cs) :
    t.docSpan.start < t.commentSpan.stop :=
  calc t.docSpan.start ≤ t.docSpan.stop := h.doc
    _ ≤ t.tySpan.start := h.doc_ty
    _ < t.tySpan.stop := h.ty
    _ ≤ t.commentSpan.start := h.ty_comment
    _ ≤ t.commentSpan.stop := h.comment

/-- Declarations in the order of the text, between two bytes. -/
structure Row (cs : List Char) (p q : Nat) (ts : List TypeSpec) : Prop where
  le : p ≤ q
  placed : ∀ t ∈ ts, t.Placed cs ∧ p ≤ t.docSpan.start ∧ t.commentSpan.stop ≤ q
  order : ts.Pairwise fun a b => a.commentSpan.stop ≤ b.docSpan.start

theorem Row.nil {cs : List Char} : Row cs p p [] :=
  ⟨Nat.le_refl p, by simp, .nil⟩

theorem Row.cons {cs : List Char} {q r : Nat} {t : TypeSpec} {ts : List TypeSpec}
    (ht : t.Placed cs) (hp : p ≤ t.docSpan.start) (hq : t.commentSpan.stop = q)
    (h : Row cs q r ts) : Row cs p r (t :: ts) where
  le := Nat.le_trans (Nat.le_of_lt (Nat.lt_of_le_of_lt hp (hq ▸ ht.lt))) h.le
  placed := by
    have hle : p ≤ q := Nat.le_of_lt (Nat.lt_of_le_of_lt hp (hq ▸ ht.lt))
    refine List.forall_mem_cons.mpr ⟨⟨ht, hp, hq ▸ h.le⟩, fun u hu => ?_⟩
    obtain ⟨hu, hl, hr⟩ := h.placed u hu
    exact ⟨hu, Nat.le_trans hle hl, hr⟩
  order := List.pairwise_cons.mpr ⟨fun u hu => hq ▸ (h.placed u hu).2.1, h.order⟩

theorem skipTrivia_kinds (c : Cursor) :
    ∃ seg, c.Passes seg c.skipTrivia ∧ c.skipTrivia.kind ≠ .lineBreak := by
  obtain ⟨seg, -, hp, -⟩ := passes_skip [.lineBreak, .comment, .semicolon] c
  exact ⟨seg, hp, c.skipTrivia_kind.1⟩

theorem readGroup_row {c : Cursor} {ts : List TypeSpec} {d : c.From} (ho : Over s c)
    (hp : c.Past p) (h : readGroup s c = .ok (ts, d)) :
    ∃ seg q, c.Passes seg d.1 ∧ Row s.chars p q ts ∧ d.1.Past q := by
  obtain ⟨n, hn⟩ : ∃ n, c.ahead.length < n := ⟨_, Nat.lt_succ_self _⟩
  induction n generalizing c ts d p with
  | zero => exact absurd hn (Nat.not_lt_zero _)
  | succ n ih =>
      obtain ⟨seg, hseg, hl⟩ := skipTrivia_kinds c
      have ho' := ho.passes hseg
      have hp' := hp.passes hseg
      have hle : c.skipTrivia.ahead.length ≤ c.ahead.length := c.skip_le _
      unfold readGroup at h
      dsimp only at h
      split at h
      · rename_i hk
        cases h
        have hn := passes_next (c := c.skipTrivia) (by rw [hk]; decide)
        exact ⟨_, p, hseg.trans hn, .nil, hp'.passes hn⟩
      · cases h
      · rename_i hk he
        obtain ⟨⟨t, f, hf⟩, ht, h⟩ := bind_eq_ok.mp h
        obtain ⟨⟨ts, g, hg⟩, hts, h⟩ := bind_eq_ok.mp h
        cases h
        obtain ⟨hplaced, hdoc, hstop, hshut, seg', hpass⟩ :=
          read_placed ho' hp' he hl (.refl c.skipTrivia) ht
        obtain ⟨seg'', q, hpass', hrow, hpast⟩ :=
          ih (ho'.passes hpass) (past_of_shut hshut) hts
            (Nat.lt_of_lt_of_le hf (Nat.le_trans hle (Nat.le_of_lt_succ hn)))
        exact ⟨_, q, (hseg.trans hpass).trans hpass', .cons hplaced hdoc hstop hrow, hpast⟩

theorem readDecl_row {c : Cursor} {ts : List TypeSpec} {d : c.next.From} (ho : Over s c)
    (hp : c.Past p) (hk : c.kind = .ident) (h : readDecl s c = .ok (ts, d)) :
    ∃ seg q, c.Passes seg d.1 ∧ Row s.chars p q ts ∧ d.1.Past q := by
  have hnext := passes_next (c := c) (by rw [hk]; decide)
  unfold readDecl at h
  split at h
  · rename_i hparen
    obtain ⟨⟨ts, e, he⟩, hts, h⟩ := bind_eq_ok.mp h
    cases h
    have hopen := hnext.trans (passes_next (c := c.next) (by rw [hparen]; decide))
    obtain ⟨seg, q, hpass, hrow, hpast⟩ := readGroup_row (ho.passes hopen) (hp.passes hopen) hts
    exact ⟨_, q, hopen.trans hpass, hrow, hpast⟩
  · obtain ⟨⟨t, e⟩, ht, h⟩ := bind_eq_ok.mp h
    cases h
    obtain ⟨hplaced, hdoc, hstop, hshut, seg, hpass⟩ :=
      read_placed ho hp (by rw [hk]; decide) (by rw [hk]; decide) hnext ht
    exact ⟨_, _, hnext.trans hpass, .cons hplaced hdoc hstop .nil, past_of_shut hshut⟩

end TypeSpec

namespace ConstSpec

open Cursor

theorem splitTokens_append (grouped : Bool) (depth : Nat) (ts : List Token) :
    (splitTokens grouped depth ts).1 ++ (splitTokens grouped depth ts).2 = ts := by
  induction ts generalizing depth with
  | nil => rfl
  | cons t ts ih =>
      unfold splitTokens
      dsimp only
      split <;> (try split) <;> first | rfl | exact congrArg (t :: ·) (ih _)

theorem read_passes (grouped : Bool) (c : Cursor) :
    ∃ seg, c.Passes seg (read grouped c).2.1 :=
  ⟨_, (splitTokens_append grouped 0 c.ahead).symm, rfl, rfl⟩

theorem readGroup_passes {s : SourceText} {c : Cursor} {cs : List ConstSpec} {d : c.From}
    (h : readGroup s c = .ok (cs, d)) : ∃ seg, c.Passes seg d.1 := by
  obtain ⟨n, hn⟩ : ∃ n, c.ahead.length < n := ⟨_, Nat.lt_succ_self _⟩
  induction n generalizing c cs d with
  | zero => exact absurd hn (Nat.not_lt_zero _)
  | succ n ih =>
      obtain ⟨seg, hseg, -⟩ := TypeSpec.skipTrivia_kinds c
      have hkinds := c.skipTrivia_kind
      have hle : c.skipTrivia.ahead.length ≤ c.ahead.length := c.skip_le _
      unfold readGroup at h
      dsimp only at h
      split at h
      · rename_i hk
        cases h
        exact ⟨_, hseg.trans (passes_next (by rw [hk]; decide))⟩
      · rename_i hk
        split at h
        · cases h
        · rename_i he
          split at h
          · cases h
          · rename_i cs' f hr
            cases h
            obtain ⟨seg', hpass⟩ := read_passes true c.skipTrivia
            have hlt : (read true c.skipTrivia).2.1.ahead.length < c.skipTrivia.ahead.length :=
              read_lt hk he hkinds
            obtain ⟨seg'', hpass'⟩ :=
              ih hr (Nat.lt_of_lt_of_le hlt (Nat.le_trans hle (Nat.le_of_lt_succ hn)))
            exact ⟨_, (hseg.trans hpass).trans hpass'⟩

theorem readDecl_passes {s : SourceText} {c : Cursor} {cs : List ConstSpec} {d : c.next.From}
    (hk : c.kind = .ident) (h : readDecl s c = .ok (cs, d)) : ∃ seg, c.Passes seg d.1 := by
  have hnext := passes_next (c := c) (by rw [hk]; decide)
  unfold readDecl at h
  split at h
  · rename_i hparen
    split at h
    · cases h
    · rename_i cs' e hr
      cases h
      obtain ⟨seg, hpass⟩ := readGroup_passes hr
      exact ⟨_, (hnext.trans (passes_next (by rw [hparen]; decide))).trans hpass⟩
  · cases h
    obtain ⟨seg, hpass⟩ := read_passes false c.next
    exact ⟨_, hnext.trans hpass⟩

end ConstSpec

end StructLayout
