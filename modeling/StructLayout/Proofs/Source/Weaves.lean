import StructLayout.Proofs.Source.Walks

/-!
Two lists of tokens that differ in their declarations only. What is read of one is read of the other, if
each declaration is read again.
-/

namespace StructLayout

open Token

/-! ## Constants -/

namespace ConstSpec

open Cursor

variable {s s' : SourceText} {c c' d : Cursor} {ls : List Lexeme}

theorem lexeme_cons_inv {ts : List Token} {l : Lexeme} (h : ts.map Token.lexeme = l :: ls) :
    ∃ t us, ts = t :: us ∧ t.lexeme = l ∧ us.map Token.lexeme = ls := by
  obtain ⟨t, us, rfl, hl, hu⟩ := List.map_eq_cons_iff.mp h
  exact ⟨t, us, rfl, hl, hu⟩

/-- Where a declaration ends is decided by its own tokens and the next one. -/
theorem splitTokens_lexemes {grouped : Bool} {depth : Nat} {ts ts' : List Token}
    (hl : ts'.map Token.lexeme = (splitTokens grouped depth ts).1.map Token.lexeme ++ ls)
    (hh : ls.head? = ((splitTokens grouped depth ts).2.map Token.lexeme).head?) :
    (splitTokens grouped depth ts').1.map Token.lexeme =
        (splitTokens grouped depth ts).1.map Token.lexeme ∧
      (splitTokens grouped depth ts').2.map Token.lexeme = ls := by
  induction ts generalizing depth ts' with
  | nil =>
      obtain rfl : ls = [] := List.head?_eq_none_iff.mp hh
      obtain rfl : ts' = [] := List.map_eq_nil_iff.mp hl
      exact ⟨rfl, rfl⟩
  | cons t ts ih =>
      rw [splitTokens_cons] at hl hh ⊢
      by_cases hs : stops grouped depth t.kind = true
      · rw [if_pos hs] at hl hh ⊢
        obtain ⟨rest, rfl⟩ := List.head?_eq_some_iff.mp hh
        obtain ⟨t', us, rfl, ht, hu⟩ := lexeme_cons_inv hl
        have hk : t'.kind = t.kind := congrArg Lexeme.kind ht
        rw [splitTokens_cons, hk, if_pos hs]
        exact ⟨rfl, hl⟩
      · rw [if_neg hs] at hl hh ⊢
        obtain ⟨t', us, rfl, ht, hu⟩ := lexeme_cons_inv hl
        have hk : t'.kind = t.kind := congrArg Lexeme.kind ht
        obtain ⟨h₁, h₂⟩ := ih hu hh
        rw [splitTokens_cons, hk, if_neg hs]
        exact ⟨by rw [List.map_cons, List.map_cons, h₁, ht], h₂⟩

theorem map_dropWhile_lexeme (p : TokenKind → Bool) (ts : List Token) :
    (ts.dropWhile fun t => p t.kind).map Token.lexeme =
      (ts.map Token.lexeme).dropWhile fun l => p l.kind := by
  rw [List.dropWhile_map]
  rfl

theorem map_filter_lexeme (p : TokenKind → Bool) (ts : List Token) :
    (ts.filter fun t => p t.kind).map Token.lexeme =
      (ts.map Token.lexeme).filter fun l => p l.kind := by
  rw [List.filter_map]
  rfl

theorem value?_lexemes {ts ts' : List Token} (h : ts'.map Token.lexeme = ts.map Token.lexeme) :
    value? ts' = value? ts := by
  have hd := map_dropWhile_lexeme (· != .assign) ts'
  rw [h, ← map_dropWhile_lexeme (· != .assign) ts] at hd
  unfold value?
  generalize (ts'.dropWhile fun t => t.kind != .assign) = us' at hd
  generalize (ts.dropWhile fun t => t.kind != .assign) = us at hd
  have hlen : us'.length = us.length := by simpa using congrArg List.length hd
  rcases us with - | ⟨t, - | ⟨u, - | ⟨v, us⟩⟩⟩
  · obtain rfl := List.length_eq_zero_iff.mp hlen
    rfl
  · obtain ⟨t', rfl⟩ := List.length_eq_one_iff.mp hlen
    rfl
  · obtain ⟨t', u', rfl⟩ := List.length_eq_two.mp hlen
    obtain ⟨hk, ht⟩ := Lexeme.mk.inj (List.cons.inj (List.cons.inj hd).2).1
    dsimp only
    rw [hk, ht]
  · rcases us' with - | ⟨t', - | ⟨u', - | ⟨v', us'⟩⟩⟩ <;> first | rfl | simp at hlen

theorem ofTokens?_lexemes {ts ts' : List Token} (h : ts'.map Token.lexeme = ts.map Token.lexeme) :
    ofTokens? ts' = ofTokens? ts := by
  have hf := map_filter_lexeme (fun k => k != .comment && k != .lineBreak) ts'
  rw [h, ← map_filter_lexeme (fun k => k != .comment && k != .lineBreak) ts] at hf
  unfold ofTokens?
  generalize (ts'.filter fun t => t.kind != .comment && t.kind != .lineBreak) = us' at hf
  generalize (ts.filter fun t => t.kind != .comment && t.kind != .lineBreak) = us at hf
  cases us with
  | nil =>
      obtain rfl : us' = [] := List.map_eq_nil_iff.mp hf
      rfl
  | cons t us =>
      obtain ⟨t', us', rfl, hl, hu⟩ := lexeme_cons_inv hf
      obtain ⟨hk, ht⟩ := Lexeme.mk.inj hl
      have hhead : (us'.head?.all fun t => t.kind != .comma) =
          us.head?.all fun t => t.kind != .comma := by
        cases us with
        | nil =>
            obtain rfl : us' = [] := List.map_eq_nil_iff.mp hu
            rfl
        | cons u us =>
            obtain ⟨u', us', rfl, hl, -⟩ := lexeme_cons_inv hu
            have hk : u'.kind = u.kind := congrArg Lexeme.kind hl
            simp [hk]
      dsimp only
      rw [hk, ht, hhead, value?_lexemes hf]

theorem read_lexemes {grouped : Bool} {seg : List Token} (hp : c.Passes seg (read grouped c).2.1)
    (hl : c'.lexemes = seg.map Token.lexeme ++ ls)
    (hh : ls.head? = (read grouped c).2.1.lexemes.head?) :
    (read grouped c').1 = (read grouped c).1 ∧ (read grouped c').2.1.lexemes = ls := by
  have hseg : seg = (splitTokens grouped 0 c.ahead).1 :=
    List.append_cancel_right (hp.ahead.symm.trans (splitTokens_append grouped 0 c.ahead).symm)
  rw [hseg] at hl
  obtain ⟨h₁, h₂⟩ := splitTokens_lexemes hl hh
  exact ⟨ofTokens?_lexemes h₁, h₂⟩

end ConstSpec

namespace Cursor

variable {c c' d : Cursor} {ls : List Lexeme} {seg : List Token}

/-- The token ahead, but for its place. -/
theorem token_lexemes (h : c'.lexemes.head? = c.lexemes.head?) :
    c'.kind = c.kind ∧ c'.token.text = c.token.text := by
  unfold kind token peek
  unfold lexemes at h
  cases ha : c.ahead with
  | nil =>
      rw [ha] at h
      have hnil : c'.ahead = [] := List.map_eq_nil_iff.mp (List.head?_eq_none_iff.mp h)
      rw [hnil]
      exact ⟨rfl, rfl⟩
  | cons t ts =>
      rw [ha] at h
      obtain ⟨rest, hrest⟩ := List.head?_eq_some_iff.mp h
      obtain ⟨t', ts', ha', ht, -⟩ := ConstSpec.lexeme_cons_inv hrest
      obtain ⟨hk, htext⟩ := Lexeme.mk.inj ht
      rw [ha']
      exact ⟨hk, htext⟩

theorem skipTrivia_lexemes (hp : c.Passes seg c.skipTrivia)
    (hl : c'.lexemes = seg.map Token.lexeme ++ ls) (hh : ls.head? = c.skipTrivia.lexemes.head?) :
    c'.skipTrivia.lexemes = ls := by
  obtain ⟨seg', -, hp', hk⟩ := passes_skip triviaKinds c
  have hseg : seg = seg' := List.append_cancel_right (hp.ahead.symm.trans hp'.ahead)
  refine skip_lexemes (fun l hl => ?_) ?_ hl
  · obtain ⟨t, ht, rfl⟩ := List.mem_map.mp hl
    exact hk t (hseg ▸ ht)
  · rw [Lexeme.headKind, hh]
    have := c.skipTrivia_not_mem
    rwa [kind_eq] at this

end Cursor

namespace ConstSpec

open Cursor

variable {s s' : SourceText} {c c' d : Cursor} {ls : List Lexeme} {seg : List Token}

theorem readGroup_close (hk : c.skipTrivia.kind = .rparen) :
    ∃ h, readGroup s c = .ok ([], ⟨c.skipTrivia.next, h⟩) := by
  refine ⟨Nat.le_trans (next_le _) (c.skip_le _), ?_⟩
  rw [readGroup]
  exact dif_pos hk

theorem readGroup_cons {cs : List ConstSpec} (hk : c.skipTrivia.kind ≠ .rparen)
    (he : c.skipTrivia.kind ≠ .eof)
    (h : ∃ h, readGroup s (read true c.skipTrivia).2.1 = .ok (cs, ⟨d, h⟩)) :
    ∃ h, readGroup s c = .ok ((read true c.skipTrivia).1.toList ++ cs, ⟨d, h⟩) := by
  obtain ⟨hle, h⟩ := h
  have hskip : c.skipTrivia.ahead.length ≤ c.ahead.length := c.skip_le _
  have hlt : (read true c.skipTrivia).2.1.ahead.length < c.skipTrivia.ahead.length :=
    read_lt hk he c.skipTrivia_kind
  refine ⟨by omega, ?_⟩
  rw [readGroup]
  dsimp only
  rw [dif_neg hk, dif_neg he, h]

theorem head?_append_congr {α : Type} {xs ys zs : List α} (h : ys.head? = zs.head?) :
    (xs ++ ys).head? = (xs ++ zs).head? := by
  cases xs with
  | nil => exact h
  | cons => rfl

variable (s') in
/-- A group ends with its parenthesis. -/
theorem readGroup_lexemes {cs : List ConstSpec} {d : c.From} (h : readGroup s c = .ok (cs, d))
    (hp : c.Passes seg d.1) (hl : c'.lexemes = seg.map Token.lexeme ++ ls)
    (hh : ls.head? = d.1.lexemes.head?) :
    ∃ d', (∃ h, readGroup s' c' = .ok (cs, ⟨d', h⟩)) ∧ d'.lexemes = ls := by
  obtain ⟨n, hn⟩ : ∃ n, c.ahead.length < n := ⟨_, Nat.lt_succ_self _⟩
  induction n generalizing c c' seg cs d with
  | zero => exact absurd hn (Nat.not_lt_zero _)
  | succ n ih =>
      obtain ⟨seg₁, hseg₁, -⟩ := passes_skipTrivia c
      have hkinds := c.skipTrivia_kind
      have hle : c.skipTrivia.ahead.length ≤ c.ahead.length := c.skip_le _
      -- the trivia at the other place
      have trivia {seg₂ : List Token} {d : Cursor} (h₂ : c.skipTrivia.Passes seg₂ d)
          (hp : c.Passes seg d) (hh : ls.head? = d.lexemes.head?) :
          c'.skipTrivia.lexemes = seg₂.map Token.lexeme ++ ls := by
        obtain rfl := List.append_cancel_right (hp.ahead.symm.trans (hseg₁.trans h₂).ahead)
        rw [List.map_append, List.append_assoc] at hl
        refine skipTrivia_lexemes hseg₁ hl ?_
        rw [h₂.lexemes]
        exact head?_append_congr hh
      unfold readGroup at h
      dsimp only at h
      split at h
      · rename_i hk
        cases h
        have hnext := passes_next (c := c.skipTrivia) (by rw [hk]; decide)
        obtain ⟨hk', -, hn'⟩ := lexemes_inv (trivia hnext hp hh) (show c.skipTrivia.kind ≠ .eof by rw [hk]; decide)
        exact ⟨_, readGroup_close (hk'.trans hk), hn'⟩
      · rename_i hk
        split at h
        · cases h
        · rename_i he
          split at h
          · cases h
          · rename_i cs' f hr
            cases h
            obtain ⟨seg₂, hseg₂⟩ := read_passes true c.skipTrivia
            obtain ⟨seg₃, hseg₃⟩ := readGroup_passes hr
            have hlt : (read true c.skipTrivia).2.1.ahead.length < c.skipTrivia.ahead.length :=
              read_lt hk he hkinds
            have hskip := trivia (hseg₂.trans hseg₃) hp hh
            have hhead : c'.skipTrivia.lexemes.head? = c.skipTrivia.lexemes.head? := by
              rw [hskip, (hseg₂.trans hseg₃).lexemes]
              exact head?_append_congr hh
            rw [List.map_append, List.append_assoc] at hskip
            obtain ⟨hone, hrest⟩ := read_lexemes hseg₂ hskip
              (by rw [hseg₃.lexemes]; exact head?_append_congr hh)
            obtain ⟨d', hr', hd'⟩ := ih hr hseg₃ hrest hh
              (Nat.lt_of_lt_of_le hlt (Nat.le_trans hle (Nat.le_of_lt_succ hn)))
            obtain ⟨hkind, -⟩ := token_lexemes hhead
            refine ⟨d', ?_, hd'⟩
            rw [← hone]
            exact readGroup_cons (hkind ▸ hk) (hkind ▸ he) hr'

variable (s') in
theorem readDecl_lexemes {cs : List ConstSpec} {d : c.next.From} (hk : c.kind = .ident)
    (h : readDecl s c = .ok (cs, d)) (hp : c.Passes seg d.1)
    (hl : c'.lexemes = seg.map Token.lexeme ++ ls) (hh : ls.head? = d.1.lexemes.head?) :
    ∃ d', (∃ h, readDecl s' c' = .ok (cs, ⟨d', h⟩)) ∧ d'.lexemes = ls := by
  have hne : c.kind ≠ .eof := by rw [hk]; decide
  have hnext := passes_next hne
  unfold readDecl at h
  split at h
  · rename_i hparen
    have hnep : c.next.kind ≠ .eof := by rw [hparen]; decide
    have hopen := hnext.trans (passes_next hnep)
    split at h
    · cases h
    · rename_i cs' e hr
      cases h
      obtain ⟨seg₁, hp₁⟩ := readGroup_passes hr
      obtain rfl := List.append_cancel_right (hp.ahead.symm.trans (hopen.trans hp₁).ahead)
      obtain ⟨-, -, hn'⟩ := lexemes_inv hl hne
      obtain ⟨hparen', -, hn''⟩ := lexemes_inv hn' hnep
      obtain ⟨d', ⟨hle, hr'⟩, hd'⟩ := readGroup_lexemes s' hr hp₁ hn'' hh
      refine ⟨d', ⟨Nat.le_trans hle (next_le _), ?_⟩, hd'⟩
      rw [readDecl, if_pos (hparen'.trans hparen), hr']
  · rename_i hparen
    cases h
    obtain ⟨seg₁, hp₁⟩ := read_passes false c.next
    obtain rfl := List.append_cancel_right (hp.ahead.symm.trans (hnext.trans hp₁).ahead)
    obtain ⟨-, -, hn'⟩ := lexemes_inv hl hne
    obtain ⟨hone, hrest⟩ := read_lexemes hp₁ hn' hh
    have hhead : c'.next.lexemes.head? = c.next.lexemes.head? := by
      rw [hn', hp₁.lexemes]
      exact head?_append_congr hh
    obtain ⟨hkind, -⟩ := token_lexemes hhead
    refine ⟨_, ⟨(read false c'.next).2.2, ?_⟩, hrest⟩
    rw [readDecl, if_neg (hkind ▸ hparen), ← hone]

end ConstSpec

/-! ## Declarations that are read again -/

namespace Cursor

/-- No parenthesis was read last. -/
def isFree (c : Cursor) : Bool :=
  c.before.head?.all fun t => t.kind != .lparen

theorem isFree_passes {c d : Cursor} {seg : List Token} {t : Token} (hp : c.Passes (seg ++ [t]) d) :
    d.isFree = (t.kind != .lparen) := by
  rw [isFree, hp.before]
  simp

end Cursor

namespace Block

open Cursor

theorem isTypeDecl_eq (c : Cursor) : isTypeDecl c = (c.token.text == "type" && c.isFree) :=
  rfl

/-- Two blocks with related declarations, wherever they stand. -/
inductive Rel (R : TypeSpec → TypeSpec → Prop) : Block → Block → Prop
  | mk {b b' : Block} (specs : List.Forall₂ R b.specs b'.specs) (consts : b'.consts = b.consts)
      (blocks : List.Forall₂ (Rel R) b.blocks b'.blocks) : Rel R b b'

variable {R : TypeSpec → TypeSpec → Prop} {b b' child child' : Block}

theorem Rel.withSpan (h : Rel R b b') (span span' : Span) :
    Rel R { b with span } { b' with span := span' } := by
  obtain ⟨hs, hc, hb⟩ := h
  exact .mk hs hc hb

theorem Rel.addSpecs (h : Rel R b b') {ts ts' : List TypeSpec} (ht : List.Forall₂ R ts ts') :
    Rel R { b with specs := b.specs ++ ts } { b' with specs := b'.specs ++ ts' } := by
  obtain ⟨hs, hc, hb⟩ := h
  exact .mk (List.rel_append hs ht) hc hb

theorem Rel.addConsts (h : Rel R b b') (new : List ConstSpec) :
    Rel R { b with consts := b.consts ++ new } { b' with consts := b'.consts ++ new } := by
  obtain ⟨hs, hc, hb⟩ := h
  exact .mk hs (congrArg (· ++ new) hc) hb

theorem Rel.addBlock (h : Rel R b b') (hchild : Rel R child child') :
    Rel R { b with blocks := b.blocks ++ [child] } { b' with blocks := b'.blocks ++ [child'] } := by
  obtain ⟨hs, hc, hb⟩ := h
  exact .mk hs hc (List.rel_append hb (.cons hchild .nil))

theorem Rel.empty (span span' : Span) : Rel R { span } { span := span' } :=
  .mk .nil rfl .nil

mutual

theorem Rel.allSpecs : (b b' : Block) → Rel R b b' → List.Forall₂ R b.allSpecs b'.allSpecs
  | ⟨_, specs, _, blocks⟩, ⟨_, specs', _, blocks'⟩, h => by
      obtain ⟨hs, -, hb⟩ := h
      rw [Block.allSpecs, Block.allSpecs]
      exact List.rel_append hs (Rel.allSpecsIn blocks blocks' hb)

theorem Rel.allSpecsIn : (bs bs' : List Block) → List.Forall₂ (Rel R) bs bs' →
    List.Forall₂ R (allSpecsIn bs) (allSpecsIn bs')
  | [], [], _ => .nil
  | [], _ :: _, h => by cases h
  | _ :: _, [], h => by cases h
  | b :: bs, b' :: bs', h => by
      obtain ⟨hb, hbs⟩ := List.forall₂_cons.mp h
      rw [Block.allSpecsIn, Block.allSpecsIn]
      exact List.rel_append (Rel.allSpecs b b' hb) (Rel.allSpecsIn bs bs' hbs)

end

theorem map_bare_eq (hR : ∀ t t', R t t' → t'.bare = t.bare) {ts ts' : List TypeSpec}
    (h : List.Forall₂ R ts ts') : ts'.map TypeSpec.bare = ts.map TypeSpec.bare := by
  induction h with
  | nil => rfl
  | cons ht _ ih => rw [List.map_cons, List.map_cons, hR _ _ ht, ih]

mutual

/-- Blocks whose declarations are the same but for their places are the same but for theirs. -/
theorem Rel.bare_eq (hR : ∀ t t', R t t' → t'.bare = t.bare) : (b b' : Block) → Rel R b b' →
    b'.bare = b.bare
  | ⟨_, specs, consts, blocks⟩, ⟨_, specs', consts', blocks'⟩, h => by
      obtain ⟨hs, rfl, hb⟩ := h
      rw [bare, bare, map_bare_eq hR hs, Rel.bareAll_eq hR blocks blocks' hb]

theorem Rel.bareAll_eq (hR : ∀ t t', R t t' → t'.bare = t.bare) : (bs bs' : List Block) →
    List.Forall₂ (Rel R) bs bs' → bareAll bs' = bareAll bs
  | [], [], _ => rfl
  | [], _ :: _, h => by cases h
  | _ :: _, [], h => by cases h
  | b :: bs, b' :: bs', h => by
      obtain ⟨hb, hbs⟩ := List.forall₂_cons.mp h
      rw [bareAll, bareAll, Rel.bare_eq hR b b' hb, Rel.bareAll_eq hR bs bs' hbs]

end

end Block

namespace TypeSpec

open Cursor

variable {s s' : SourceText} {R : TypeSpec → TypeSpec → Prop}

/-- A declaration is read again where other tokens are ahead. -/
structure Place.Again (s' : SourceText) (R : TypeSpec → TypeSpec → Prop) (p : Place)
    (us ts : List Token) : Prop where
  head : (us.map Token.lexeme).head? = p.base.lexemes.head?
  read : ∀ c : Cursor, c.ahead = us → Shut c.before → c.isFree = p.base.isFree →
    ∃ p' : Place, p'.base = c ∧ p'.grouped = p.grouped ∧ p'.IsRead s' ∧ p'.rest.ahead = ts ∧
      R p.spec p'.spec

/-- Tokens that are the same but for their places, and but for declarations that are read again. -/
inductive Weave (s' : SourceText) (R : TypeSpec → TypeSpec → Prop) :
    List Place → List Token → List Token → Prop
  | done {ts ts' : List Token} (h : ts'.map Token.lexeme = ts.map Token.lexeme) :
      Weave s' R [] ts ts'
  | spec {p : Place} {log : List Place} {gap gap' us ts : List Token}
      (hgap : gap'.map Token.lexeme = gap.map Token.lexeme) (hp : p.Again s' R us ts)
      (h : Weave s' R log p.rest.ahead ts) : Weave s' R (p :: log) (gap ++ p.base.ahead) (gap' ++ us)

variable {log : List Place} {ts ts' : List Token} {c c' d d' : Cursor} {seg : List Token}

theorem Weave.head (h : Weave s' R log ts ts') :
    (ts'.map Token.lexeme).head? = (ts.map Token.lexeme).head? := by
  cases h with
  | done h => rw [h]
  | spec hgap hp h =>
      rw [List.map_append, List.map_append, hgap]
      exact ConstSpec.head?_append_congr hp.head

theorem Weave.spec_inv {p : Place} {us : List Token} (h : Weave s' R (p :: log) p.base.ahead us) :
    ∃ ts, p.Again s' R us ts ∧ Weave s' R log p.rest.ahead ts := by
  generalize hall : p.base.ahead = all at h
  cases h with
  | @spec _ _ gap gap' us ts hgap hp h =>
      obtain rfl : gap = [] := by
        have := congrArg List.length hall
        rw [List.length_append] at this
        exact List.length_eq_zero_iff.mp (by omega)
      obtain rfl : gap' = [] := List.map_eq_nil_iff.mp hgap
      exact ⟨ts, hp, h⟩

/-- Tokens in front of the first declaration. -/
theorem Weave.split {seg rest : List Token} (h : Weave s' R log (seg ++ rest) ts')
    (hle : ∀ p ∈ log.head?, p.base.ahead.length ≤ rest.length) :
    ∃ seg' rest', ts' = seg' ++ rest' ∧ seg'.map Token.lexeme = seg.map Token.lexeme ∧
      Weave s' R log rest rest' := by
  generalize hall : seg ++ rest = all at h
  cases h with
  | done h =>
      subst hall
      rw [List.map_append] at h
      obtain ⟨seg', rest', rfl, hseg, hrest⟩ := List.map_eq_append_iff.mp h
      exact ⟨seg', rest', rfl, hseg, .done hrest⟩
  | @spec p log gap gap' us ts hgap hp h =>
      have hle := hle p rfl
      obtain ⟨mid, rfl, rfl⟩ : ∃ mid, gap = seg ++ mid ∧ rest = mid ++ p.base.ahead := by
        rcases List.append_eq_append_iff.mp hall with ⟨mid, h₁, h₂⟩ | ⟨mid, h₁, h₂⟩
        · exact ⟨mid, h₁, h₂⟩
        · have : mid = [] := by
            rw [h₂, List.length_append] at hle
            exact List.length_eq_zero_iff.mp (by omega)
          subst this
          exact ⟨[], by rw [h₁]; simp, by rw [h₂]; rfl⟩
      rw [List.map_append] at hgap
      obtain ⟨seg', mid', rfl, hseg, hmid⟩ := List.map_eq_append_iff.mp hgap
      exact ⟨seg', mid' ++ us, by rw [List.append_assoc], hseg, .spec hmid hp h⟩

/-- Two places with the same ahead of them but for declarations that are read again. -/
structure Mates (s' : SourceText) (R : TypeSpec → TypeSpec → Prop) (log : List Place)
    (c c' : Cursor) : Prop where
  weave : Weave s' R log c.ahead c'.ahead
  free : c'.isFree = c.isFree

theorem Mates.token (h : Mates s' R log c c') : c'.kind = c.kind ∧ c'.token.text = c.token.text :=
  token_lexemes h.weave.head

theorem Chain.base_le {log : List Place} (h : Chain s c log d) :
    ∀ p ∈ log.head?, p.base.ahead.length ≤ c.ahead.length := by
  cases h with
  | nil => intro p hp; cases hp
  | cons hc =>
      rintro p ⟨⟩
      rw [hc.ahead, List.length_append]
      exact Nat.le_add_left _ _

/-- The place behind some tokens of no declaration. -/
theorem Mates.behind (h : Mates s' R log c c') (hp : c.Passes seg d) (hd : Chain s d log e) :
    ∃ ls, c'.lexemes = seg.map Token.lexeme ++ ls ∧ ls.head? = d.lexemes.head? ∧
      ∀ d' seg', c'.Passes seg' d' → d'.lexemes = ls → Mates s' R log d d' := by
  have hweave := h.weave
  rw [hp.ahead] at hweave
  obtain ⟨us, ts, hahead, hus, hw⟩ := hweave.split hd.base_le
  refine ⟨ts.map Token.lexeme, by rw [lexemes, hahead, List.map_append, hus], hw.head,
    fun d' seg' hp' hl => ?_⟩
  obtain ⟨rfl, hts⟩ := hp'.split hahead hl
  refine ⟨hts ▸ hw, ?_⟩
  rcases List.eq_nil_or_concat seg with rfl | ⟨init, last, rfl⟩
  · obtain rfl : seg' = [] := List.map_eq_nil_iff.mp hus
    rw [isFree, isFree, hp.before, hp'.before]
    exact h.free
  · rw [List.concat_eq_append, List.map_append] at hus
    obtain ⟨init', last', rfl, -, hlast⟩ := List.map_eq_append_iff.mp hus
    obtain ⟨t', rfl, ht⟩ := List.map_eq_singleton_iff.mp hlast
    have hk : t'.kind = last.kind := congrArg Lexeme.kind ht
    rw [isFree_passes hp', isFree_passes (List.concat_eq_append ▸ hp), hk]

theorem Mates.next (h : Mates s' R log c c') (he : c.kind ≠ .eof) (hd : Chain s c.next log e) :
    Mates s' R log c.next c'.next := by
  obtain ⟨ls, hl, -, hmates⟩ := h.behind (passes_next he) hd
  obtain ⟨hk, -, hn⟩ := lexemes_inv hl he
  exact hmates _ _ (passes_next (hk ▸ he)) hn

theorem Mates.skipTrivia (h : Mates s' R log c c') (hd : Chain s c.skipTrivia log e) :
    Mates s' R log c.skipTrivia c'.skipTrivia := by
  obtain ⟨seg, hp, -⟩ := passes_skipTrivia c
  obtain ⟨seg', hp', -⟩ := passes_skipTrivia c'
  obtain ⟨ls, hl, hh, hmates⟩ := h.behind hp hd
  exact hmates _ _ hp' (skipTrivia_lexemes hp hl hh)

theorem Mates.skipBalanced {opening closing : TokenKind} {d : c.After} (h : Mates s' R log c c')
    (ho : opening ≠ .eof) (hr : c.skipBalanced s opening closing = .ok d)
    (hd : Chain s d.1 log e) :
    ∃ d' : c'.After, c'.skipBalanced s' opening closing = .ok d' ∧ Mates s' R log d.1 d'.1 := by
  obtain ⟨seg, last, hp, -, hb⟩ := skipBalanced_eq_ok hr
  obtain ⟨ls, hl, -, hmates⟩ := h.behind hp hd
  obtain ⟨segl, hsegl, -, htakes⟩ := hb.takes
  obtain rfl : segl = _ := List.append_cancel_right (hsegl.symm.trans hp.lexemes)
  have hb := htakes ls
  rw [← hl] at hb
  obtain ⟨d', hr', hd'⟩ := skipBalanced_of_balanced (s := s') ho hb
  obtain ⟨_, _, hp', -⟩ := skipBalanced_eq_ok hr'
  exact ⟨d', hr', hmates _ _ hp' hd'⟩

theorem read_free {anchor : Cursor} {t : TypeSpec} {d : c.After} (h : read s anchor c = .ok (t, d)) :
    d.1.isFree = true := by
  obtain ⟨name, f, g, head, comments, -, -, ⟨ty, -, -, u, us, hu, hk⟩, -, hcomments, hkinds, -⟩ :=
    read_eq_ok h
  rw [isFree, hcomments.before, hu]
  rcases List.eq_nil_or_concat comments with rfl | ⟨init, v, rfl⟩
  · simp only [List.reverse_nil, List.nil_append, List.head?_cons, Option.all_some, bne_iff_ne]
    rintro h
    simp [h, closers] at hk
  · have : v.kind = .comment := hkinds v.lexeme (by simp)
    simp [this]

/-- The next declaration is read again. -/
theorem Mates.again {p : Place} (h : Mates s' R (p :: log) p.base c') (hp : p.IsRead s)
    (hc : Calm c') : ∃ p' : Place, p'.base = c' ∧ p'.grouped = p.grouped ∧ p'.IsRead s' ∧
      R p.spec p'.spec ∧ Mates s' R log p.rest p'.rest := by
  obtain ⟨ts, hagain, hw⟩ := h.weave.spec_inv
  have hshut : Shut c'.before := by
    refine hc.resolve_right fun hnil => ?_
    have hhead := hagain.head
    rw [hnil] at hhead
    have hbase : p.base.ahead = [] :=
      List.map_eq_nil_iff.mp (List.head?_eq_none_iff.mp hhead.symm)
    have hk := hp.anchor
    rw [Place.anchor, kind_eq, lexemes, Cursor.skipTrivia, skip, hbase] at hk
    cases hk
  obtain ⟨p', hbase, hgrouped, hp', hahead, hR⟩ := hagain.read c' rfl hshut h.free
  obtain ⟨_, hr⟩ := hp.read
  obtain ⟨_, hr'⟩ := hp'.read
  refine ⟨p', hbase, hgrouped, hp', hR, hahead ▸ hw, ?_⟩
  rw [show p'.rest.isFree = true from read_free hr', show p.rest.isFree = true from read_free hr]

theorem WalksGroup.again (h : WalksGroup s c d log) {more : List Place} (hmore : Chain s d more e)
    (hc : Calm c') (hm : Mates s' R (log ++ more) c c') :
    ∃ d' log', WalksGroup s' c' d' log' ∧
      List.Forall₂ R (log.map Place.spec) (log'.map Place.spec) ∧ Mates s' R more d d' := by
  induction h generalizing c' with
  | @close c hk =>
      have hne : c.skipTrivia.kind ≠ .eof := by rw [hk]; decide
      have ha := hm.skipTrivia (.before (passes_next hne) hmore)
      exact ⟨_, [], .close (ha.token.1.trans hk), .nil, ha.next hne hmore⟩
  | @spec p d log hp hg h ih =>
      obtain ⟨p', rfl, hgrouped, hp', hR, hm'⟩ := hm.again hp hc
      obtain ⟨_, hr'⟩ := hp'.read
      obtain ⟨d', log', h', hall, hmates⟩ := ih hmore (.inl (read_shut hr')) hm'
      exact ⟨d', p' :: log', .spec hp' (hgrouped.trans hg) h', .cons hR hall, hmates⟩

end TypeSpec

namespace Block

open Cursor TypeSpec
open TypeExpr (ne_eof_of_kind)

variable {s s' : SourceText} {R : TypeSpec → TypeSpec → Prop} {nested : Bool} {b b' b₁ : Block}
  {c c' d e : Cursor} {log more : List Place}

theorem IsWord.again (h : IsWord c) (hm : Mates s' R log c c') (hk : c.kind ≠ .eof)
    (hd : Chain s c.next log e) : IsWord c' := by
  obtain ⟨-, htext⟩ := hm.token
  obtain ⟨hnext, -⟩ := (hm.next hk hd).token
  refine ⟨?_, htext ▸ h.const, by rw [htext, hnext]; exact h.literal⟩
  rw [isTypeDecl_eq, htext, hm.free]
  exact h.decl

/-- The rest of a block is read in step with the one that it is the same as but for declarations that
are read again. -/
theorem Walks.again (h : Walks s nested b c b' d log) (hmore : Chain s d more e) (hc : Calm c')
    (hm : Mates s' R (log ++ more) c c') (hb : Rel R b b₁) :
    ∃ b₁' d' log', Walks s' nested b₁ c' b₁' d' log' ∧ Rel R b' b₁' ∧ Mates s' R more d d' := by
  induction h generalizing more e c' b₁ with
  | finish hk =>
      have ha := hm.skipTrivia hmore
      exact ⟨_, _, _, .finish (ha.token.1.trans hk), hb, ha⟩
  | close hk =>
      have hne := ne_eof_of_kind hk (by decide)
      have ha := hm.skipTrivia (.before (passes_next hne) hmore)
      exact ⟨_, _, _, .close (ha.token.1.trans hk), hb.withSpan _ _, ha.next hne hmore⟩
  | nest hk hchild h ihchild ih =>
      have hne := ne_eof_of_kind hk (by decide)
      rw [List.append_assoc] at hm
      have hrest := h.chain.append hmore
      have hall := hchild.chain.append hrest
      have ha := hm.skipTrivia (.before (passes_next hne) hall)
      have hk' := ha.token.1.trans hk
      obtain ⟨child', d', log₁, hwalk, hrel, hmates⟩ := ihchild hrest
        (calm_next (by rw [hk']; decide) (skipTrivia_not_mem _)) (ha.next hne hall)
        (.empty _ _)
      obtain ⟨b₂, e', log₂, hwalk', hrel', hmates'⟩ := ih hmore (hwalk.calm rfl) hmates
        (hb.addBlock hrel)
      exact ⟨_, _, _, .nest hk' hwalk hwalk', hrel', hmates'⟩
  | @type _ b b' p _ log hp hg h ih =>
      obtain ⟨p', rfl, hgrouped, hp', hR, hm'⟩ := hm.again hp hc
      obtain ⟨_, hr'⟩ := hp'.read
      obtain ⟨b₂, e', log', hwalk, hrel, hmates⟩ := ih hmore (.inl (read_shut hr')) hm'
        (hb.addSpecs (.cons hR .nil))
      exact ⟨_, _, _, .type hp' (hgrouped.trans hg) hwalk, hrel, hmates⟩
  | group hk ht hp hg h ih =>
      have hne := ne_eof_of_kind hk (by decide)
      have hnep := ne_eof_of_kind hp (by decide)
      rw [List.append_assoc] at hm
      have hrest := h.chain.append hmore
      have hall := hg.chain.append hrest
      have hopen := Chain.before (passes_next hnep) hall
      have ha := hm.skipTrivia (.before (passes_next hne) hopen)
      have hn := ha.next hne hopen
      have hp' := hn.token.1.trans hp
      obtain ⟨d', log₁, hwalk, hspecs, hmates⟩ := hg.again hrest
        (calm_next (by rw [hp']; decide) (by rw [hp']; decide)) (hn.next hnep hall)
      obtain ⟨b₂, e', log₂, hwalk', hrel, hmates'⟩ := ih hmore hwalk.calm hmates
        (hb.addSpecs hspecs)
      refine ⟨_, _, _, .group (ha.token.1.trans hk) ?_ hp' hwalk hwalk', hrel, hmates'⟩
      rwa [isTypeDecl_eq, ha.token.2, ha.free]
  | consts hk ht hconst hr h ih =>
      have hall := h.chain.append hmore
      obtain ⟨seg, hp⟩ := ConstSpec.readDecl_passes hk hr
      have ha := hm.skipTrivia (.before hp hall)
      obtain ⟨hk', htext⟩ := ha.token
      obtain ⟨ls, hl, hh, hmates⟩ := ha.behind hp hall
      obtain ⟨d', ⟨hle, hr'⟩, hd'⟩ := ConstSpec.readDecl_lexemes s' hk hr hp hl hh
      obtain ⟨seg', hp'⟩ := ConstSpec.readDecl_passes (hk'.trans hk) hr'
      obtain ⟨b₂, e', log', hwalk, hrel, hmates'⟩ := ih hmore
        (ConstSpec.readDecl_calm (hk'.trans hk) hr') (hmates _ _ hp' hd') (hb.addConsts _)
      refine ⟨_, _, _, .consts (hk'.trans hk) ?_ (htext.trans hconst) hr' hwalk, hrel, hmates'⟩
      rwa [isTypeDecl_eq, htext, ha.free]
  | literal hk ht hbrace hr h ih =>
      have hne := ne_eof_of_kind hk (by decide)
      have hall := h.chain.append hmore
      obtain ⟨seg, last, hp, -⟩ := skipBalanced_eq_ok hr
      have hrest := Chain.before hp hall
      have ha := hm.skipTrivia (.before (passes_next hne) hrest)
      have hn := ha.next hne hrest
      obtain ⟨hk', htext⟩ := ha.token
      obtain ⟨d', hr', hmates⟩ := hn.skipBalanced (by decide) hr hall
      obtain ⟨b₂, e', log', hwalk, hrel, hmates'⟩ := ih hmore
        (skipBalanced_calm hr' (by decide)) hmates hb
      exact ⟨_, _, _, .literal (hk'.trans hk) (by rwa [htext]) (hn.token.1.trans hbrace) hr' hwalk,
        hrel, hmates'⟩
  | @other _ _ _ c _ _ hk hw h ih =>
      have hne : c.skipTrivia.kind ≠ .eof := fun he => hk (by rw [he]; decide)
      have hall := h.chain.append hmore
      have ha := hm.skipTrivia (.before (passes_next hne) hall)
      have hk' := ha.token.1
      obtain ⟨b₂, e', log', hwalk, hrel, hmates⟩ := ih hmore
        (calm_next (hk' ▸ hne) (skipTrivia_not_mem _)) (ha.next hne hall) hb
      exact ⟨_, _, _, .other (hk' ▸ hk) (fun hident => (hw (hk' ▸ hident)).again ha hne hall) hwalk,
        hrel, hmates⟩

end Block

end StructLayout
