import StructLayout.Proofs.Source.Printed
import StructLayout.Proofs.Source.Weaves

/-!
What stands in front of the type of a declaration: its docs, its name, its type parameters and the sign
of an alias. All of it is told by the tokens, wherever they stand.
-/

namespace StructLayout

open Token

/-! ## Docs -/

theorem docTokens_shut {back : List Token} (h : Shut back) : docTokens back = [] := by
  rcases docTokens_eq h [] with hd | ⟨first, docs, -, post, pre, br, hn, -⟩
  · exact hd
  · cases post <;> cases hn

theorem docTokens_cons_shut {back : List Token} (h : Shut back) (t : Token) :
    docTokens (t :: back) = [] := by
  rcases docTokens_eq h [t] with hd | ⟨first, docs, -, post, pre, br, hn, -⟩
  · exact hd
  · have := congrArg List.length hn
    simp only [List.length_append, List.length_cons, List.length_nil] at this
    omega

/-- The docs in front of a declaration are told by the tokens behind what was read before it. -/
theorem docTokens_lexemes {back back' : List Token} (hb : Shut back) (hb' : Shut back') :
    (mid mid' : List Token) → mid'.map lexeme = mid.map lexeme →
      (docTokens (mid' ++ back')).map text = (docTokens (mid ++ back)).map text
  | [], mid', h => by
      obtain rfl : mid' = [] := List.map_eq_nil_iff.mp h
      rw [List.nil_append, List.nil_append, docTokens_shut hb, docTokens_shut hb']
  | [x], mid', h => by
      obtain ⟨x', rfl, -⟩ := List.map_eq_singleton_iff.mp h
      rw [List.singleton_append, List.singleton_append, docTokens_cons_shut hb,
        docTokens_cons_shut hb']
  | x :: y :: mid, mid', h => by
      obtain ⟨x', ms, rfl, hx, h⟩ := ConstSpec.lexeme_cons_inv h
      obtain ⟨y', mid', rfl, hy, h⟩ := ConstSpec.lexeme_cons_inv h
      obtain ⟨hxk, -⟩ := Lexeme.mk.inj hx
      obtain ⟨hyk, hyt⟩ := Lexeme.mk.inj hy
      have hhead : ((mid' ++ back').head?.all fun t => t.kind == .lineBreak) =
          (mid ++ back).head?.all fun t => t.kind == .lineBreak := by
        cases mid with
        | nil =>
            obtain rfl : mid' = [] := List.map_eq_nil_iff.mp h
            obtain ⟨t, ts, rfl, ht⟩ := hb.cons
            obtain ⟨t', ts', rfl, ht'⟩ := hb'.cons
            simp [ht, ht']
        | cons z mid =>
            obtain ⟨z', mid', rfl, hz, -⟩ := ConstSpec.lexeme_cons_inv h
            have hk : z'.kind = z.kind := congrArg Lexeme.kind hz
            simp [hk]
      rw [List.cons_append, List.cons_append, List.cons_append, List.cons_append, docTokens, docTokens,
        hxk, hyk, hhead]
      split
      · rw [List.map_append, List.map_append, docTokens_lexemes hb hb' mid mid' h]
        simp [hyt]
      · rfl

/-- Lines of comments, each with the line break behind it. -/
inductive DocLines : List String → List Token → Prop
  | nil : DocLines [] []
  | cons {line : String} {lines : List String} {t u : Token} {ts : List Token}
      (ht : t.kind = .comment) (hline : Again line t.text) (hu : u.kind = .lineBreak)
      (h : DocLines lines ts) : DocLines (line :: lines) (t :: u :: ts)

/-- Comments behind a line break are docs. -/
theorem DocLines.docTokens {lines : List String} {ts back : List Token} (h : DocLines lines ts)
    (hb : ∀ t ∈ back.head?, t.kind = .lineBreak) :
    ∃ docs, docTokens (ts.reverse ++ back) = docTokens back ++ docs ∧
      List.Forall₂ Again lines (docs.map text) ∧ docs.head? = ts.head? := by
  induction h generalizing back with
  | nil => exact ⟨[], by simp, .nil, rfl⟩
  | @cons line lines t u ts ht hline hu _ ih =>
      have hbreak : ∀ v ∈ (u :: t :: back).head?, v.kind = .lineBreak := fun v hv => by
        cases hv
        exact hu
      obtain ⟨docs, hdocs, hall, -⟩ := ih hbreak
      have hone : StructLayout.docTokens (u :: t :: back) = StructLayout.docTokens back ++ [t] := by
        rw [StructLayout.docTokens, if_pos]
        refine ⟨hu, ht, ?_⟩
        cases hh : back.head? with
        | none => rfl
        | some v => simpa using hb v hh
      refine ⟨t :: docs, ?_, .cons hline hall, rfl⟩
      rw [List.reverse_cons, List.reverse_cons, List.append_assoc, List.append_assoc]
      rw [List.singleton_append, List.singleton_append, hdocs, hone, List.append_assoc]
      rfl

theorem DocLines.trivia {lines : List String} {ts : List Token} (h : DocLines lines ts) :
    ∀ t ∈ ts, t.kind ∈ triviaKinds := by
  induction h with
  | nil => simp
  | cons ht _ hu _ ih =>
      exact List.forall_mem_cons.mpr ⟨by rw [ht]; decide,
        List.forall_mem_cons.mpr ⟨by rw [hu]; decide, ih⟩⟩

/-! ## Type parameters -/

open Lexeme (headKind)

/-- A bracket with type parameters in it. -/
def StartsParams (ls : List Lexeme) : Prop :=
  headKind ls = .lbrack ∧ headKind ls.tail = .ident ∧ headKind ls.tail.tail ≠ .rbrack

namespace Cursor

variable {s s' : SourceText} {c c' d : Cursor} {ls : List Lexeme}

theorem peek_kind (c : Cursor) (n : Nat) : (c.peek n).kind = headKind (c.lexemes.drop n) := by
  rw [peek, Cursor.lexemes, headKind, ← List.map_drop, List.head?_map, List.head?_drop]
  cases c.ahead[n]? <;> rfl

theorem startsParams_iff : c.kind = .lbrack ∧ (c.peek 1).kind = .ident ∧ (c.peek 2).kind ≠ .rbrack ↔
    StartsParams c.lexemes := by
  rw [StartsParams, kind_eq, peek_kind, peek_kind, List.drop_one, ← List.tail_drop, List.drop_one]

theorem skipTypeParams_none (h : ¬StartsParams c.lexemes) :
    c.skipTypeParams s = .ok (false, c.here) := by
  rw [skipTypeParams, if_neg (mt startsParams_iff.mp h)]
  rfl

variable (s') in
/-- Type parameters are told by their tokens. -/
theorem skipTypeParams_lexemes {isGeneric : Bool} {d : c.From} {seg : List Token}
    (h : c.skipTypeParams s = .ok (isGeneric, d)) (hp : c.Passes seg d.1)
    (hl : c'.lexemes = seg.map Token.lexeme ++ ls) (hn : isGeneric = false → ¬StartsParams ls) :
    ∃ d' : c'.From, c'.skipTypeParams s' = .ok (isGeneric, d') ∧ d'.1.lexemes = ls := by
  unfold skipTypeParams at h
  split at h
  · rename_i hparams
    obtain ⟨e, hb, he⟩ := bind_eq_ok.mp h
    cases he
    obtain ⟨init, last, hpass, hlast, hbal⟩ := skipBalanced_eq_ok hb
    obtain rfl := List.append_cancel_right (hp.ahead.symm.trans hpass.ahead)
    obtain ⟨segl, hsegl, -, htakes⟩ := hbal.takes
    obtain rfl : segl = _ := List.append_cancel_right (hsegl.symm.trans hpass.lexemes)
    have hbal := htakes ls
    rw [← hl] at hbal
    obtain ⟨d', hr, hd'⟩ := skipBalanced_of_balanced (s := s') (by decide) hbal
    -- what opens the list is no more than the first three of its tokens
    have hstarts : StartsParams c'.lexemes := by
      have hold := startsParams_iff.mp hparams
      rw [hpass.lexemes] at hold
      rw [hl]
      cases init with
      | nil =>
          have : last.kind = .lbrack := hold.1
          rw [hlast] at this
          cases this
      | cons x init =>
          cases init with
          | nil =>
              have : last.kind = .ident := hold.2.1
              rw [hlast] at this
              cases this
          | cons y init =>
              cases init <;> exact hold
    refine ⟨d'.toFrom, ?_, hd'⟩
    rw [skipTypeParams, if_pos (startsParams_iff.mpr hstarts), hr]
    rfl
  · cases h
    obtain rfl : seg = [] := List.append_cancel_right (hp.ahead.symm.trans (Passes.refl c).ahead)
    have hl : c'.lexemes = ls := hl
    exact ⟨c'.here, skipTypeParams_none (hl ▸ hn rfl), hl⟩

theorem skipAssign_none (h : c.kind ≠ .assign) : c.skipAssign = (false, c.here) :=
  if_neg h

theorem skipAssign_some (h : c.kind = .assign) :
    c.skipAssign.1 = true ∧ c.skipAssign.2.1 = c.next := by
  rw [skipAssign, if_pos h]
  exact ⟨rfl, rfl⟩

theorem skipAssign_passes (c : Cursor) : ∃ sign, c.Passes sign c.skipAssign.2.1 ∧
    (sign = [] ∧ c.skipAssign.1 = false ∨ ∃ t, sign = [t] ∧ t.kind = .assign) := by
  by_cases hk : c.kind = .assign
  · refine ⟨[c.token], ?_, .inr ⟨c.token, rfl, hk⟩⟩
    rw [(skipAssign_some hk).2]
    exact passes_next (by rw [hk]; decide)
  · rw [skipAssign_none hk]
    exact ⟨[], .refl c, .inl ⟨rfl, rfl⟩⟩

theorem skipAssign_lexemes {sign : List Token} (hp : c.Passes sign c.skipAssign.2.1)
    (hl : c'.lexemes = sign.map Token.lexeme ++ ls) (ha : headKind ls ≠ .assign) :
    c'.skipAssign.1 = c.skipAssign.1 ∧ c'.skipAssign.2.1.lexemes = ls := by
  by_cases hk : c.kind = .assign
  · have hne : c.kind ≠ .eof := by rw [hk]; decide
    obtain ⟨htrue, hnext⟩ := skipAssign_some hk
    rw [hnext] at hp
    obtain rfl := List.append_cancel_right (hp.ahead.symm.trans (passes_next hne).ahead)
    obtain ⟨hk', -, hn⟩ := lexemes_inv hl hne
    obtain ⟨htrue', hnext'⟩ := skipAssign_some (hk'.trans hk)
    rw [htrue, htrue', hnext']
    exact ⟨rfl, hn⟩
  · have hnone := skipAssign_none hk
    rw [hnone] at hp ⊢
    obtain rfl : sign = [] := List.append_cancel_right (hp.ahead.symm.trans (Passes.refl c).ahead)
    have hl : c'.lexemes = ls := hl
    rw [skipAssign_none (c := c') (by rwa [kind_eq, hl])]
    exact ⟨rfl, hl⟩

end Cursor

/-- A type that starts with a bracket has at least two more tokens. -/
theorem Lexeme.Types.length_of_lbrack {name : Option String} {ls rest : List Lexeme}
    (h : Types name ls rest) (hk : Lexeme.headKind ls = .lbrack) : rest.length + 3 ≤ ls.length := by
  have longer {name : Option String} {ls rest : List Lexeme} (h : Types name ls rest) :
      rest.length < ls.length := by
    obtain ⟨seg, rfl, hne, -⟩ := h.takes
    rw [List.length_append]
    exact Nat.lt_add_of_pos_left (List.length_pos_iff.mpr hne)
  cases h with
  | slice h =>
      have := longer h
      simp only [List.length_cons]
      omega
  | array _ _ _ h =>
      have := longer h
      simp only [List.length_cons, List.length_append]
      omega
  | _ => cases hk

/-- Whether a type looks like type parameters is not up to what stands behind it. -/
theorem Lexeme.Types.not_startsParams {name : Option String} {seg rest rest' : List Lexeme}
    (h : Types name (seg ++ rest) rest) (hne : seg ≠ []) (hn : ¬StartsParams (seg ++ rest)) :
    ¬StartsParams (seg ++ rest') := by
  intro hs
  have hk : Lexeme.headKind (seg ++ rest) = .lbrack := by
    rw [headKind_seg hne, ← headKind_seg hne]
    exact hs.1
  have hlen := h.length_of_lbrack hk
  rw [List.length_append] at hlen
  have hlong : 3 ≤ seg.length := by omega
  rcases seg with - | ⟨l, - | ⟨m, - | ⟨n, seg⟩⟩⟩
  · exact absurd rfl hne
  · simp at hlong
  · simp at hlong
  · exact hn hs

/-! ## Trivia in front of a declaration -/

namespace Cursor

variable {c : Cursor} {lead rest : List Token}

theorem skipTrivia_of_ahead (hc : c.ahead = lead ++ rest) (hk : ∀ t ∈ lead, t.kind ∈ triviaKinds)
    (hr : headKind (rest.map Token.lexeme) ∉ triviaKinds) :
    c.Passes lead c.skipTrivia ∧ c.skipTrivia.ahead = rest := by
  obtain ⟨seg, hp, -⟩ := passes_skipTrivia c
  have hl : c.skipTrivia.lexemes = rest.map Token.lexeme := by
    have hkinds : ∀ l ∈ lead.map Token.lexeme, l.kind ∈ triviaKinds := by
      intro l hl
      obtain ⟨t, ht, rfl⟩ := List.mem_map.mp hl
      exact hk t ht
    exact skip_lexemes hkinds hr (by rw [Cursor.lexemes, hc, List.map_append])
  obtain ⟨rfl, ha⟩ := hp.split hc hl
  exact ⟨hp, ha⟩

theorem isFree_skipTrivia (hp : c.Passes lead c.skipTrivia) (hk : ∀ t ∈ lead, t.kind ∈ triviaKinds)
    (hn : lead = [] → c.isFree = true) : c.skipTrivia.isFree = true := by
  rcases List.eq_nil_or_concat lead with hnil | ⟨init, last, hcat⟩
  · have hb := hp.before
    rw [hnil] at hb
    rw [isFree, show c.skipTrivia.before = c.before from hb, ← isFree, hn hnil]
  · have hlast := hk last (by rw [hcat]; simp)
    rw [hcat, List.concat_eq_append] at hp
    rw [isFree_passes hp, bne_iff_ne]
    intro h
    rw [h] at hlast
    exact absurd hlast (by decide)

end Cursor

/-! ## Declarations up to their types -/

namespace TypeSpec

open Cursor
open TypeExpr (ReadsTo)

variable {s s' : SourceText} {c c' d f g anchor : Cursor} {name : Token} {isGeneric isAlias : Bool}

/-- The name of a declaration, its type parameters and the sign of an alias are read. -/
def Header (s : SourceText) (c : Cursor) (name : Token) (isGeneric isAlias : Bool) (f : Cursor) :
    Prop :=
  ∃ (d : c.After) (e : d.1.From), c.expect s .ident "type name" = .ok (name, d) ∧
    d.1.skipTypeParams s = .ok (isGeneric, e) ∧ e.1.skipAssign.1 = isAlias ∧
    e.1.skipAssign.2.1 = f

/-- A declaration, told by its name and what is read in front of its type and behind it. -/
def declared (s : SourceText) (anchor : Cursor) (name : Token) (isGeneric isAlias : Bool)
    (f : Cursor) (ty : TypeExpr) (g : Cursor) : TypeSpec :=
  let start := anchor.token.start
  let docs := docTokens anchor.before
  { name := name.text
    pos := s.info.pos name.start
    isAlias, isGeneric, ty
    tySpan := ⟨f.token.start, g.lastStop⟩
    doc := docs.map Token.text
    docSpan := ⟨(docs.head?.map fun t => s.lineStart t.start).getD (s.declStart start),
      s.declStart start⟩
    comment := (g.run .comment).map Token.text
    commentSpan := ⟨g.lastStop, ((g.run .comment).getLast?.map Token.stop).getD g.lastStop⟩
    indent := s.indentOf start }

theorem read_parts {t : TypeSpec} {d : c.After} (h : read s anchor c = .ok (t, d)) :
    ∃ name isGeneric isAlias f ty g, Header s c name isGeneric isAlias f ∧ ReadsTo s f ty g ∧
      t = declared s anchor name isGeneric isAlias f ty g ∧ d.1 = g.skipComments.1 := by
  unfold read at h
  obtain ⟨⟨name, d₁, hd₁⟩, hname, h⟩ := bind_eq_ok.mp h
  obtain ⟨⟨isGeneric, e, he⟩, hparams, h⟩ := bind_eq_ok.mp h
  dsimp only at h
  generalize hassign : e.skipAssign = assign at h
  obtain ⟨isAlias, f, hf⟩ := assign
  dsimp only at h
  obtain ⟨⟨ty, g, hg⟩, hty, h⟩ := bind_eq_ok.mp h
  cases h
  refine ⟨name, isGeneric, isAlias, f, ty, g, ⟨⟨d₁, hd₁⟩, ⟨e, he⟩, hname, hparams, ?_, ?_⟩,
    ⟨hg, hty⟩, rfl, rfl⟩
  · rw [hassign]
  · rw [hassign]

theorem read_of_header {ty : TypeExpr} (h : Header s c name isGeneric isAlias f)
    (hty : ReadsTo s f ty g) :
    ∃ h, read s anchor c =
      .ok (declared s anchor name isGeneric isAlias f ty g, ⟨g.skipComments.1, h⟩) := by
  obtain ⟨d, e, hname, hparams, rfl, rfl⟩ := h
  obtain ⟨hg, hty⟩ := hty
  have hskip := g.skipComments.2
  have hassign := e.1.skipAssign.2.2
  have hd := d.2
  have he := e.2
  refine ⟨by omega, ?_⟩
  unfold read
  exact bind_eq_ok.mpr ⟨_, hname, bind_eq_ok.mpr ⟨_, hparams, bind_eq_ok.mpr ⟨_, hty, rfl⟩⟩⟩

/-- The tokens in front of a type. -/
theorem Header.passes (h : Header s c name isGeneric isAlias f) :
    ∃ head last, c.Passes (name :: head) f ∧ name.kind = .ident ∧
      (name :: head).getLast? = some last ∧ last.kind ∈ [TokenKind.ident, .rbrack, .assign] := by
  obtain ⟨d, e, hname, hparams, -, rfl⟩ := h
  obtain ⟨hp, hk⟩ := expect_eq_ok hname
  have params : ∃ seg, d.1.Passes seg e.1 ∧
      (seg = [] ∨ ∃ last, seg.getLast? = some last ∧ last.kind = .rbrack) := by
    unfold skipTypeParams at hparams
    split at hparams
    · obtain ⟨e', hb, he⟩ := bind_eq_ok.mp hparams
      cases he
      obtain ⟨seg, last, hpass, hlast, -⟩ := skipBalanced_eq_ok hb
      exact ⟨_, hpass, .inr ⟨last, by simp, hlast⟩⟩
    · cases hparams
      exact ⟨[], .refl _, .inl rfl⟩
  obtain ⟨seg, hseg, hlast⟩ := params
  obtain ⟨sign, hsign, hkind⟩ := skipAssign_passes e.1
  refine ⟨seg ++ sign, ?_⟩
  have hpass := hp.trans (hseg.trans hsign)
  rcases hkind with ⟨rfl, -⟩ | ⟨t, rfl, ht⟩
  · rw [List.append_nil] at hpass ⊢
    rcases hlast with rfl | ⟨last, hlast, hl⟩
    · exact ⟨name, hpass, hk, rfl, by rw [hk]; decide⟩
    · exact ⟨last, hpass, hk, by rw [List.getLast?_cons, hlast]; rfl, by rw [hl]; decide⟩
  · exact ⟨t, hpass, hk, by simp [List.getLast?_cons], by rw [ht]; decide⟩

/-- A type that could be taken for type parameters stands behind some, or behind a sign. -/
theorem Header.not_startsParams (h : Header s c name false false f) : ¬StartsParams f.lexemes := by
  obtain ⟨d, e, -, hparams, hassign, rfl⟩ := h
  have ha : e.1.kind ≠ .assign := fun ha => by
    rw [(skipAssign_some ha).1] at hassign
    cases hassign
  rw [skipAssign_none ha]
  unfold skipTypeParams at hparams
  split at hparams
  · obtain ⟨e', -, he⟩ := bind_eq_ok.mp hparams
    cases he
  · rename_i hn
    cases hparams
    exact mt startsParams_iff.mpr hn

variable (s') in
/-- What stands in front of a type is told by its tokens. -/
theorem Header.again {head : List Token} {ls : List Lexeme}
    (h : Header s c name isGeneric isAlias f) (hp : c.Passes head f)
    (hl : c'.lexemes = head.map Token.lexeme ++ ls) (ha : headKind ls ≠ .assign)
    (hn : isGeneric = false → isAlias = false → ¬StartsParams ls) :
    ∃ name' f', Header s' c' name' isGeneric isAlias f' ∧ f'.lexemes = ls ∧
      name'.text = name.text := by
  obtain ⟨d, e, hname, hparams, rfl, rfl⟩ := h
  obtain ⟨hp₀, -⟩ := expect_eq_ok hname
  obtain ⟨seg, hseg⟩ := skipTypeParams_eq_ok hparams
  obtain ⟨sign, hsign, hkind⟩ := skipAssign_passes e.1
  obtain rfl := List.append_cancel_right (hp.ahead.symm.trans ((hp₀.trans hseg).trans hsign).ahead)
  obtain ⟨hk, hd⟩ := expect_eq_next hname
  have hne : c.kind ≠ .eof := by rw [hk]; decide
  obtain rfl : c.token = name :=
    (List.cons.inj ((passes_next hne).ahead.symm.trans hp₀.ahead)).1
  rw [List.map_append, List.map_append, List.append_assoc, List.append_assoc] at hl
  obtain ⟨hk', htext, hnext⟩ := lexemes_inv hl hne
  obtain ⟨hlt, hname'⟩ := expect_of_kind (s := s') (hk'.trans hk) (by decide) "type name"
  obtain ⟨e', hparams', he'⟩ := skipTypeParams_lexemes s' hparams hseg hnext fun hg => by
    rcases hkind with ⟨rfl, hassign⟩ | ⟨t, rfl, ht⟩
    · exact hn hg hassign
    · rintro ⟨hlbrack, -⟩
      cases ht.symm.trans hlbrack
  obtain ⟨hassign, hls⟩ := skipAssign_lexemes hsign he' ha
  exact ⟨_, _, ⟨⟨_, hlt⟩, e', hname', hparams', hassign, rfl⟩, hls, htext⟩

theorem Header.kind (h : Header s c name isGeneric isAlias f) : c.kind = .ident := by
  obtain ⟨d, e, hname, -⟩ := h
  exact (expect_eq_next hname).1

/-- How a declaration was read. -/
structure Place.Reading (s : SourceText) (p : Place) where
  name : Token
  isGeneric : Bool
  isAlias : Bool
  /-- In front of the type. -/
  typed : Cursor
  ty : TypeExpr
  /-- Behind the type. -/
  behind : Cursor
  header : Header s p.named name isGeneric isAlias typed
  type : ReadsTo s typed ty behind
  spec : p.spec = declared s p.anchor name isGeneric isAlias typed ty behind
  rest : p.rest = behind.skipComments.1

variable {p : Place}

theorem Place.IsRead.reading (h : p.IsRead s) : Nonempty (p.Reading s) := by
  obtain ⟨_, hr⟩ := h.read
  obtain ⟨name, isGeneric, isAlias, f, ty, g, hheader, hty, hspec, hrest⟩ := read_parts hr
  exact ⟨⟨name, isGeneric, isAlias, f, ty, g, hheader, hty, hspec, hrest⟩⟩

namespace Place.Reading

/-- The tokens from the first one of a declaration up to its type. -/
theorem stem (r : p.Reading s) (h : p.IsRead s) :
    ∃ stem last, p.anchor.Passes stem r.typed ∧ stem.getLast? = some last ∧
      last.kind ∈ [TokenKind.ident, .rbrack, .assign] := by
  obtain ⟨head, last, hp, -, hlast, hk⟩ := r.header.passes
  cases hg : p.grouped with
  | true =>
      have hnamed : p.named = p.anchor := if_pos hg
      exact ⟨_, last, hnamed ▸ hp, hlast, hk⟩
  | false =>
      have hnamed : p.named = p.anchor.next := by rw [named, hg]; rfl
      rw [hnamed] at hp
      have hne : p.anchor.kind ≠ .eof := by rw [h.anchor]; decide
      exact ⟨_, last, (passes_next hne).trans hp, by rw [List.getLast?_append, hlast]; rfl, hk⟩

variable (s') in
/-- A declaration is read again up to its type where the same tokens are ahead, behind any trivia. -/
theorem again (r : p.Reading s) (h : p.IsRead s) {lead stem lead' stem' tail : List Token}
    (hlead : p.base.Passes lead p.anchor) (hstem : p.anchor.Passes stem r.typed)
    (hc : c'.ahead = lead' ++ (stem' ++ tail)) (hk : ∀ t ∈ lead', t.kind ∈ triviaKinds)
    (hn : lead' = [] → lead = []) (hs : stem'.map Token.lexeme = stem.map Token.lexeme)
    (hshut : Shut c'.before) (hfree : c'.isFree = p.base.isFree)
    (ha : headKind (tail.map Token.lexeme) ≠ .assign)
    (hparams : r.isGeneric = false → r.isAlias = false → ¬StartsParams (tail.map Token.lexeme)) :
    ∃ name' typed', name'.text = r.name.text ∧ c'.Passes lead' c'.skipTrivia ∧
      c'.skipTrivia.Passes stem' typed' ∧ typed'.ahead = tail ∧
      ∀ ty' behind', ReadsTo s' typed' ty' behind' →
        Place.IsRead s' ⟨c', p.grouped,
          declared s' c'.skipTrivia name' r.isGeneric r.isAlias typed' ty' behind',
          behind'.skipComments.1⟩ := by
  have hne : p.anchor.kind ≠ .eof := by rw [h.anchor]; decide
  obtain ⟨first, ts, rfl⟩ : ∃ t ts, stem = t :: ts := by
    obtain ⟨stem₁, last, hp, hlast, -⟩ := r.stem h
    obtain rfl := List.append_cancel_right (hstem.ahead.symm.trans hp.ahead)
    cases stem with
    | nil => cases hlast
    | cons t ts => exact ⟨t, ts, rfl⟩
  obtain ⟨first', ts', rfl, hfirst, hts⟩ := ConstSpec.lexeme_cons_inv hs
  have hident : first.kind = .ident := by rw [← kind_of_ahead hstem.ahead, h.anchor]
  have hident' : first'.kind = .ident := (congrArg Lexeme.kind hfirst).trans hident
  obtain ⟨hpass', hahead'⟩ := skipTrivia_of_ahead hc hk (by
    show first'.kind ∉ triviaKinds
    rw [hident']
    decide)
  have hkind' : c'.skipTrivia.kind = .ident := (kind_of_ahead hahead').trans hident'
  have hlex : c'.skipTrivia.lexemes = (first :: ts).map Token.lexeme ++ tail.map Token.lexeme := by
    rw [Cursor.lexemes, hahead', List.map_append, hs]
  -- the name
  let named' := if p.grouped then c'.skipTrivia else c'.skipTrivia.next
  obtain ⟨head, -, hhead, -⟩ := r.header.passes
  have hnamed : (∃ word, c'.skipTrivia.Passes word named') ∧
      named'.lexemes = (r.name :: head).map Token.lexeme ++ tail.map Token.lexeme := by
    cases hg : p.grouped with
    | true =>
        rw [show p.named = p.anchor from if_pos hg] at hhead
        obtain hstem := List.append_cancel_right (hstem.ahead.symm.trans hhead.ahead)
        simp only [named', hg, if_true]
        exact ⟨⟨[], .refl _⟩, by rw [hlex, hstem]⟩
    | false =>
        rw [show p.named = p.anchor.next by rw [named, hg]; rfl] at hhead
        obtain hstem := List.append_cancel_right
          (hstem.ahead.symm.trans ((passes_next hne).trans hhead).ahead)
        obtain ⟨-, rfl⟩ := List.cons.inj hstem
        simp only [named', hg, Bool.false_eq_true, if_false]
        exact ⟨⟨_, passes_next (by rw [hkind']; decide)⟩,
          (lexemes_inv hlex (by rw [hident]; decide)).2.2⟩
  obtain ⟨⟨word, hword⟩, hl⟩ := hnamed
  obtain ⟨name', typed', hheader', hl', htext⟩ := r.header.again s' hhead hl ha hparams
  obtain ⟨head', -, hp', -⟩ := hheader'.passes
  obtain ⟨hsplit, htail⟩ := (hword.trans hp').split hahead' hl'
  refine ⟨name', typed', htext, hpass', hsplit ▸ hword.trans hp', htail, fun ty' behind' hty' =>
    ⟨hshut, hkind', fun hg => ?_, read_of_header hheader' hty'⟩⟩
  have hg : p.grouped = false := hg
  have hdecl := (h.keyword hg).1
  rw [Block.isTypeDecl_eq, Bool.and_eq_true] at hdecl
  constructor
  · have htext' : c'.skipTrivia.token.text = p.anchor.token.text := by
      rw [(next_of_ahead hahead').1, (next_of_ahead hstem.ahead).1]
      exact congrArg Lexeme.text hfirst
    have hfree' : c'.skipTrivia.isFree = true := by
      refine isFree_skipTrivia hpass' hk fun hnil => ?_
      have hlead' := hn hnil
      rw [hlead'] at hlead
      rw [hfree, isFree, ← show p.anchor.before = p.base.before from hlead.before]
      exact hdecl.2
    show Block.isTypeDecl c'.skipTrivia = true
    rw [Block.isTypeDecl_eq, htext', hdecl.1, hfree']
    rfl
  · have hk := hheader'.kind
    rw [show named' = c'.skipTrivia.next by simp only [named', hg, Bool.false_eq_true, if_false]] at hk
    show c'.skipTrivia.next.kind ≠ .lparen
    rw [hk]
    decide

end Place.Reading

end TypeSpec

end StructLayout
