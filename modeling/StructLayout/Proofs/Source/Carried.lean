import StructLayout.Proofs.Source.Cuts

/-!
The tokens of a text with changed declarations. Those between the declarations are as before, and a
declaration that stays is read again as it was.
-/

namespace StructLayout

open Text Token

/-! ## Parts of a declaration -/

namespace TypeSpec

open Cursor Lexeme
open TypeExpr (ReadsTo)

variable {s s' : SourceText} {R : TypeSpec → TypeSpec → Prop} {p : Place}

/-- The tokens of a declaration: those in front of it, those up to its type, and the type. Its comments
stand behind them. -/
structure Place.Split (r : p.Reading s) (lead stem types : List Token) : Prop where
  passes_lead : p.base.Passes lead p.anchor
  trivia : ∀ t ∈ lead, t.kind ∈ triviaKinds
  passes_stem : p.anchor.Passes stem r.typed
  last : ∃ last, stem.getLast? = some last ∧ last.kind ∈ [TokenKind.ident, .rbrack, .assign]
  passes_types : r.typed.Passes types r.behind
  ne : types ≠ []
  grammar : ∃ name, Types name r.typed.lexemes r.behind.lexemes
  passes_comments : r.behind.Passes (r.behind.run .comment) p.rest
  kinds : ∀ t ∈ r.behind.run .comment, t.kind = .comment
  rest : ∀ t ∈ p.rest.ahead.head?, t.kind ≠ .comment

theorem Place.Reading.split (r : p.Reading s) (h : p.IsRead s) :
    ∃ lead stem types, Place.Split r lead stem types := by
  obtain ⟨lead, hlead, htrivia⟩ := p.passes_anchor
  obtain ⟨stem, last, hstem, hlast, hk⟩ := r.stem h
  obtain ⟨hlt, hty⟩ := r.type
  obtain ⟨types, htypes, hgrammar, -⟩ := TypeExpr.read_sound hty
  obtain ⟨hcomments, hkinds⟩ := skipComments_spec r.behind
  rw [← r.rest] at hcomments
  refine ⟨lead, stem, types, hlead, htrivia, hstem, ⟨last, hlast, hk⟩, htypes, ?_, ⟨_, hgrammar⟩,
    hcomments, fun t ht => hkinds t.lexeme (List.mem_map_of_mem ht), fun t ht => ?_⟩
  · rintro rfl
    have := htypes.ahead
    rw [List.nil_append] at this
    rw [this] at hlt
    exact Nat.lt_irrefl _ hlt
  · rw [r.rest] at ht
    have := skip_head [.comment] r.behind t ht
    simpa using this

/-- One declaration goes over to the new text, and the tokens in front of it with it. Behind it the
edits that are left go on. -/
def Carried (s' : SourceText) (R : TypeSpec → TypeSpec → Prop) (seg : List Token) (p : Place)
    (start start' : Nat) (old new : List Char) (es : List Edit) : Prop :=
  ∃ mid rest mid' rest', old = mid ++ rest ∧ new = mid' ++ rest' ∧
    start + byteLen mid = p.rest.lastStop ∧ Edit.Spliced p.rest.lastStop rest es rest' ∧
    ∀ ts, (ts.map lexeme).head? = p.rest.lexemes.head? → Alike rest rest' →
      Alike old new ∧ ∃ gap us, gap.map lexeme = seg.map lexeme ∧
        Fills rest' start' mid' (gap ++ us) ∧ p.Again s' R (us ++ ts) ts

/-- What a declaration starts with behind its type parameters and sign is still told by its type. -/
theorem Place.Split.tail {r : p.Reading s} {lead stem types : List Token}
    (h : Place.Split r lead stem types) (ls : List Lexeme) :
    headKind (types.map lexeme ++ ls) ≠ .assign ∧
      (r.isGeneric = false → r.isAlias = false → ¬StartsParams (types.map lexeme ++ ls)) := by
  obtain ⟨name, hgrammar⟩ := h.grammar
  have hne : types.map lexeme ≠ [] := by simpa using h.ne
  have hhead := hgrammar.headKind
  rw [h.passes_types.lexemes] at hgrammar hhead
  constructor
  · rw [headKind_seg hne] at hhead ⊢
    intro ha
    rw [ha] at hhead
    simp at hhead
  · intro hg ha
    have hheader := r.header
    rw [hg, ha] at hheader
    have hnot := hheader.not_startsParams
    rw [h.passes_types.lexemes] at hnot
    exact hgrammar.not_startsParams hne hnot

theorem not_comment_of_head {ts us : List Token}
    (h : (ts.map lexeme).head? = (us.map lexeme).head?) (hu : ∀ u ∈ us.head?, u.kind ≠ .comment) :
    ∀ t ∈ ts.head?, t.kind ≠ .comment := by
  intro t ht
  obtain ⟨ts, rfl⟩ := List.head?_eq_some_iff.mp ht
  cases us with
  | nil => cases h
  | cons u us =>
      have hk : t.kind = u.kind := congrArg Lexeme.kind (Option.some.inj h)
      rw [hk]
      exact hu u rfl

/-! ## Declarations that stay -/

theorem declared_bare {anchor anchor' f f' g g' : Cursor} {name name' : Token}
    {isGeneric isAlias : Bool} {ty ty' : TypeExpr} (hname : name'.text = name.text)
    (hdoc : (docTokens anchor'.before).map Token.text = (docTokens anchor.before).map Token.text)
    (hty : ty'.bare = ty.bare)
    (hcomment : (g'.run .comment).map Token.text = (g.run .comment).map Token.text) :
    (declared s' anchor' name' isGeneric isAlias f' ty' g').bare =
      (declared s anchor name isGeneric isAlias f ty g).bare := by
  simp only [declared, bare, hname, hdoc, hty, hcomment]

variable {c : Cursor} {seg : List Token} {front front' old new : List Char} {es : List Edit}

theorem Place.IsRead.carried_kept (hp : p.IsRead s) (ho : Over s c) (hc : c.Passes seg p.base)
    (hs : s.chars = front ++ old) (hf : byteLen front = c.lastStop)
    (hs' : s'.chars = front' ++ new) (h : Edit.Spliced c.lastStop old es new)
    (hes : ∀ e ∈ es, p.rest.lastStop ≤ e.span.start)
    (hR : ∀ t', t'.bare = p.spec.bare → R p.spec t') :
    Carried s' R seg p c.lastStop (byteLen front') old new es := by
  obtain ⟨r⟩ := hp.reading
  obtain ⟨lead, stem, types, hsplit⟩ := r.split hp
  have htail := hsplit.passes_types.trans hsplit.passes_comments
  have hbase := hsplit.passes_lead.trans (hsplit.passes_stem.trans htail)
  have hpass := hc.trans hbase
  have hrest := ho.passes hpass
  obtain ⟨mid, rest, rfl, hmid⟩ := hrest.boundary.split hs (hf ▸ ho.lastStop_le hpass)
  rw [hf] at hmid
  obtain ⟨rest', rfl, hspliced⟩ := h.skip (by rw [hmid]; exact hes)
  rw [hmid] at hspliced
  have hfills : Fills rest c.lastStop mid (seg ++ (lead ++ (stem ++ (types ++ r.behind.run .comment)))) := by
    rw [← hf]
    refine ho.fills hpass hs ?_ ?_
    · rw [hf]
      exact ho.meets_lastStop
    · rw [hf, hmid]
      exact hrest.meets_lastStop
  refine ⟨mid, rest, mid, rest', rfl, rfl, hmid, hspliced, fun ts hts halike => ⟨?_, ?_⟩⟩
  · cases hl : mid.getLast? with
    | none =>
        obtain rfl := List.getLast?_eq_none_iff.mp hl
        exact halike
    | some d =>
        exact alike_append (by rintro rfl; cases hl) fun c hc => alike_of_head halike.head c
  let move := moved c.lastStop (byteLen front')
  refine ⟨seg.map move, (lead ++ (stem ++ (types ++ r.behind.run .comment))).map move,
    map_lexeme_moved _ _ _, ?_, ?_, ?_⟩
  · rw [← List.map_append]
    exact hfills.move _ (fun t _ _ ht => ht.change (.inl halike)) fun c _ => alike_of_head halike.head c
  · rw [hbase.lexemes, List.map_append, map_lexeme_moved]
    exact ConstSpec.head?_append_congr hts
  intro c' hc' hshut hfree
  let m : Copy :=
    { s, s', start := c.lastStop, start' := byteLen front', text := mid
      holds := ⟨front, rest, by rw [hs, List.append_assoc], hf⟩
      holds' := ⟨front', rest', by rw [hs', List.append_assoc], rfl⟩
      more := p.rest.ahead
      more' := ts
      fits := .inl (by rw [headKind, hts]; rfl) }
  have hinside : ∀ t ∈ types ++ r.behind.run .comment, m.Inside t := by
    intro t ht
    have ht : t ∈ seg ++ (lead ++ (stem ++ (types ++ r.behind.run .comment))) := by
      simp only [List.mem_append] at ht ⊢
      tauto
    obtain ⟨f, b, hmid, hstart⟩ := hfills.start_eq t ht
    exact ⟨f, b, hmid, hstart, (hfills.bounds t ht).2.2⟩
  have hahead : c'.ahead = lead.map move ++ (stem.map move ++
      ((types ++ r.behind.run .comment).map move ++ ts)) := by
    rw [hc']
    simp
  obtain ⟨hassign, hparams⟩ := hsplit.tail (((r.behind.run .comment).map move ++ ts).map lexeme)
  have htaillex : ((types ++ r.behind.run .comment).map move ++ ts).map lexeme =
      types.map lexeme ++ ((r.behind.run .comment).map move ++ ts).map lexeme := by
    rw [List.map_append, List.map_append, List.map_append, List.append_assoc, List.map_append,
      map_lexeme_moved]
  obtain ⟨name', typed', hname, hpass', hstem', htyped, hread⟩ := r.again s' hp
    hsplit.passes_lead hsplit.passes_stem hahead
    (fun t ht => by
      obtain ⟨u, hu, rfl⟩ := List.mem_map.mp ht
      exact hsplit.trivia u hu)
    (fun hnil => List.map_eq_nil_iff.mp hnil) (map_lexeme_moved _ _ _) hshut hfree
    (by rwa [htaillex]) (by rwa [htaillex])
  obtain ⟨hlt, hty⟩ := r.type
  have hfronts : m.Fronts r.typed typed' := ⟨_, htail.ahead, htyped, hinside⟩
  obtain ⟨ty', behind', hty', hbare, htwin⟩ := Copy.read_twin hfronts hty (by
    rw [hsplit.passes_comments.ahead, List.length_append]
    exact Nat.le_add_left _ _)
  -- the comments behind the type
  have hbehind : behind'.ahead = (r.behind.run .comment).map move ++ ts := by
    obtain ⟨xs, hx, hx', -⟩ := htwin.tokens
    obtain rfl := List.append_cancel_right (hx.symm.trans hsplit.passes_comments.ahead)
    exact hx'
  obtain ⟨hrun, hrest'⟩ := skipComments_ahead hbehind
    (fun t ht => by
      obtain ⟨u, hu, rfl⟩ := List.mem_map.mp ht
      exact hsplit.kinds u hu)
    (not_comment_of_head hts hsplit.rest)
  refine ⟨⟨c', p.grouped, _, _⟩, rfl, rfl, hread _ _ hty', hrest', hR _ ?_⟩
  rw [r.spec]
  refine declared_bare hname ?_ hbare ?_
  · rw [hpass'.before, hsplit.passes_lead.before]
    exact docTokens_lexemes hp.shut hshut _ _ (by rw [← List.map_reverse, map_lexeme_moved])
  · rw [hrun, List.map_map]
    rfl
end TypeSpec

end StructLayout
