import StructLayout.Proofs.Source.Columns
import StructLayout.Proofs.Source.Completeness
import StructLayout.Proofs.Source.Fields

/-!
A struct that is printed is read again as it was, wherever it is printed.
-/

namespace StructLayout

open Text Token

/-! ## Cells of a line -/

namespace Columns

theorem Spread.cons_inv {cell : String} {cells : List String} {line : List Char}
    (h : Spread (cell :: cells) line) :
    ∃ gap tail, line = cell.toList ++ (gap ++ tail) ∧ (∀ c ∈ gap, c = ' ') ∧ Spread cells tail ∧
      (gap = [] → cell = "" ∨ tail = []) ∧ (cells = [] → gap = []) := by
  cases h with
  | empty h => exact ⟨[], line, rfl, by simp, h, fun _ => .inl rfl, fun _ => rfl⟩
  | last h => exact ⟨[], [], by simp, by simp, h, fun _ => .inr rfl, fun _ => rfl⟩
  | cons hc hne hg h =>
      exact ⟨_, _, rfl, hg, h, fun hnil => absurd hnil hne, fun hnil => absurd hnil hc⟩

theorem Spread.nil_inv {line : List Char} (h : Spread [] line) : line = [] := by
  cases h
  rfl

end Columns

open Columns

theorem isGap_of_space {gap : List Char} (h : ∀ c ∈ gap, c = ' ') : ∀ c ∈ gap, isGap c = true := by
  intro c hc
  rw [h c hc]
  rfl

/-- What stands behind a cell does not touch it. -/
theorem separate {gap tail rest : List Char} (hg : ∀ c ∈ gap, c = ' ') (hn : gap = [] → tail = [])
    (hr : AtBreak rest) : ∀ c ∈ (gap ++ tail ++ rest).head?, isIdent c = false := by
  intro c hc
  cases gap with
  | nil =>
      rw [hn rfl, List.append_nil, List.nil_append] at hc
      rcases hr with rfl | hr
      · cases hc
      · cases hr.symm.trans hc
        rfl
  | cons d gap =>
      cases hc
      rw [hg c List.mem_cons_self]
      rfl

namespace Cursor

variable {c d : Cursor}

theorem skipComments_ahead {comments more : List Token} (ha : c.ahead = comments ++ more)
    (hc : ∀ t ∈ comments, t.kind = .comment) (hm : ∀ t ∈ more.head?, t.kind ≠ .comment) :
    c.run .comment = comments ∧ c.skipComments.1.ahead = more := by
  have hmore : more.takeWhile (fun t => t.kind == .comment) = [] := by
    cases more with
    | nil => rfl
    | cons t more => rw [List.takeWhile_cons_of_neg (by simpa using hm t rfl)]
  refine ⟨?_, ?_⟩
  · rw [run, ha, List.takeWhile_append_of_pos fun t ht => by simp [hc t ht], hmore,
      List.append_nil]
  · show c.ahead.dropWhile _ = more
    rw [ha, List.dropWhile_append_of_pos fun t ht => by simp [hc t ht]]
    cases more with
    | nil => rfl
    | cons t more => rw [List.dropWhile_cons_of_neg (by simpa using hm t rfl)]

end Cursor

theorem Spells.text_ne_nil {cs : List Char} {ts : List Token} (h : Spells cs ts) : cs ≠ [] := by
  rintro rfl
  have := (h.fills 0 [] (by simp)).eq_nil
  exact h.ne (List.map_eq_nil_iff.mp this)

/-- The first token stands where its text does. -/
theorem Spells.head_start {cs : List Char} {ts more : List Token} {a : Nat} {c : Cursor}
    (h : Spells cs ts) (hc : c.ahead = ts.map (moved 0 a) ++ more) : c.token.start = a := by
  cases ts with
  | nil => exact absurd rfl h.ne
  | cons t ts =>
      rw [(Cursor.next_of_ahead hc).1]
      show t.start - 0 + a = a
      rw [h.start t rfl, Nat.zero_sub, Nat.zero_add]

/-- The text of what was passed. -/
theorem Spells.slice {s : SourceText} {cs front rest : List Char} {ts : List Token} {c d : Cursor}
    (h : Spells cs ts) (hs : s.chars = front ++ cs ++ rest)
    (hp : c.Passes (ts.map (moved 0 (byteLen front))) d) :
    s.slice c.token.start d.lastStop = String.ofList cs := by
  have hstop : d.lastStop = byteLen front + byteLen cs := by
    cases hl : ts.getLast? with
    | none => exact absurd (List.getLast?_eq_none_iff.mp hl) h.ne
    | some last =>
        rw [Cursor.lastStop_passes hp, List.getLast?_map, hl]
        show (last.moved 0 (byteLen front)).stop = _
        rw [stop_moved (Nat.zero_le _), h.stop last hl]
        omega
  rw [SourceText.slice, h.head_start hp.ahead, hstop, hs, slice_append]

namespace FieldDecl

open Cursor TypeExpr Lexeme

variable {d : FieldDecl} {s : SourceText} {front line gap ends rest : List Char}

/-- A field that was read again is the one that was printed, but for its place. Lines of comments
can lose a carriage return, and comments can grow together. -/
structure Shows (d e : FieldDecl) : Prop where
  names : e.names = d.names
  ty : e.ty.bare = d.ty.bare
  tyText : e.tyText = d.tyText
  tag : e.tag = d.tag
  doc : (∀ line ∈ d.doc, EndsPlain line) → e.doc = d.doc
  comment : ∀ isOpen, Separate isOpen d.comment → e.comment = d.comment

theorem Shows.name {e : FieldDecl} (h : d.Shows e) : e.name? = d.name? := by
  unfold name?
  rw [h.names, ← embeddedName?_bare e.ty, h.ty, embeddedName?_bare]

theorem Shows.bareField_eq {e : FieldDecl} (h : d.Shows e) (hd : d.Exact) :
    bareField e = bareField d := by
  obtain ⟨hdoc, isOpen, hcomment⟩ := hd
  obtain ⟨hnames, hty, htext, htag, hdocs, hcomments⟩ := h
  have hdocs := hdocs hdoc
  have hcomments := hcomments isOpen hcomment
  cases d
  cases e
  dsimp only at *
  subst hnames htext htag hdocs hcomments
  rw [bareField, bareField, hty]

/-- The tag of a field, and what it is read from. -/
def TagTokens (d : FieldDecl) (ts : List Token) : Prop :=
  ts = [] ∧ d.tag = none ∨
    ∃ t, ts = [t] ∧ (t.kind = .string ∨ t.kind = .rawString) ∧ d.tag = some t.text

theorem Spelled.tag_fills (h : d.Spelled) (a : Nat) (rest : List Char) :
    ∃ ts, Fills rest a (d.tag.getD "").toList ts ∧ d.TagTokens ts := by
  cases ht : d.tag with
  | none => exact ⟨[], .nil a, .inl ⟨rfl, ht⟩⟩
  | some tag =>
      obtain ⟨kind, hk, hf⟩ := h.tag tag ht
      exact ⟨_, hf a rest, .inr ⟨_, rfl, hk, ht⟩⟩

/-- The tag and the comment at the end of a line. -/
theorem Spelled.ends_fills (h : d.Spelled)
    (hs : Spread [d.tag.getD "", " ".intercalate d.comment] ends) (hr : AtBreak rest) (a : Nat) :
    ∃ tag comments, Fills rest a ends (tag ++ comments) ∧ (∀ t ∈ comments, t.kind = .comment) ∧
      d.TagTokens tag ∧
      ∀ isOpen, Separate isOpen d.comment → comments.map Token.text = d.comment := by
  obtain ⟨gap, tail, rfl, hg, hs, -, -⟩ := hs.cons_inv
  obtain ⟨gap', tail', rfl, -, hs, -, hnil⟩ := hs.cons_inv
  obtain rfl := hs.nil_inv
  obtain rfl := hnil rfl
  rw [List.append_nil, List.append_nil]
  obtain ⟨tag, htags, hkind⟩ :=
    h.tag_fills a (gap ++ (" ".intercalate d.comment).toList ++ rest)
  by_cases hsep : ∃ isOpen, Separate isOpen d.comment
  · obtain ⟨isOpen, hsep⟩ := hsep
    obtain ⟨comments, hc, htexts, hf, -⟩ := hsep.fills (fun _ => hr.endsLine)
      (a + byteLen (d.tag.getD "").toList + byteLen gap)
    exact ⟨tag, comments, htags.append (.gaps (isGap_of_space hg) hf), hc, hkind, fun _ _ => htexts⟩
  · obtain ⟨isOpen, hcomments⟩ := h.comment
    obtain ⟨comments, hc, hf⟩ := hcomments.fills (List.forall_mem_nil _) (fun _ => hr.endsLine)
      (a + byteLen (d.tag.getD "").toList + byteLen gap)
    rw [List.append_nil] at hf
    exact ⟨tag, comments, htags.append (.gaps (isGap_of_space hg) hf), hc, hkind,
      fun isOpen h => absurd ⟨isOpen, h⟩ hsep⟩

theorem TagTokens.read {c : Cursor} {tag comments more : List Token}
    (htag : d.TagTokens tag) (hc : c.ahead = tag ++ comments ++ more)
    (hcomments : ∀ t ∈ comments, t.kind = .comment)
    (hmore : headKind (more.map Token.lexeme) = .lineBreak) :
    c.readTag.1 = d.tag ∧ c.readTag.2.1.run .comment = comments ∧
      c.readTag.2.1.skipComments.1.ahead = more := by
  have hm : ∀ t ∈ more.head?, t.kind ≠ .comment := by
    intro t ht
    obtain ⟨ts, rfl⟩ := List.head?_eq_some_iff.mp ht
    rw [show t.kind = .lineBreak from hmore]
    decide
  rcases htag with ⟨rfl, htag⟩ | ⟨t, rfl, hk, htag⟩
  · have hkind : c.kind = .comment ∨ c.kind = .lineBreak := by
      cases comments with
      | nil =>
          right
          rwa [kind_eq, Cursor.lexemes, hc]
      | cons u us =>
          left
          rw [kind_of_ahead hc]
          exact hcomments u List.mem_cons_self
    unfold readTag
    rw [if_neg (by rcases hkind with hk | hk <;> rw [hk] <;> decide)]
    exact ⟨htag.symm, skipComments_ahead hc hcomments hm⟩
  · obtain ⟨htoken, hnext, -⟩ := next_of_ahead hc
    unfold readTag
    rw [if_pos (by rwa [kind_of_ahead hc])]
    exact ⟨by rw [htag, htoken], skipComments_ahead hnext hcomments hm⟩

/-- What the line of a field is read as. Its docs stand above it. -/
def ReadsLine (s : SourceText) (d : FieldDecl) (a : Nat) (ts : List Token) : Prop :=
  ∀ c more, c.ahead = ts ++ more → headKind (more.map Token.lexeme) = .lineBreak →
    c.token.start = a ∧ (c.kind = .star ∨ c.kind = .ident) ∧
      ∃ field e, ReadsField s c field e ∧ e.ahead = more ∧
        ∀ docs, ((∀ line ∈ d.doc, EndsPlain line) → docs = d.doc) →
          d.Shows { field with doc := docs }

theorem kind_of_lineBreak {e : Cursor} {more : List Token} (he : e.ahead = more)
    (hm : headKind (more.map Token.lexeme) = .lineBreak) :
    e.kind = .lineBreak ∨ e.kind = .semicolon ∨ e.kind = .rbrace :=
  .inl (by rw [kind_eq, Cursor.lexemes, he, hm])

/-- The line of a field from its type on. -/
theorem Spelled.type_fills (h : d.Spelled)
    (hs : s.chars = front ++ (d.tyText.toList ++ (gap ++ ends)) ++ rest) (hg : ∀ c ∈ gap, c = ' ')
    (hn : gap = [] → ends = [])
    (hends : Spread [d.tag.getD "", " ".intercalate d.comment] ends) (hr : AtBreak rest) :
    ∃ ts, Fills rest (byteLen front) (d.tyText.toList ++ (gap ++ ends)) ts ∧
      ∀ c more, c.ahead = ts ++ more → headKind (more.map Token.lexeme) = .lineBreak →
        c.token.start = byteLen front ∧
        headKind c.lexemes ∈ [TokenKind.star, .lparen, .lbrack, .arrow, .ident] ∧
        (d.names = [] → (c.kind = .star ∨ c.kind = .ident) ∧ StartsEmbedded c.lexemes) ∧
        ∀ first : Cursor, ∀ names : first.From, first.kind = .star ∨ first.kind = .ident →
          names.1 = c → first.readFieldNames s = .ok (d.names, names) →
          ∃ field e, ReadsField s first field e ∧ e.ahead = more ∧
            ∀ docs, ((∀ line ∈ d.doc, EndsPlain line) → docs = d.doc) →
              d.Shows { field with doc := docs } := by
  obtain ⟨ts, hts, htype⟩ := h.type
  obtain ⟨tag, comments, hf, hcomments, htag, htexts⟩ := h.ends_fills hends hr
    (byteLen front + byteLen d.tyText.toList + byteLen gap)
  have htyped := hts.fills (byteLen front) (gap ++ ends ++ rest) (separate hg hn hr)
  have hchars : s.chars = front ++ d.tyText.toList ++ (gap ++ ends ++ rest) := by
    rw [hs]
    simp
  refine ⟨ts.map (moved 0 (byteLen front)) ++ (tag ++ comments),
    htyped.append (.gaps (isGap_of_space hg) hf), fun c more hc hmore => ?_⟩
  rw [List.append_assoc] at hc
  have hlexemes : c.lexemes = ts.map Token.lexeme ++ (tag ++ comments ++ more).map Token.lexeme := by
    rw [Cursor.lexemes, hc, List.map_append, map_lexeme_moved]
  have hrest : headKind ((tag ++ comments ++ more).map Token.lexeme) ∈
      [TokenKind.string, .rawString, .comment, .lineBreak] := by
    rcases htag with ⟨rfl, -⟩ | ⟨t, rfl, hk, -⟩
    · cases comments with
      | nil => simp [hmore]
      | cons u us =>
          have : headKind (([] ++ (u :: us) ++ more).map Token.lexeme) = u.kind := rfl
          rw [this, hcomments u List.mem_cons_self]
          decide
    · have : headKind (([t] ++ comments ++ more).map Token.lexeme) = t.kind := rfl
      rw [this]
      rcases hk with hk | hk <;> rw [hk] <;> decide
  have hstops : headKind ((tag ++ comments ++ more).map Token.lexeme) ∉ goesOn := by
    simp only [List.mem_cons, List.not_mem_nil, or_false] at hrest
    rcases hrest with hk | hk | hk | hk <;> rw [hk] <;> decide
  have hne : ts.map Token.lexeme ≠ [] := by simpa using hts.ne
  have hhead : headKind c.lexemes = headKind (ts.map Token.lexeme) := by
    rw [hlexemes, headKind_seg hne]
  refine ⟨hts.head_start hc, hhead ▸ htype.first, fun hnames => ⟨?_, ?_⟩,
    fun first names hfirst hnamed hread => ?_⟩
  · rw [kind_eq, hhead]
    exact htype.start hnames
  · rw [hlexemes]
    exact htype.embedded hnames _ hrest
  · subst hnamed
    obtain ⟨ty, e, hty, hbare, he⟩ := htype.reads ⟨front, _, hchars, rfl⟩ hc hstops
    obtain ⟨seg, hp, -⟩ := read_sound hty.2
    obtain ⟨rfl, -⟩ := hp.split hc (congrArg (List.map Token.lexeme) he)
    obtain ⟨htagged, hrun, hleft⟩ := htag.read he hcomments hmore
    refine ⟨_, _, readsField hfirst hread hty rfl (kind_of_lineBreak hleft hmore), hleft,
      fun docs hdocs => ⟨rfl, hbare, ?_, htagged, hdocs, fun isOpen hsep => ?_⟩⟩
    · show s.slice names.1.token.start e.lastStop = d.tyText
      rw [hts.slice hchars hp, String.ofList_toList]
    · show (e.readTag.2.1.run .comment).map Token.text = d.comment
      rw [hrun]
      exact htexts isOpen hsep

theorem Spelled.tyText_ne (h : d.Spelled) : d.tyText ≠ "" := by
  obtain ⟨ts, hts, -⟩ := h.type
  intro he
  exact hts.text_ne_nil (by rw [he]; rfl)

/-- An embedded field has its type in place of a name. -/
theorem Spelled.embedded_fills (h : d.Spelled) (hnames : d.names = [])
    (hs : s.chars = front ++ line ++ rest) (hline : Spread d.cells line) (hr : AtBreak rest) :
    ∃ ts, Fills rest (byteLen front) line ts ∧ d.ReadsLine s (byteLen front) ts := by
  have hcells : d.cells = [d.tyText, "", d.tag.getD "", " ".intercalate d.comment] := by
    simp [cells, hnames]
  rw [hcells] at hline
  obtain ⟨gap, tail, rfl, hg, hline, hn, -⟩ := hline.cons_inv
  obtain ⟨gap', ends, rfl, hg', hends, -, -⟩ := hline.cons_inv
  have hgaps : ∀ c ∈ gap ++ gap', c = ' ' := fun c hc =>
    (List.mem_append.mp hc).elim (hg c) (hg' c)
  have hnone : gap ++ gap' = [] → ends = [] := by
    intro hnil
    obtain ⟨hgap, hgap'⟩ := List.append_eq_nil_iff.mp hnil
    have := (hn hgap).resolve_left h.tyText_ne
    rw [hgap'] at this
    exact this
  have hjoin : gap ++ ("".toList ++ (gap' ++ ends)) = gap ++ gap' ++ ends := by simp
  rw [hjoin] at hs ⊢
  obtain ⟨ts, hf, hreads⟩ := h.type_fills hs hgaps hnone hends hr
  refine ⟨ts, hf, fun c more hc hmore => ?_⟩
  obtain ⟨hstart, -, hemb, hreads⟩ := hreads c more hc hmore
  obtain ⟨hk, hemb⟩ := hemb hnames
  have hne : c.kind ≠ .eof := by rcases hk with hk | hk <;> rw [hk] <;> decide
  refine ⟨hstart, hk, hreads c c.here hk rfl ?_⟩
  rw [readFieldNames, if_pos ((startsEmbedded_iff hne).mpr hemb), hnames]

/-- Names with commas between them. -/
theorem names_fills {names : List String} (hne : names ≠ []) (hn : ∀ name ∈ names, IsName name)
    (hr : ∀ c ∈ rest.head?, isIdent c = false) (a : Nat) :
    ∃ ts, Fills rest a (", ".intercalate names).toList ts ∧ (∀ t ∈ ts.head?, t.start = a) ∧
      headKind (ts.map Token.lexeme) = .ident ∧
      (∀ ls, headKind ls ≠ .comma → Names names (ts.map Token.lexeme ++ ls) ls) ∧
      ∀ ls, headKind ls ∈ [TokenKind.star, .lparen, .lbrack, .arrow, .ident] →
        ¬StartsEmbedded (ts.map Token.lexeme ++ ls) := by
  have none {ls : List Lexeme} {l m : Lexeme} (hl : l.kind = .ident)
      (hm : m.kind ∈ [TokenKind.star, .lparen, .lbrack, .arrow, .ident, .comma]) :
      ¬StartsEmbedded (l :: m :: ls) := by
    rintro (hk | hk)
    · have : l.kind = .star := hk
      rw [hl] at this
      cases this
    · have : m.kind ∈ _ := hk
      generalize m.kind = kind at hm this
      cases kind <;> simp at hm this
  induction names generalizing a with
  | nil => exact absurd rfl hne
  | cons name names ih =>
      obtain ⟨hname, hn⟩ := List.forall_mem_cons.mp hn
      cases names with
      | nil =>
          refine ⟨[⟨.ident, a, name⟩], by simpa using hname.fills hr a, by simp, rfl,
            fun ls hls => .one hls, fun ls hls => ?_⟩
          cases ls with
          | nil => simp [headKind] at hls
          | cons l ls => exact none rfl (by
              have : l.kind ∈ _ := hls
              simp only [List.mem_cons, List.not_mem_nil, or_false] at this ⊢
              tauto)
      | cons next names =>
          have hcomma : ∀ c ∈ ([','] ++ ([' '] ++ (", ".intercalate (next :: names)).toList) ++
              rest).head?, isIdent c = false := by
            intro c hc
            cases hc
            rfl
          obtain ⟨ts, hf, -, -, hnames, -⟩ := ih (List.cons_ne_nil _ _) hn
            (a + byteLen name.toList + byteLen [','] + byteLen [' '])
          have htext : (", ".intercalate (name :: next :: names)).toList =
              name.toList ++ ([','] ++ ([' '] ++ (", ".intercalate (next :: names)).toList)) := by
            rw [String.intercalate_cons_cons]
            simp
          rw [htext]
          refine ⟨_, (hname.fills hcomma a).append ((fills_delimiter rfl (by decide) _ _).append
            (.gaps (by simp [isGap]) hf)), by simp, rfl, fun ls hls => ?_, fun ls hls => ?_⟩
          · have hnone : ∀ l ∈ ([] : List Lexeme), l.kind = .lineBreak := by simp
            exact (Names.more hnone (hnames ls hls) :)
          · exact none rfl (.tail _ (.tail _ (.tail _ (.tail _ (.tail _ (.head _))))))

theorem Spelled.named_fills (h : d.Spelled) (hnames : d.names ≠ [])
    (hs : s.chars = front ++ line ++ rest) (hline : Spread d.cells line) (hr : AtBreak rest) :
    ∃ ts, Fills rest (byteLen front) line ts ∧ d.ReadsLine s (byteLen front) ts := by
  have hcells : d.cells = [", ".intercalate d.names, d.tyText, d.tag.getD "",
      " ".intercalate d.comment] := by
    simp [cells, hnames]
  rw [hcells] at hline
  obtain ⟨gap, tail, rfl, hg, hline, hn, -⟩ := hline.cons_inv
  obtain ⟨gap', ends, rfl, hg', hends, hn', -⟩ := hline.cons_inv
  have hne : ", ".intercalate d.names ≠ "" := by
    intro he
    have hnil : ∀ c ∈ ([] : List Char).head?, isIdent c = false := by simp
    obtain ⟨ts, hf, -, hk, -⟩ := names_fills hnames h.names hnil 0
    rw [he] at hf
    rw [hf.eq_nil] at hk
    cases hk
  have hs' : s.chars = front ++ (", ".intercalate d.names).toList ++ gap ++
      (d.tyText.toList ++ (gap' ++ ends)) ++ rest := by
    rw [hs]
    simp
  obtain ⟨ts, hf, hreads⟩ := h.type_fills hs' hg' (fun h' => (hn' h').resolve_left h.tyText_ne)
    hends hr
  rw [byteLen_append, byteLen_append] at hf
  obtain ⟨us, hfirst, hstart, hkind, hgrammar, hemb⟩ := names_fills hnames h.names
    (separate hg (fun h' => (hn h').resolve_left hne) hr) (byteLen front)
  refine ⟨_, hfirst.append (.gaps (isGap_of_space hg) hf), fun c more hc hmore => ?_⟩
  rw [List.append_assoc] at hc
  have hlexemes : c.lexemes = us.map Token.lexeme ++ (ts ++ more).map Token.lexeme := by
    rw [Cursor.lexemes, hc, List.map_append]
  obtain ⟨u, us, rfl⟩ : ∃ u us', us = u :: us' := by
    cases us with
    | nil => cases hkind
    | cons u us => exact ⟨u, us, rfl⟩
  have hk : c.kind = .ident := (kind_of_ahead hc).trans hkind
  -- the type behind the names
  obtain ⟨-, htype, -⟩ := hreads { c with ahead := ts ++ more } more rfl hmore
  have htype : headKind ((ts ++ more).map Token.lexeme) ∈ _ := htype
  have hcomma : headKind ((ts ++ more).map Token.lexeme) ≠ .comma := by
    intro hcomma
    rw [hcomma] at htype
    simp at htype
  have hnamed := hgrammar _ hcomma
  rw [← hlexemes] at hnamed
  obtain ⟨typed, hread, hl⟩ := readNames_of_names (s := s) hnamed
  obtain ⟨seg, hp, -⟩ := readNames_eq_ok hread
  obtain ⟨-, htyped⟩ := hp.split hc hl
  obtain ⟨-, -, -, hreads⟩ := hreads typed.1 more htyped hmore
  have hnone : ¬c.startsEmbedded = true := by
    rw [startsEmbedded_iff (ne_eof_of_kind hk (by decide)), hlexemes]
    exact hemb _ htype
  refine ⟨?_, .inr hk, hreads c typed.toFrom (.inr hk) rfl ?_⟩
  · rw [(next_of_ahead hc).1]
    exact hstart u rfl
  · rw [readFieldNames, if_neg hnone, hread]
    rfl

/-- The line of a field is read as the field. -/
theorem Spelled.line_fills (h : d.Spelled) (hs : s.chars = front ++ line ++ rest)
    (hline : Spread d.cells line) (hr : AtBreak rest) :
    ∃ ts, Fills rest (byteLen front) line ts ∧ d.ReadsLine s (byteLen front) ts := by
  by_cases hnames : d.names = []
  · exact h.embedded_fills hnames hs hline hr
  · exact h.named_fills hnames hs hline hr

end FieldDecl

/-! ## Lines -/

/-- The lines of fields: the docs of each, and one line with its cells. -/
inductive LinesOf : List FieldDecl → List String → Prop
  | nil : LinesOf [] []
  | cons {d : FieldDecl} {ds : List FieldDecl} {line : String} {lines : List String}
      (hline : Spread d.cells line.toList) (h : LinesOf ds lines) :
      LinesOf (d :: ds) (d.doc ++ line :: lines)

theorem LinesOf.append {ds es : List FieldDecl} {lines more : List String} (h : LinesOf ds lines)
    (he : LinesOf es more) : LinesOf (ds ++ es) (lines ++ more) := by
  induction h with
  | nil => exact he
  | cons hline _ ih =>
      rw [List.append_assoc, List.cons_append]
      exact .cons hline ih

namespace FieldDecl

theorem linesOf_lines (run : List FieldDecl) : LinesOf run (lines run) := by
  have hrows : ∀ row ∈ run.map cells, row.length = 4 := by
    intro row hrow
    obtain ⟨d, -, rfl⟩ := List.mem_map.mp hrow
    unfold cells
    dsimp only
    split <;> rfl
  have hall := List.forall₂_map_left_iff.mp (align_spread hrows)
  unfold lines
  generalize align (run.map cells) = lines at hall
  clear hrows
  induction hall with
  | nil => exact .nil
  | cons hline _ ih =>
      rw [List.zip_cons_cons, List.flatMap_cons, List.append_assoc, List.singleton_append]
      exact .cons hline ih

theorem flatten_runs (ds : List FieldDecl) : (runs ds).flatten = ds := by
  induction ds with
  | nil => rfl
  | cons d ds ih =>
      unfold runs
      split
      · cases hr : runs ds with
        | nil => rw [hr] at ih; rw [← ih]; rfl
        | cons run more =>
            rw [hr] at ih
            rw [← ih]
            rfl
      · rw [List.flatten_cons, ih]
        rfl

theorem linesOf_runs (ds : List FieldDecl) : LinesOf ds ((runs ds).flatMap lines) := by
  have hall (all : List (List FieldDecl)) : LinesOf all.flatten (all.flatMap lines) := by
    induction all with
    | nil => exact .nil
    | cons run all ih => exact (linesOf_lines run).append ih
  have := hall (runs ds)
  rwa [flatten_runs] at this

end FieldDecl

/-- Lines with the blanks in front of them. -/
def indented (indent : String) (lines : List String) : List Char :=
  lines.flatMap fun line => indent.toList ++ line.toList ++ ['\n']

theorem isGap_of_isIndent {indent : String} (h : IsIndent indent) :
    ∀ c ∈ indent.toList, isGap c = true := by
  intro c hc
  have := h c hc
  simp only [SourceText.isIndentChar, Bool.or_eq_true, beq_iff_eq] at this
  rcases this with rfl | rfl <;> rfl

/-- Lines are read again as they were, but for a carriage return at the end. -/
def Again (line text : String) : Prop :=
  EndsPlain line → text = line

theorem again_eq {lines texts : List String} (h : List.Forall₂ Again lines texts)
    (hl : ∀ line ∈ lines, EndsPlain line) : texts = lines := by
  induction h with
  | nil => rfl
  | cons hline _ ih =>
      obtain ⟨hp, hl⟩ := List.forall_mem_cons.mp hl
      rw [hline hp, ih hl]

/-- A text ends with a line break. -/
def AtLine (front : List Char) : Prop :=
  lastLine front = []

theorem atLine_newline (front : List Char) : AtLine (front ++ ['\n']) :=
  lastLine_eq_nil (by simp)

namespace SourceText

variable {s : SourceText} {front rest : List Char} {indent : String}

theorem lineHead_indent (hs : s.chars = front ++ indent.toList ++ rest) (hf : AtLine front)
    (hi : IsIndent indent) : s.lineHead (byteLen front + byteLen indent.toList) = indent.toList := by
  rw [← byteLen_append, lineHead_append hs,
    lastLine_append _ (gap_ne_newline (isGap_of_isIndent hi)), hf, List.nil_append]

theorem bodyIndent?_line {keyword : Nat} (hs : s.chars = front ++ indent.toList ++ rest)
    (hf : AtLine front) (hi : IsIndent indent) (hk : keyword < byteLen front) :
    s.bodyIndent? keyword (byteLen front + byteLen indent.toList) = some indent := by
  have hall : indent.toList.all isIndentChar = true := List.all_eq_true.mpr hi
  rw [bodyIndent?, lineHead_indent hs hf hi]
  rw [Nat.add_sub_cancel, hall, decide_eq_true hk, String.ofList_toList]
  rfl

theorem closeIndent_line {keyword : Nat} (hs : s.chars = front ++ indent.toList ++ rest)
    (hf : AtLine front) (hi : IsIndent indent) :
    s.closeIndent keyword (byteLen front + byteLen indent.toList) = indent := by
  have hall : indent.toList.all isIndentChar = true := List.all_eq_true.mpr hi
  rw [closeIndent, lineHead_indent hs hf hi]
  rw [if_pos hall, String.ofList_toList]

end SourceText

namespace TypeExpr

open Cursor Lexeme

/-- Some tokens of a struct body are read. What is left is read as if they were known. -/
def Leads (s : SourceText) (keyword : Nat) (R : PartialBody → PartialBody → Prop)
    (ts : List Token) : Prop :=
  ∀ done c more, c.ahead = ts ++ more → ∃ done' d, d.ahead = more ∧ R done done' ∧
    ∀ body e, ReadsBody s keyword done' d body e → ReadsBody s keyword done c body e

variable {s : SourceText} {keyword : Nat} {indent : String} {ts us : List Token}
variable {R R' R'' : PartialBody → PartialBody → Prop}

theorem leads_nil (h : ∀ done, R done done) : Leads s keyword R [] :=
  fun done c _ hc => ⟨done, c, hc, h done, fun _ _ h => h⟩

theorem Leads.append (h : Leads s keyword R ts) (h' : Leads s keyword R' us)
    (hr : ∀ {a b c}, R a b → R' b c → R'' a c) : Leads s keyword R'' (ts ++ us) := by
  intro done c more hc
  rw [List.append_assoc] at hc
  obtain ⟨done₁, c₁, hc₁, hr₁, hb₁⟩ := h done c _ hc
  obtain ⟨done₂, c₂, hc₂, hr₂, hb₂⟩ := h' done₁ c₁ _ hc₁
  exact ⟨done₂, c₂, hc₂, hr hr₁ hr₂, fun body e hb => hb₁ body e (hb₂ body e hb)⟩

theorem leads_lineBreak {t : Token} (ht : t.kind = .lineBreak) :
    Leads s keyword (fun a b => b = a) [t] := by
  intro done c more hc
  refine ⟨done, c.next, (next_of_ahead hc).2.1, rfl, fun body e h => ?_⟩
  exact readsBody_skip (.inl ((kind_of_ahead hc).trans ht)) h

/-- The indentation of a body is known behind its first line. -/
def indentAfter (indent : String) (isEmpty : Bool) : Option String :=
  if isEmpty then none else some indent

/-- What lines of comments add to what has been read. -/
structure Keeps (indent : String) (lines : List String) (done done' : PartialBody) : Prop where
  fields : done'.fields = done.fields
  pending : ∃ texts, done'.pending = done.pending ++ texts ∧ List.Forall₂ Again lines texts
  fieldIndent : done'.fieldIndent = done.fieldIndent.or (indentAfter indent lines.isEmpty)

theorem Keeps.refl (indent : String) (done : PartialBody) : Keeps indent [] done done :=
  ⟨rfl, ⟨[], by simp, .nil⟩, by simp [indentAfter]⟩

theorem Keeps.cons {line : String} {lines : List String} {a b c : PartialBody}
    (h : Keeps indent [line] a b) (h' : Keeps indent lines b c) :
    Keeps indent (line :: lines) a c := by
  obtain ⟨texts, hp, hall⟩ := h.pending
  obtain ⟨texts', hp', hall'⟩ := h'.pending
  refine ⟨h'.fields.trans h.fields, ⟨texts ++ texts', by rw [hp', hp, List.append_assoc],
    List.rel_append hall hall'⟩, ?_⟩
  rw [h'.fieldIndent, h.fieldIndent, Option.or_assoc]
  rfl

/-- Lines of comments hold no fields. -/
theorem comments_lead {lines : List String} (hl : ∀ line ∈ lines, IsComment line)
    (hi : IsIndent indent) {front rest : List Char}
    (hs : s.chars = front ++ indented indent lines ++ rest) (hf : AtLine front)
    (hk : keyword < byteLen front) :
    ∃ ts, Fills rest (byteLen front) (indented indent lines) ts ∧
      Leads s keyword (Keeps indent lines) ts := by
  induction lines generalizing front with
  | nil => exact ⟨[], .nil _, leads_nil (Keeps.refl indent)⟩
  | cons line lines ih =>
      obtain ⟨hline, hl⟩ := List.forall_mem_cons.mp hl
      have htext : indented indent (line :: lines) =
          indent.toList ++ line.toList ++ ['\n'] ++ indented indent lines := rfl
      rw [htext] at hs ⊢
      obtain ⟨t, u, hkind, hstart, hagain, hu, hfills⟩ := hline.line_fills (isGap_of_isIndent hi)
        (byteLen front) (indented indent lines ++ rest)
      have hsrest : s.chars = front ++ (indent.toList ++ line.toList ++ ['\n']) ++
          indented indent lines ++ rest := by
        rw [hs]
        simp
      have hsline : s.chars = front ++ indent.toList ++
          (line.toList ++ ['\n'] ++ indented indent lines ++ rest) := by
        rw [hs]
        simp
      have hfront : AtLine (front ++ (indent.toList ++ line.toList ++ ['\n'])) := by
        rw [← List.append_assoc]
        exact atLine_newline _
      obtain ⟨ts, hfs, hleads⟩ := ih hl hsrest hfront (by rw [byteLen_append]; omega)
      rw [byteLen_append] at hfs
      have hcomment : Leads s keyword (Keeps indent [line]) [t] := by
        intro done c more hc
        have hnext := next_of_ahead hc
        refine ⟨keep s keyword done c, c.next, hnext.2.1, ⟨rfl, ⟨[t.text], ?_, ?_⟩, ?_⟩,
          fun body e h => readsBody_comment ((kind_of_ahead hc).trans hkind) h⟩
        · rw [keep, hnext.1]
        · exact .cons hagain .nil
        · rw [keep, hnext.1, hstart, SourceText.bodyIndent?_line hsline hf hi hk]
          rfl
      refine ⟨_, hfills.append hfs, ?_⟩
      exact (hcomment.append (leads_lineBreak hu) fun h h' => h' ▸ h).append hleads Keeps.cons

/-- What the lines of fields add to what has been read, if no comments are left to be kept. -/
structure Gains (indent : String) (ds : List FieldDecl) (done done' : PartialBody) : Prop where
  fields : ∃ fields, done'.fields = done.fields ++ fields ∧ List.Forall₂ FieldDecl.Shows ds fields
  pending : done'.pending = []
  fieldIndent : done'.fieldIndent = done.fieldIndent.or (indentAfter indent ds.isEmpty)

theorem Gains.refl (indent : String) (done : PartialBody) (h : done.pending = []) :
    Gains indent [] done done :=
  ⟨⟨[], by simp, .nil⟩, h, by simp [indentAfter]⟩

theorem Gains.cons {d : FieldDecl} {ds : List FieldDecl} {a b c : PartialBody}
    (h : Gains indent [d] a b) (h' : Gains indent ds b c) : Gains indent (d :: ds) a c := by
  obtain ⟨fields, hf, hall⟩ := h.fields
  obtain ⟨fields', hf', hall'⟩ := h'.fields
  refine ⟨⟨fields ++ fields', by rw [hf', hf, List.append_assoc], List.rel_append hall hall'⟩,
    h'.pending, ?_⟩
  rw [h'.fieldIndent, h.fieldIndent, Option.or_assoc]
  rfl

theorem atLine_indented {indent : String} {front : List Char} (lines : List String)
    (hf : AtLine front) : AtLine (front ++ indented indent lines) := by
  rcases List.eq_nil_or_concat lines with rfl | ⟨init, last, rfl⟩
  · simpa [indented] using hf
  · have : front ++ indented indent (init.concat last) =
        front ++ indented indent init ++ indent.toList ++ last.toList ++ ['\n'] := by
      simp [indented]
    rw [this]
    exact atLine_newline _

/-- The line of a field takes the comments above it. -/
theorem line_leads {d : FieldDecl} (h : d.Spelled) (hi : IsIndent indent)
    {front line rest : List Char} (hs : s.chars = front ++ indent.toList ++ line ++ '\n' :: rest)
    (hline : Spread d.cells line) (hf : AtLine front) (hk : keyword < byteLen front) :
    ∃ ts, Fills rest (byteLen front) (indent.toList ++ line ++ ['\n']) ts ∧
      Leads s keyword (fun b c => ∀ a, a.pending = [] → Keeps indent d.doc a b →
        Gains indent [d] a c) ts := by
  obtain ⟨ts, hfills, hreads⟩ := h.line_fills hs hline (.inr rfl)
  have hsindent : s.chars = front ++ indent.toList ++ (line ++ '\n' :: rest) := by
    rw [hs, List.append_assoc]
  rw [byteLen_append] at hfills hreads
  refine ⟨_, (Fills.gaps (isGap_of_isIndent hi) hfills).append (fills_lineBreak _ rest),
    fun done c more hc => ?_⟩
  rw [List.append_assoc] at hc
  obtain ⟨hstart, hkind, field, e, hfield, he, hshows⟩ := hreads c _ hc rfl
  refine ⟨add s keyword done c field, e.next, (next_of_ahead he).2.1, fun a ha hkeeps => ?_,
    fun body f hb => readsBody_field hkind hfield (readsBody_skip (.inl (kind_of_ahead he)) hb)⟩
  obtain ⟨texts, hpending, hagain⟩ := hkeeps.pending
  rw [ha, List.nil_append] at hpending
  refine ⟨⟨_, by rw [add, hkeeps.fields], .cons (hshows _ fun hp => ?_) .nil⟩, rfl, ?_⟩
  · rw [hpending]
    exact again_eq hagain hp
  · rw [add, hstart, SourceText.bodyIndent?_line hsindent hf hi hk, hkeeps.fieldIndent,
      Option.or_assoc]
    cases d.doc <;> rfl

/-- The lines of fields are read as the fields. -/
theorem fields_lead {ds : List FieldDecl} {lines : List String} (h : LinesOf ds lines)
    (hd : ∀ d ∈ ds, d.Spelled) (hi : IsIndent indent) {front rest : List Char}
    (hs : s.chars = front ++ indented indent lines ++ rest) (hf : AtLine front)
    (hk : keyword < byteLen front) :
    ∃ ts, Fills rest (byteLen front) (indented indent lines) ts ∧
      Leads s keyword (fun a b => a.pending = [] → Gains indent ds a b) ts := by
  induction h generalizing front with
  | nil => exact ⟨[], .nil _, leads_nil (Gains.refl indent)⟩
  | @cons d ds line lines hline _ ih =>
      obtain ⟨hd, hds⟩ := List.forall_mem_cons.mp hd
      have htext : indented indent (d.doc ++ line :: lines) = indented indent d.doc ++
          (indent.toList ++ line.toList ++ ['\n'] ++ indented indent lines) := by
        simp [indented]
      rw [htext] at hs ⊢
      have hsdoc : s.chars = front ++ indented indent d.doc ++
          (indent.toList ++ line.toList ++ ['\n'] ++ indented indent lines ++ rest) := by
        simp [hs]
      have hsline : s.chars = front ++ indented indent d.doc ++ indent.toList ++ line.toList ++
          '\n' :: (indented indent lines ++ rest) := by
        simp [hs]
      have hsrest : s.chars = front ++ indented indent d.doc ++ indent.toList ++ line.toList ++
          ['\n'] ++ indented indent lines ++ rest := by
        simp [hs]
      have hkeyword : keyword < byteLen (front ++ indented indent d.doc) := by
        rw [byteLen_append]
        omega
      obtain ⟨ts, hfd, hdoc⟩ := comments_lead hd.doc hi hsdoc hf hk
      obtain ⟨us, hfu, hfield⟩ :=
        line_leads hd hi hsline hline (atLine_indented _ hf) hkeyword
      obtain ⟨vs, hfv, hleads⟩ := ih hds hsrest (atLine_newline _)
        (by simp only [byteLen_append]; omega)
      have hline : Leads s keyword (fun a b => a.pending = [] → Gains indent [d] a b) (ts ++ us) :=
        hdoc.append hfield fun hkeeps hgains ha => hgains _ ha hkeeps
      simp only [byteLen_append] at hfu hfv
      refine ⟨ts ++ (us ++ vs), hfd.append (hfu.append ?_), ?_⟩
      · simpa only [byteLen_append, ← Nat.add_assoc] using hfv
      · rw [← List.append_assoc]
        exact hline.append hleads fun h h' ha => (h ha).cons (h' (h ha).pending)

end TypeExpr

namespace StructExpr

open Cursor TypeExpr

variable {s : SourceText} {body body' : StructExpr} {o : PrintOptions} {front rest : List Char}

/-- A struct that was read again is the one that was printed, but for its place. -/
structure Shows (o : PrintOptions) (body body' : StructExpr) : Prop where
  fields : List.Forall₂ FieldDecl.Shows body.fields body'.fields
  trailing : List.Forall₂ Again body.trailing body'.trailing
  indents : ¬body.isEmpty →
    body'.closeIndent = body.closeIndent ∧ body'.fieldIndent = some (body.bodyIndent o)

theorem Shows.bareBody_eq (h : body.Shows o body') (he : body.Exact) :
    bareBody body' = bareBody body := by
  have hfields : body'.fields.map bareField = body.fields.map bareField := by
    have hall := h.fields
    have hexact := he.fields
    revert hall hexact
    generalize body.fields = ds
    generalize body'.fields = es
    intro hall hexact
    induction hall with
    | nil => rfl
    | cons hd _ ih =>
        obtain ⟨hexact, hrest⟩ := List.forall_mem_cons.mp hexact
        rw [List.map_cons, List.map_cons, hd.bareField_eq hexact, ih hrest]
  have htrailing := again_eq h.trailing he.trailing
  cases body
  cases body'
  dsimp only at hfields htrailing
  rw [bareBody, bareBody, bareFields_eq, bareFields_eq, hfields, htrailing]

/-- A struct that was read again is printed as before. -/
theorem Shows.print_eq (h : body.Shows o body') (he : body.Exact) :
    body'.print o = body.print o := by
  have hbare := h.bareBody_eq he
  have hempty : body'.isEmpty = body.isEmpty := by
    rw [← isEmpty_bare body', hbare, isEmpty_bare]
  have hlines : body'.bodyLines = body.bodyLines := by
    rw [← bodyLines_bare body', hbare, bodyLines_bare]
  unfold print
  rw [hempty]
  split
  · rfl
  · rename_i hne
    obtain ⟨hclose, hindent⟩ := h.indents hne
    have hindent : body'.bodyIndent o = body.bodyIndent o := by
      rw [bodyIndent, hindent, Option.getD_some]
    rw [hindent, hlines, hclose]

theorem bodyIndent_isIndent (h : body.Spelled) (o : PrintOptions) :
    IsIndent (body.bodyIndent o) := by
  unfold bodyIndent
  cases hi : body.fieldIndent with
  | some indent => exact h.fieldIndent indent hi
  | none =>
      intro c hc
      rw [Option.getD_none, String.toList_append] at hc
      rcases List.mem_append.mp hc with hc | hc
      · exact h.closeIndent c hc
      · unfold PrintOptions.unit at hc
        split at hc
        · rw [List.mem_singleton.mp hc]
          rfl
        · rw [toList_pushn] at hc
          have hspace : c = ' ' := List.eq_of_mem_replicate hc
          rw [hspace]
          rfl

/-- What a printed struct is read as, in front of any other tokens. -/
def ReadsPrinted (s : SourceText) (o : PrintOptions) (body : StructExpr) (ts : List Token) : Prop :=
  ∀ c more, c.ahead = ts ++ more → ∃ body' d, ReadsTo s c (.struct body') d ∧ d.ahead = more ∧
    body.Shows o body'

theorem fills_struct {gap inner close : List Char} {a : Nat} {ts : List Token}
    {R : PartialBody → PartialBody → Prop} (hg : ∀ c ∈ gap, isGap c = true)
    (hc : ∀ c ∈ close, isGap c = true)
    (hf : Fills (close ++ ['\x7d'] ++ rest)
      (a + byteLen "struct".toList + byteLen gap + byteLen ['\x7b']) inner ts)
    (hl : Leads s a R ts)
    (hr : ∀ done c, R {} done →
      c.token.start = a + byteLen ("struct".toList ++ gap ++ ['\x7b'] ++ inner ++ close) →
      body.Shows o (finish s a done c)) :
    ∃ us, Fills rest a ("struct".toList ++ (gap ++ (['\x7b'] ++ (inner ++ (close ++ ['\x7d'])))))
        (⟨.ident, a, "struct"⟩ :: us) ∧
      ReadsPrinted s o body (⟨.ident, a, "struct"⟩ :: us) := by
  have hname : IsName "struct" := ⟨'s', "truct".toList, rfl, rfl, rfl, List.all_eq_true.mp rfl⟩
  have hstop : ∀ c ∈ (gap ++ (['\x7b'] ++ (inner ++ (close ++ ['\x7d']))) ++ rest).head?,
      isIdent c = false := by
    intro c hm
    cases gap with
    | nil => cases hm; decide
    | cons d gap =>
        cases hm
        have := hg c List.mem_cons_self
        simp only [isGap, Bool.or_eq_true, beq_iff_eq] at this
        rcases this with (rfl | rfl) | rfl <;> decide
  let p := a + byteLen "struct".toList + byteLen gap
  let q := p + byteLen ['\x7b'] + byteLen inner + byteLen close
  refine ⟨⟨.lbrace, p, "\x7b"⟩ :: (ts ++ [⟨.rbrace, q, "\x7d"⟩]), ?_, ?_⟩
  · exact (hname.fills hstop a).append (.gaps hg ((fills_delimiter rfl (by decide) _ _).append
      (hf.append (.gaps hc (fills_delimiter rfl (by decide) _ _)))))
  · intro c more hahead
    rw [List.cons_append, List.cons_append, List.append_assoc] at hahead
    obtain ⟨htoken, hnext, -⟩ := next_of_ahead hahead
    obtain ⟨-, hnext', -⟩ := next_of_ahead hnext
    obtain ⟨done, d, hd, hdone, hreads⟩ := hl {} c.next.next _ hnext'
    obtain ⟨hbrace, hlast, -⟩ := next_of_ahead hd
    have hstart : c.token.start = a := by rw [htoken]
    refine ⟨_, d.next, readsTo_struct (kind_of_ahead hahead) (by rw [htoken])
      (kind_of_ahead hnext) (hstart ▸ hreads _ _ (readsBody_close (kind_of_ahead hd))), hlast,
      hr done d hdone ?_⟩
    rw [hbrace]
    simp only [byteLen_append, q, p]
    omega

/-- What the lines of a body add to what has been read. -/
structure HasRead (body : StructExpr) (indent : String) (done : PartialBody) : Prop where
  fields : List.Forall₂ FieldDecl.Shows body.fields done.fields
  pending : List.Forall₂ Again body.trailing done.pending
  fieldIndent : done.fieldIndent = indentAfter indent body.isEmpty

theorem hasRead {indent : String} {done done' : PartialBody}
    (hgains : Gains indent body.fields {} done) (hkeeps : Keeps indent body.trailing done done') :
    body.HasRead indent done' := by
  obtain ⟨fields, hgained, hshows⟩ := hgains.fields
  obtain ⟨texts, hkept, hagain⟩ := hkeeps.pending
  refine ⟨?_, ?_, ?_⟩
  · rwa [hkeeps.fields, hgained]
  · rwa [hkept, hgains.pending]
  · rw [hkeeps.fieldIndent, hgains.fieldIndent, isEmpty]
    cases body.fields.isEmpty <;> cases body.trailing.isEmpty <;> rfl

theorem Spelled.lines_fills (h : body.Spelled) {indent : String} (hi : IsIndent indent)
    {keyword : Nat} (hs : s.chars = front ++ indented indent body.bodyLines ++ rest)
    (hf : AtLine front) (hk : keyword < byteLen front) :
    ∃ ts, Fills rest (byteLen front) (indented indent body.bodyLines) ts ∧
      Leads s keyword (fun a b => a = {} → body.HasRead indent b) ts := by
  let lines := (FieldDecl.runs body.fields).flatMap FieldDecl.lines
  have htext : indented indent body.bodyLines =
      indented indent lines ++ indented indent body.trailing := by
    simp [lines, indented, bodyLines]
  rw [htext] at hs ⊢
  rw [← List.append_assoc] at hs
  have hfields : s.chars = front ++ indented indent lines ++
      (indented indent body.trailing ++ rest) := by
    rw [hs, List.append_assoc]
  have hbody : keyword < byteLen (front ++ indented indent lines) := by
    rw [byteLen_append]
    omega
  obtain ⟨ts, hft, hl⟩ := fields_lead (FieldDecl.linesOf_runs body.fields) h.fields hi hfields hf hk
  obtain ⟨us, hfu, hlu⟩ := comments_lead h.trailing hi hs (atLine_indented _ hf) hbody
  rw [byteLen_append] at hfu
  refine ⟨ts ++ us, hft.append hfu, hl.append hlu ?_⟩
  rintro _ b c hgains hkeeps rfl
  exact hasRead (hgains rfl) hkeeps

/-- A printed struct is read again as it was. -/
theorem Spelled.print_fills (h : body.Spelled) (o : PrintOptions)
    (hs : s.chars = front ++ (body.print o).toList ++ rest) :
    ∃ us, Fills rest (byteLen front) (body.print o).toList
        (⟨.ident, byteLen front, "struct"⟩ :: us) ∧
      ReadsPrinted s o body (⟨.ident, byteLen front, "struct"⟩ :: us) := by
  unfold print at hs ⊢
  split
  · rename_i hempty
    obtain ⟨hfields, htrailing⟩ : body.fields = [] ∧ body.trailing = [] := by
      simpa only [isEmpty, Bool.and_eq_true, List.isEmpty_iff] using hempty
    have htext : "struct\x7b\x7d".toList =
        "struct".toList ++ ([] ++ (['\x7b'] ++ ([] ++ ([] ++ ['\x7d'])))) := rfl
    rw [htext]
    refine fills_struct (R := fun a b => b = a) (by simp) (by simp) (.nil _)
      (leads_nil fun _ => rfl) fun done c hdone _ => ⟨?_, ?_, absurd hempty⟩
    · rw [hfields, hdone]
      exact .nil
    · rw [htrailing, hdone]
      exact .nil
  · rename_i hne
    rw [if_neg hne] at hs
    let indent := body.bodyIndent o
    let opening := front ++ "struct".toList ++ [' '] ++ ['\x7b'] ++ ['\n']
    have htext : ("struct \x7b\n" ++ String.join (body.bodyLines.map fun line =>
        indent ++ line ++ "\n") ++ body.closeIndent ++ "\x7d").toList =
        "struct".toList ++ ([' '] ++ (['\x7b'] ++ ((['\n'] ++ indented indent body.bodyLines) ++
          (body.closeIndent.toList ++ ['\x7d'])))) := by
      simp [indented, String.toList_join, List.flatMap_map]
    dsimp only at hs ⊢
    rw [htext] at hs ⊢
    have hlines : s.chars = opening ++ indented indent body.bodyLines ++
        (body.closeIndent.toList ++ ['\x7d'] ++ rest) := by
      simp [hs, opening]
    have hclose : s.chars = opening ++ indented indent body.bodyLines ++ body.closeIndent.toList ++
        (['\x7d'] ++ rest) := by
      simp [hs, opening]
    have hkeyword : byteLen front < byteLen opening := by
      simp only [opening, byteLen_append]
      have : byteLen ['\n'] = 1 := rfl
      omega
    obtain ⟨ts, hf, hl⟩ := h.lines_fills (bodyIndent_isIndent h o) hlines (atLine_newline _) hkeyword
    simp only [opening, byteLen_append] at hf
    refine fills_struct (R := fun a b => a = {} → body.HasRead indent b) (by simp [isGap])
      (isGap_of_isIndent h.closeIndent) ((fills_lineBreak _ _).append hf)
      ((leads_lineBreak rfl).append hl fun hb hc => hb ▸ hc) fun done c hdone hc => ?_
    obtain ⟨hfields, htrailing, hindent⟩ := hdone rfl
    refine ⟨hfields, htrailing, fun _ => ⟨?_, ?_⟩⟩
    · have hat : c.token.start = byteLen (opening ++ indented indent body.bodyLines) +
          byteLen body.closeIndent.toList := by
        rw [hc]
        simp only [opening, byteLen_append]
        omega
      show s.closeIndent (byteLen front) c.token.start = _
      rw [hat]
      exact SourceText.closeIndent_line hclose (atLine_indented _ (atLine_newline _)) h.closeIndent
    · show done.fieldIndent = _
      rw [hindent, indentAfter, if_neg hne]

end StructExpr

end StructLayout
