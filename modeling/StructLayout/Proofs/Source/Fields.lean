import StructLayout.Proofs.Source.Copies
import StructLayout.Proofs.Source.Spelling

/-!
What is known of a struct that was read: its names, types and comments can be written elsewhere, and
are the same tokens there.
-/

namespace StructLayout

open Text Token

/-! ## Tokens that can be moved -/

theorem Token.Tile.ends {a : Nat} {cs : List Char} {ts : List Token} (h : Tile a cs ts) :
    ∀ t ∈ ts, ∃ rest, t.Ends rest := by
  induction h with
  | nil => simp
  | gap _ _ ih => exact ih
  | token ht _ ih => exact List.forall_mem_cons.mpr ⟨⟨_, (heads_iff.mp ht).2⟩, ih⟩

/-- The text of the first tokens, without what stands behind the last of them. -/
theorem Token.Tile.split {a : Nat} {cs : List Char} {xs ts : List Token} (h : Tile a cs (xs ++ ts)) :
    ∃ front rest, cs = front ++ rest ∧ Fills rest a front xs ∧ Tile (a + byteLen front) rest ts ∧
      a + byteLen front = (xs.getLast?.map stop).getD a := by
  induction xs generalizing a cs with
  | nil => exact ⟨[], cs, rfl, .nil a, h, rfl⟩
  | cons t xs ih =>
      obtain ⟨gap, body, rest, rfl, hg, hs, ht, htile⟩ := h.cons_inv
      obtain ⟨rfl, he⟩ := heads_iff.mp ht
      obtain ⟨front, rest, rfl, hf, htile, hl⟩ := ih htile
      have hoff : a + byteLen (gap ++ (t.text.toList ++ front)) = t.stop + byteLen front := by
        rw [stop_eq, hs, byteLen_append, byteLen_append]
        omega
      refine ⟨gap ++ (t.text.toList ++ front), rest, by simp, .gaps hg ?_, hoff ▸ htile, ?_⟩
      · rw [← hs]
        exact .token he hf
      · rw [hoff, hl]
        cases xs <;> simp [List.getLast?_cons]

/-- A text that its last token ends. -/
theorem Token.Fills.last {rest cs : List Char} {a : Nat} {ts : List Token} {last : Token}
    (h : Fills rest a cs ts) (hl : ts.getLast? = some last) (hs : last.stop = a + byteLen cs) :
    last.Ends rest ∧ ∃ front, cs = front ++ last.text.toList := by
  induction h with
  | nil => cases hl
  | @gap a c cs ts _ _ ih =>
      obtain ⟨he, front, rfl⟩ := ih hl (by rw [hs, byteLen_cons]; omega)
      exact ⟨he, c :: front, rfl⟩
  | @token t cs ts ht h ih =>
      rw [byteLen_append] at hs
      have hstop := stop_eq t
      cases ts with
      | nil =>
          obtain rfl : t = last := Option.some.inj hl
          obtain rfl : cs = [] := eq_nil_of_byteLen (by omega)
          exact ⟨ht, [], by simp⟩
      | cons u us =>
          rw [List.getLast?_cons_cons] at hl
          obtain ⟨he, front, rfl⟩ := ih hl (by omega)
          exact ⟨he, t.text.toList ++ front, by simp⟩

/-- The last character of a type is part of a name or closes a bracket. -/
theorem Token.Ends.last_char {t : Token} {rest : List Char} (h : t.Ends rest)
    (hk : t.kind ∈ Cursor.closers) : ∀ c ∈ t.text.toList.getLast?, c ≠ '.' ∧ c ≠ '\r' := by
  obtain ⟨c, cs, ht, -, hs⟩ := h
  rw [ht]
  generalize t.kind = kind at hk hs
  generalize hn : cs.length = n at hs
  have name {d : Char} (hd : isIdent d = true) : d ≠ '.' ∧ d ≠ '\r' := by
    constructor
    · rintro rfl
      cases hd
    · rintro rfl
      cases hd
  intro d hd
  cases hs with
  | ident hc =>
      obtain ⟨hcs, -⟩ := length_takeWhile_append.mp hn.symm
      rcases List.mem_cons.mp (List.mem_of_getLast? hd) with rfl | hd
      · exact name hc
      · exact name (hcs d hd)
  | delimiter hd' hdot =>
      obtain rfl := List.length_eq_zero_iff.mp hn
      cases hd
      constructor
      · rintro rfl
        cases hd'
        simp [Cursor.closers] at hk
      · rintro rfl
        cases hd'
  | number =>
      unfold Token.number at hk
      dsimp only at hk
      split at hk <;> simp [Cursor.closers] at hk
  | _ => simp [Cursor.closers] at hk

/-- Tokens start between characters of their text. -/
theorem Token.Fills.start_eq {rest cs : List Char} {a : Nat} {ts : List Token}
    (h : Fills rest a cs ts) :
    ∀ t ∈ ts, ∃ front back, cs = front ++ back ∧ t.start = a + byteLen front := by
  induction h with
  | nil => simp
  | @gap a c cs ts _ _ ih =>
      intro t ht
      obtain ⟨front, back, rfl, hs⟩ := ih t ht
      exact ⟨c :: front, back, rfl, by rw [hs, byteLen_cons]; omega⟩
  | @token t cs ts _ _ ih =>
      refine List.forall_mem_cons.mpr ⟨⟨[], _, rfl, rfl⟩, fun u hu => ?_⟩
      obtain ⟨front, back, rfl, hs⟩ := ih u hu
      exact ⟨t.text.toList ++ front, back, by simp, by rw [hs, stop_eq, byteLen_append]; omega⟩

theorem Token.moved_moved {t : Token} (a b : Nat) :
    (t.moved a 0).moved 0 b = t.moved a b := by
  rw [moved, moved, moved]
  simp

/-- Tokens that are the same wherever their text stands, from byte 0 on. -/
structure Spells (cs : List Char) (ts : List Token) : Prop where
  ne : ts ≠ []
  start : ∀ t ∈ ts.head?, t.start = 0
  stop : ∀ t ∈ ts.getLast?, t.stop = byteLen cs
  fills : ∀ a rest, (∀ c ∈ rest.head?, isIdent c = false) → Fills rest a cs (ts.map (moved 0 a))

/-- A text that starts with its first token, and ends with one that can end a type. -/
theorem Token.Fills.spells {rest cs : List Char} {a : Nat} {t last : Token} {ts : List Token}
    (h : Fills rest a cs (t :: ts)) (ha : t.start = a) (hl : (t :: ts).getLast? = some last)
    (hs : last.stop = a + byteLen cs) (hk : last.kind ∈ Cursor.closers) :
    Spells cs ((t :: ts).map (moved a 0)) := by
  obtain ⟨he, init, hcs⟩ := h.last hl hs
  refine ⟨by simp, ?_, ?_, fun b rest' hr => ?_⟩
  · rintro u hu
    cases hu
    show t.start - a + 0 = 0
    omega
  · rintro u hu
    rw [List.getLast?_map, hl] at hu
    cases hu
    rw [stop_moved (h.bounds last (List.mem_of_getLast? hl)).1]
    omega
  · have hmoved : moved 0 b ∘ moved a 0 = moved a b := funext fun u => moved_moved _ _
    rw [List.map_map, hmoved]
    refine h.move b (fun u hu _ _ => ?_) fun d hd => ?_
    · cases hl.symm.trans hu
      refine he.change (.inr ?_)
      unfold Stops
      simp only [Cursor.closers, List.mem_cons, List.not_mem_nil, or_false] at hk
      rcases hk with hk | hk | hk | hk <;> rw [hk]
      · exact hr
      · trivial
      · trivial
      · trivial
    · obtain ⟨c, tail, htext, -⟩ := id he
      have hd : d ∈ last.text.toList.getLast? := by
        rw [hcs, List.getLast?_append, htext, List.getLast?_cons] at hd
        rw [htext, List.getLast?_cons]
        exact hd
      obtain ⟨hdot, hret⟩ := he.last_char hk d hd
      exact alike_cons hdot hret _ _

namespace Cursor

variable {s : SourceText} {c d : Cursor}

theorem Over.ends (h : Over s c) : ∀ t ∈ c.ahead, ∃ rest, t.Ends rest :=
  fun t ht => Tile.ends h t (List.mem_append_right _ ht)

/-- What was read as a type can be moved. -/
theorem Over.spells {seg : List Token} (h : Over s c) (hp : c.Passes seg d) (hne : seg ≠ [])
    (hd : d.Settled) :
    ∃ front cs rest, s.chars = front ++ cs ++ rest ∧ byteLen front = c.token.start ∧
      byteLen front + byteLen cs = d.lastStop ∧ Fills rest c.token.start cs seg ∧
      Spells cs (seg.map (moved c.token.start 0)) := by
  obtain ⟨front, rest, hs, hl, ht⟩ := h.split
  cases seg with
  | nil => exact absurd rfl hne
  | cons t seg =>
      have htoken : c.token = t := by rw [Cursor.token, peek, hp.ahead]; rfl
      rw [hp.ahead] at ht
      obtain ⟨gap, body, tail, rfl, hg, hstart, hheads, htile⟩ := ht.cons_inv
      have htyped : Tile t.start body (t :: seg ++ d.ahead) := .token hheads htile
      obtain ⟨cs, rest, rfl, hfills, -, hstop⟩ := htyped.split
      obtain ⟨last, back, hb, hk⟩ := hd
      have hlast : (t :: seg).getLast? = some last := by
        have := hp.before
        rw [hb] at this
        rw [← List.head?_reverse]
        cases hr : (t :: seg).reverse with
        | nil => simp at hr
        | cons u us =>
            rw [hr] at this
            exact congrArg some (List.cons.inj this).1.symm
      rw [hlast] at hstop
      have hfront : byteLen (front ++ gap) = t.start := by
        rw [byteLen_append, hl, hstart]
      refine ⟨front ++ gap, cs, rest, by rw [hs]; simp, by rw [hfront, htoken], ?_, ?_, ?_⟩
      · rw [hfront, hstop, lastStop, hb]
        rfl
      · rw [htoken]
        exact hfills
      · rw [htoken]
        exact hfills.spells rfl hlast hstop.symm hk

end Cursor

/-! ## Fields that were read -/

/-- Comments behind one another in a text. Only the last of them can go on to the end of its line. -/
theorem Token.Tile.comments {a : Nat} {cs : List Char} {us ts : List Token}
    (h : Tile a cs (us ++ ts)) (hk : ∀ u ∈ us, u.kind = .comment) :
    ∃ isOpen, Comments isOpen (us.map Token.text) ∧
      ('\r' ∉ cs → Separate isOpen (us.map Token.text)) ∧
      (isOpen = true → ∀ t ∈ ts.head?, t.kind = .lineBreak) := by
  induction us generalizing a cs with
  | nil => exact ⟨false, .nil, fun _ => .nil, by simp⟩
  | cons u us ih =>
      obtain ⟨hu, hk⟩ := List.forall_mem_cons.mp hk
      obtain ⟨gap, body, rest, rfl, -, -, hheads, htile⟩ := h.cons_inv
      obtain ⟨rfl, he⟩ := heads_iff.mp hheads
      rcases he.isComment hu with ⟨hline, hend⟩ | hblock
      · cases us with
        | nil =>
            refine ⟨true, .line hline (by simp), fun hr => .line hline fun hlast => hr ?_,
              fun _ t ht => ?_⟩
            · exact List.mem_append_right _ (List.mem_append_left _ (List.mem_of_getLast? hlast))
            · obtain ⟨ts, rfl⟩ := List.head?_eq_some_iff.mp ht
              exact hend.kind htile
        | cons v us =>
            have hv := (List.forall_mem_cons.mp hk).1
            rw [hend.kind htile] at hv
            cases hv
      · obtain ⟨isOpen, hc, hsep, hopen⟩ := ih htile hk
        refine ⟨isOpen, .block hblock hc, fun hr => .block hblock (hsep fun hm => hr ?_), hopen⟩
        exact List.mem_append_right _ (List.mem_append_right _ hm)

theorem Lexeme.Names.mem {names : List String} {ls rest : List Lexeme} (h : Names names ls rest) :
    ∀ name ∈ names, (⟨.ident, name⟩ : Lexeme) ∈ ls := by
  induction h with
  | one => simp
  | more _ _ ih =>
      refine List.forall_mem_cons.mpr ⟨List.mem_cons_self, fun name hn => ?_⟩
      exact List.mem_cons_of_mem _ (List.mem_cons_of_mem _ (List.mem_append_right _ (ih name hn)))

/-- Spaces and tabs. -/
def IsIndent (s : String) : Prop :=
  ∀ c ∈ s.toList, SourceText.isIndentChar c = true

namespace SourceText

theorem bodyIndent?_isIndent {s : SourceText} {keyword offset : Nat} :
    ∀ indent ∈ s.bodyIndent? keyword offset, IsIndent indent := by
  intro indent h
  unfold bodyIndent? at h
  dsimp only at h
  split at h
  · rename_i hall
    cases h
    rw [Bool.and_eq_true, List.all_eq_true] at hall
    intro c hc
    exact hall.2 c (by rwa [String.toList_ofList] at hc)
  · cases h

theorem closeIndent_isIndent (s : SourceText) (keyword brace : Nat) :
    IsIndent (s.closeIndent keyword brace) := by
  unfold closeIndent
  dsimp only
  split
  · rename_i hall
    intro c hc
    exact List.all_eq_true.mp hall c (by rwa [String.toList_ofList] at hc)
  · intro c hc
    rw [lineIndent, String.toList_ofList] at hc
    exact List.all_eq_true.mp List.all_takeWhile c hc

end SourceText

namespace FieldDecl

open Lexeme

/-- The type of a field, read from its tokens in front of anything that is no part of it. -/
structure HasType (d : FieldDecl) (ts : List Token) : Prop where
  reads : ∀ {s : SourceText} {a : Nat} {c : Cursor} {more : List Token},
    s.Holds a d.tyText.toList → c.ahead = ts.map (moved 0 a) ++ more →
    headKind (more.map Token.lexeme) ∉ goesOn →
    ∃ ty e, TypeExpr.ReadsTo s c ty e ∧ ty.bare = d.ty.bare ∧ e.ahead = more
  first : headKind (ts.map Token.lexeme) ∈ [TokenKind.star, .lparen, .lbrack, .arrow, .ident]
  start : d.names = [] → headKind (ts.map Token.lexeme) = .star ∨
    headKind (ts.map Token.lexeme) = .ident
  embedded : d.names = [] → ∀ rest,
    headKind rest ∈ [TokenKind.string, .rawString, .comment, .lineBreak] →
    StartsEmbedded (ts.map Token.lexeme ++ rest)

/-- The parts of a field can be written anywhere. -/
structure Spelled (d : FieldDecl) : Prop where
  names : ∀ name ∈ d.names, IsName name
  type : ∃ ts, Spells d.tyText.toList ts ∧ d.HasType ts
  tag : ∀ tag ∈ d.tag, IsTag tag
  doc : ∀ line ∈ d.doc, IsComment line
  comment : ∃ isOpen, Comments isOpen d.comment

/-- The comments of a field are read again as they are. -/
structure Exact (d : FieldDecl) : Prop where
  doc : ∀ line ∈ d.doc, EndsPlain line
  comment : ∃ isOpen, Separate isOpen d.comment

end FieldDecl

structure StructExpr.Spelled (body : StructExpr) : Prop where
  fields : ∀ field ∈ body.fields, field.Spelled
  trailing : ∀ line ∈ body.trailing, IsComment line
  closeIndent : IsIndent body.closeIndent
  fieldIndent : ∀ indent ∈ body.fieldIndent, IsIndent indent

structure StructExpr.Exact (body : StructExpr) : Prop where
  fields : ∀ field ∈ body.fields, field.Exact
  trailing : ∀ line ∈ body.trailing, EndsPlain line

namespace Cursor

open Lexeme TypeExpr

variable {s : SourceText} {c d : Cursor}

theorem Over.isName {name : String} (h : Over s c) (hn : (⟨.ident, name⟩ : Lexeme) ∈ c.lexemes) :
    IsName name := by
  obtain ⟨t, ht, hl⟩ := List.mem_map.mp hn
  obtain ⟨hk, rfl⟩ := Lexeme.mk.inj hl
  obtain ⟨rest, he⟩ := h.ends t ht
  exact he.isName hk

theorem Over.isComment (h : Over s c) (hk : c.kind = .comment) : IsComment c.token.text := by
  have hne : c.kind ≠ .eof := by rw [hk]; decide
  have hm : c.token ∈ c.ahead := by
    rw [(passes_next hne).ahead]
    exact List.mem_cons_self
  obtain ⟨rest, he⟩ := h.ends c.token hm
  exact (he.isComment hk).imp And.left id

theorem Over.endsPlain (h : Over s c) (hk : c.kind = .comment) (hr : '\r' ∉ s.chars) :
    EndsPlain c.token.text := by
  intro hlast
  obtain ⟨front, rest, hs, -, htile⟩ := h.split
  rw [(passes_next (by rw [hk]; decide)).ahead] at htile
  obtain ⟨gap, body, tail, rfl, -, -, hheads, -⟩ := htile.cons_inv
  obtain ⟨rfl, -⟩ := heads_iff.mp hheads
  rw [hs] at hr
  exact hr (List.mem_append_right _ (List.mem_append_right _
    (List.mem_append_left _ (List.mem_of_getLast? hlast))))

/-- The type of a field can be written elsewhere. -/
theorem Over.hasType {names : List String} {typed : Cursor} {ty : TypeExpr} {e : typed.After}
    (ho : Over s typed) (hr : read s typed = .ok (ty, e))
    (hstart : names = [] → typed.kind = .star ∨ typed.kind = .ident)
    (hemb : names = [] → StartsEmbedded typed.lexemes) :
    ∃ ts, Spells (s.slice typed.token.start e.1.lastStop).toList ts ∧
      ∀ d : FieldDecl, d.names = names → d.ty = ty →
        d.tyText = s.slice typed.token.start e.1.lastStop → d.HasType ts := by
  obtain ⟨seg, hp, ht, hs⟩ := read_sound hr
  have hne : seg ≠ [] := by
    rintro rfl
    have hlen := congrArg List.length hp.ahead
    rw [List.nil_append] at hlen
    exact Nat.ne_of_lt e.2 hlen.symm
  obtain ⟨front, cs, rest, hchars, hfront, hstop, hfills, hspells⟩ := ho.spells hp hne hs
  have hslice : (s.slice typed.token.start e.1.lastStop).toList = cs := by
    rw [SourceText.slice, String.toList_ofList, ← hfront, ← hstop, hchars, slice_append]
  have hnels : seg.map Token.lexeme ≠ [] := by simpa using hne
  refine ⟨_, hslice ▸ hspells, fun d hnames hty htext => ?_⟩
  subst hnames hty
  rw [← htext] at hslice
  refine ⟨fun {s'} {a} {c} {more} hholds hc hmore => ?_, ?_, fun h => ?_, fun h rest hrest => ?_⟩
  · rw [hslice] at hholds
    let m : Copy :=
      { s, s', start := typed.token.start, start' := a, text := cs
        holds := ⟨front, rest, hchars, hfront⟩
        holds' := hholds
        more := e.1.ahead
        more' := more
        fits := .inr hmore }
    have htwin : m.Fronts typed c := by
      refine ⟨seg, hp.ahead, ?_, fun t ht => ?_⟩
      · rw [hc, List.map_map]
        rfl
      · obtain ⟨f, b, hcs, hstart⟩ := hfills.start_eq t ht
        exact ⟨f, b, hcs, hstart, (hfills.bounds t ht).2.2⟩
    obtain ⟨ty', e', hr', hb, htwin'⟩ := Copy.read_twin htwin hr (Nat.le_refl _)
    obtain ⟨xs, hx, hx', -⟩ := htwin'.tokens
    obtain rfl : xs = [] := by simpa [m] using hx
    exact ⟨ty', e', hr', hb, hx'⟩
  · rw [map_lexeme_moved]
    have := ht.headKind
    rwa [hp.lexemes, headKind_seg hnels] at this
  · have := hstart h
    rw [kind_eq, hp.lexemes, headKind_seg hnels] at this
    rwa [map_lexeme_moved]
  · have := hemb h
    rw [hp.lexemes] at this
    rw [map_lexeme_moved]
    generalize seg.map Token.lexeme = ls at this hnels
    rcases ls with - | ⟨l, - | ⟨m, ls⟩⟩
    · exact absurd rfl hnels
    · refine .inr ?_
      simp only [List.mem_cons, List.not_mem_nil, or_false] at hrest
      rcases hrest with h | h | h | h <;>
        rw [List.singleton_append, List.tail_cons, h] <;> decide
    · exact this

theorem Over.isTag (h : Over s c) : ∀ tag ∈ c.readTag.1, IsTag tag := by
  intro tag htag
  unfold readTag at htag
  split at htag
  · rename_i hk
    cases htag
    have hne : c.kind ≠ .eof := by rcases hk with hk | hk <;> rw [hk] <;> decide
    have hm : c.token ∈ c.ahead := by
      rw [(passes_next hne).ahead]
      exact List.mem_cons_self
    obtain ⟨rest, he⟩ := h.ends c.token hm
    exact he.isTag hk
  · cases htag

/-- The comments behind a field. -/
theorem Over.comments (h : Over s c) :
    ∃ isOpen, Comments isOpen ((c.run .comment).map Token.text) ∧
      ('\r' ∉ s.chars → Separate isOpen ((c.run .comment).map Token.text)) ∧
      (isOpen = true → c.skipComments.1.ahead = [] ∨ c.skipComments.1.kind = .lineBreak) := by
  obtain ⟨hpass, hkinds⟩ := skipComments_spec c
  obtain ⟨front, rest, hs, -, htile⟩ := h.split
  rw [hpass.ahead] at htile
  obtain ⟨isOpen, hc, hsep, hopen⟩ :=
    htile.comments fun u hu => hkinds u.lexeme (List.mem_map_of_mem hu)
  refine ⟨isOpen, hc, fun hr => hsep fun hm => hr ?_, fun ho => ?_⟩
  · rw [hs]
    exact List.mem_append_right _ hm
  · cases ha : c.skipComments.1.ahead with
    | nil => exact .inl rfl
    | cons t ts => exact .inr ((kind_of_ahead ha).trans (hopen ho t (by rw [ha]; rfl)))

theorem Over.readField_spelled {field : FieldDecl} {d : c.After} {docs : List String}
    (ho : Over s c) (h : readField s c = .ok (field, d)) (hd : ∀ line ∈ docs, IsComment line) :
    ({ field with doc := docs } : FieldDecl).Spelled ∧
      ('\r' ∉ s.chars → (∀ line ∈ docs, EndsPlain line) →
        ({ field with doc := docs } : FieldDecl).Exact) := by
  obtain ⟨hstart, -, names, typed, ty, e, hn, hr, -, rfl⟩ := readField_eq_ok h
  have hne : c.kind ≠ .eof := by rcases hstart with hk | hk <;> rw [hk] <;> decide
  obtain ⟨seg, hp, hnames⟩ := readFieldNames_eq_ok hne hn
  have htyped := ho.passes hp
  obtain ⟨seg', hp', -⟩ := read_sound hr
  obtain ⟨seg'', hp'', -⟩ := readTag_spec e.1
  have he := htyped.passes hp'
  have htype : ∃ ts, Spells (s.slice typed.1.token.start e.1.lastStop).toList ts ∧
      ∀ d : FieldDecl, d.names = names → d.ty = ty →
        d.tyText = s.slice typed.1.token.start e.1.lastStop → d.HasType ts := by
    refine htyped.hasType hr (fun hnil => ?_) fun hnil => ?_
    · rcases hnames with ⟨-, hl, -⟩ | ⟨-, hnames⟩
      · rwa [kind_eq, hl, ← kind_eq]
      · rw [hnil] at hnames
        cases hnames
    · rcases hnames with ⟨hemb, hl, -⟩ | ⟨-, hnames⟩
      · rwa [hl]
      · rw [hnil] at hnames
        cases hnames
  obtain ⟨isOpen, hc, hsep, -⟩ := (he.passes hp'').comments
  refine ⟨⟨fun name hname => ?_, ?_, he.isTag, hd, isOpen, hc⟩,
    fun hret hplain => ⟨hplain, isOpen, hsep hret⟩⟩
  · rcases hnames with ⟨-, -, rfl⟩ | ⟨-, hnames⟩
    · cases hname
    · exact ho.isName (hnames.mem name hname)
  · obtain ⟨ts, hts, hall⟩ := htype
    exact ⟨ts, hts, hall _ rfl rfl rfl⟩

/-- What was read of a body can be written anywhere. -/
structure Spelled (s : SourceText) (done : PartialBody) : Prop where
  fields : ∀ field ∈ done.fields, field.Spelled ∧ ('\r' ∉ s.chars → field.Exact)
  pending : ∀ line ∈ done.pending, IsComment line ∧ ('\r' ∉ s.chars → EndsPlain line)
  fieldIndent : ∀ indent ∈ done.fieldIndent, IsIndent indent

theorem Over.readBody_spelled {keyword : Nat} {done : PartialBody} {body : StructExpr} {d : c.After}
    (ho : Over s c) (hdone : Spelled s done) (h : readBody s keyword done c = .ok (body, d)) :
    body.Spelled ∧ ('\r' ∉ s.chars → body.Exact) := by
  obtain ⟨n, hn⟩ : ∃ n, c.ahead.length < n := ⟨_, Nat.lt_succ_self _⟩
  induction n generalizing c done d with
  | zero => exact absurd hn (Nat.not_lt_zero _)
  | succ n ih =>
      obtain ⟨hne, h⟩ := readBody_eq_ok h
      have hnext := ho.passes (passes_next hne)
      have hlen : c.next.ahead.length < n :=
        Nat.lt_of_lt_of_le (c.step hne).2 (Nat.le_of_lt_succ hn)
      have hindent : ∀ indent ∈ done.fieldIndent.or (s.bodyIndent? keyword c.token.start),
          IsIndent indent := by
        intro indent h
        rcases Option.or_eq_some_iff.mp h with h | ⟨-, h⟩
        · exact hdone.fieldIndent indent h
        · exact SourceText.bodyIndent?_isIndent indent h
      rcases h with ⟨-, e, hr, -⟩ | ⟨hk, e, hr, -⟩ | ⟨-, -, rfl⟩ | ⟨field, e, f, hf, hr, -⟩
      · exact ih hnext hdone hr hlen
      · have hkeep : Spelled s (keep s keyword done c) := by
          refine ⟨hdone.fields, fun line hl => ?_, hindent⟩
          rcases List.mem_append.mp hl with hl | hl
          · exact hdone.pending line hl
          · rw [List.mem_singleton.mp hl]
            exact ⟨ho.isComment hk, ho.endsPlain hk⟩
        exact ih hnext hkeep hr hlen
      · exact ⟨⟨fun field hf => (hdone.fields field hf).1, fun line hl => (hdone.pending line hl).1,
          s.closeIndent_isIndent _ _, hdone.fieldIndent⟩, fun hr =>
          ⟨fun field hf => (hdone.fields field hf).2 hr, fun line hl => (hdone.pending line hl).2 hr⟩⟩
      · obtain ⟨seg, hp, -⟩ := readField_sound hf
        have hadd : Spelled s (add s keyword done c field) := by
          refine ⟨fun d hd => ?_, by simp [add], hindent⟩
          rcases List.mem_append.mp hd with hd | hd
          · exact hdone.fields d hd
          · rw [List.mem_singleton.mp hd]
            obtain ⟨hspelled, hexact⟩ :=
              ho.readField_spelled hf fun line hl => (hdone.pending line hl).1
            exact ⟨hspelled, fun hr => hexact hr fun line hl => (hdone.pending line hl).2 hr⟩
        exact ih (ho.passes hp) hadd hr (Nat.lt_of_lt_of_le e.2 (Nat.le_of_lt_succ hn))

/-- The parts of a struct type that was read can be written anywhere. From a text without carriage
returns they are read again as they are. -/
theorem Over.read_spelled {body : StructExpr} {d : c.After} (ho : Over s c)
    (h : read s c = .ok (.struct body, d)) : body.Spelled ∧ ('\r' ∉ s.chars → body.Exact) := by
  obtain ⟨n, hn⟩ : ∃ n, c.ahead.length < n := ⟨_, Nat.lt_succ_self _⟩
  induction n generalizing c d with
  | zero => exact absurd hn (Nat.not_lt_zero _)
  | succ n ih =>
      obtain ⟨hne, ⟨e, hr⟩ | ⟨seg, e, f, hp, hr⟩⟩ := read_struct_eq_ok h
      · exact ih (ho.passes (passes_next hne)) hr
          (Nat.lt_of_lt_of_le (c.step hne).2 (Nat.le_of_lt_succ hn))
      · exact (ho.passes hp).readBody_spelled ⟨by simp, by simp, by simp⟩ hr

end Cursor

end StructLayout
