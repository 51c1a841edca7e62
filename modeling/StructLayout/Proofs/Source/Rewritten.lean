import StructLayout.Proofs.Source.Carried

/-!
Changed declarations are read again as they were written: behind the text in front of their types, in
front of the text behind their comments.
-/

namespace StructLayout

open Text Token

/-! ## Other texts in the place of some -/

namespace Token

/-- Behind a name it does not matter what a text goes on with. -/
theorem alike_of_ident {cs : List Char} (h : ∃ c ∈ cs, isIdent c = true) (rest rest' : List Char) :
    Alike (cs ++ rest) (cs ++ rest') := by
  obtain ⟨c, hm, hc⟩ := h
  cases cs with
  | nil => cases hm
  | cons d cs =>
      cases cs with
      | nil =>
          obtain rfl := List.mem_singleton.mp hm
          refine alike_cons ?_ ?_ _ _ <;> rintro rfl <;> cases hc
      | cons e cs => exact alike_cons_cons d e _ _

/-- Lines can stand in the place of others in front of a name: behind a line break, or if there are
none. -/
def Swaps (gap lines lines' head : List Char) : Prop :=
  (∃ c ∈ head, isIdent c = true) ∧
    (gap.getLast? = some '\n' ∨ lines = [] ∧ lines' = [])

variable {gap lines lines' head rest rest' : List Char}

theorem Swaps.alike (h : Swaps gap lines lines' head) (rest rest' : List Char) {c : Char}
    (hc : c ∈ gap.getLast?) :
    Alike (c :: (lines ++ (head ++ rest))) (c :: (lines' ++ (head ++ rest'))) := by
  obtain ⟨hn, hl | ⟨rfl, rfl⟩⟩ := h
  · obtain rfl : '\n' = c := Option.some.inj (hl.symm.trans hc)
    exact alike_cons (by decide) (by decide) _ _
  · exact alike_of_head (alike_of_ident hn rest rest').head c

theorem Swaps.alike_all (h : Swaps gap lines lines' head) (rest rest' : List Char) :
    Alike (gap ++ (lines ++ (head ++ rest))) (gap ++ (lines' ++ (head ++ rest'))) := by
  cases hg : gap.getLast? with
  | none =>
      obtain rfl := List.getLast?_eq_none_iff.mp hg
      obtain ⟨hn, hl | ⟨rfl, rfl⟩⟩ := h
      · cases hl
      · exact alike_of_ident hn rest rest'
  | some c =>
      exact alike_append (by rintro rfl; cases hg) fun c hc => h.alike rest rest' hc

theorem Swaps.move {a : Nat} {ts : List Token} (h : Swaps gap lines lines' head)
    (hf : Fills (lines ++ (head ++ rest)) a gap ts) (b : Nat) (rest' : List Char) :
    Fills (lines' ++ (head ++ rest')) b gap (ts.map (moved a b)) := by
  refine hf.move b (fun t ht hstop he => ?_) fun c hc => h.alike rest rest' hc
  obtain ⟨hn, hl | ⟨rfl, rfl⟩⟩ := h
  · -- the last token is the line break
    refine he.change (.inr ?_)
    rcases hf.last_char hl with hg | ⟨u, hu, -, he', hlast⟩
    · cases hg
    · obtain rfl : u = t := Option.some.inj (hu.symm.trans ht)
      rw [Stops, he'.lineBreak_of_last hlast]
      trivial
  · exact he.change (.inl (alike_of_ident hn rest rest'))

/-- Brackets and signs are one character long. -/
theorem Scanned.stem_inv {c : Char} {cs : List Char} {kind : TokenKind} {n : Nat}
    (h : Scanned c cs kind n) (hk : kind = .rbrack ∨ kind = .assign) :
    n = 0 ∧ (c = ']' ∨ c = '=') := by
  cases h with
  | number => unfold Token.number at hk; dsimp only at hk; split at hk <;> simp at hk
  | assign hc => exact ⟨rfl, .inr hc⟩
  | delimiter hd =>
      refine ⟨rfl, .inl ?_⟩
      unfold delimiter? at hd
      split at hd <;> first | rfl | (cases hd; simp at hk) | cases hd
  | _ => simp at hk

/-- The last character of what stands in front of a type. -/
theorem Ends.stem_last {t : Token} {c : Char} (h : t.Ends rest)
    (hk : t.kind ∈ [TokenKind.ident, .rbrack, .assign]) (hl : t.text.toList.getLast? = some c) :
    isIdent c = true ∨ c = ']' ∨ c = '=' := by
  rcases List.mem_cons.mp hk with hk | hk
  · obtain ⟨d, cs, htext, hd, -, hcs⟩ := h.isName hk
    rw [htext] at hl
    rcases List.mem_cons.mp (List.mem_of_getLast? hl) with rfl | hm
    · exact .inl hd
    · exact .inl (hcs c hm)
  · obtain ⟨d, cs, htext, -, hscan⟩ := h
    obtain ⟨hn, hd⟩ := hscan.stem_inv (by simpa using hk)
    obtain rfl := List.length_eq_zero_iff.mp hn
    rw [htext] at hl
    cases hl
    exact .inr hd

/-- What stands in front of a type can stand in front of any other one that it does not touch. -/
theorem Fills.move_stem {head : List Char} {a : Nat} {ts : List Token} {c c' : Char}
    (h : Fills (c :: rest) a head ts) (hc : c ≠ '\n')
    (hlast : ∃ last, ts.getLast? = some last ∧ last.kind ∈ [TokenKind.ident, .rbrack, .assign])
    (ha : ∀ d ∈ head.getLast?, isIdent d = false) (b : Nat) (hc' : c' ≠ '\n' ∧ c' ≠ '=')
    (rest' : List Char) : Fills (c' :: rest') b head (ts.map (moved a b)) := by
  obtain ⟨last, hlast, hk⟩ := hlast
  have touch {d : Char} (hd : head.getLast? = some d) : isGap d = true ∨ d = ']' ∨ d = '=' := by
    refine (h.last_char hd).imp_right fun ⟨t, ht, _, he, hl⟩ => ?_
    obtain rfl : last = t := Option.some.inj (hlast.symm.trans ht)
    refine (he.stem_last hk hl).resolve_left ?_
    rw [ha d hd]
    exact Bool.false_ne_true
  refine h.move b (fun t ht hstop he => ?_) fun d hd => ?_
  · obtain rfl : last = t := Option.some.inj (hlast.symm.trans ht)
    refine he.change (.inr ?_)
    simp only [List.mem_cons, List.not_mem_nil, or_false] at hk
    unfold Stops
    rcases hk with hk | hk | hk <;> rw [hk]
    · -- the name does not touch the type
      obtain ⟨e, cs, htext, he', -, hcs⟩ := he.isName hk
      obtain ⟨-, init, hinit⟩ := h.last ht hstop
      obtain ⟨d, hd⟩ : ∃ d, (e :: cs).getLast? = some d := ⟨_, List.getLast?_cons⟩
      have hident : isIdent d = true :=
        (List.mem_cons.mp (List.mem_of_getLast? hd)).elim (fun h => h ▸ he') (hcs d)
      rw [ha d (by rw [hinit, htext, List.getLast?_append, hd]; rfl)] at hident
      cases hident
    · trivial
    · exact fun hh => hc'.2 (Option.some.inj hh)
  · have hd := touch hd
    refine ⟨rfl, ?_, ?_⟩
    · have : d ≠ '.' := by rintro rfl; rcases hd with hd | hd | hd <;> cases hd
      simp only [List.isPrefixOf, beq_eq_false_iff_ne.mpr this.symm, Bool.false_and]
    · simp [endsLine_cons, hc, hc'.1]

end Token

namespace SourceText

variable {s : SourceText} {front rest : List Char} {indent : String}

/-- A declaration behind its indentation starts its line. -/
theorem declStart_indent (hs : s.chars = front ++ indent.toList ++ rest) (hf : AtLine front)
    (hi : IsIndent indent) :
    s.declStart (byteLen front + byteLen indent.toList) = byteLen front ∧
      s.indentOf (byteLen front + byteLen indent.toList) = indent := by
  have hall : indent.toList.all isIndentChar = true := List.all_eq_true.mpr hi
  unfold declStart indentOf
  dsimp only
  rw [lineHead_indent hs hf hi, if_pos hall, if_pos hall, Nat.add_sub_cancel, String.ofList_toList]
  exact ⟨rfl, rfl⟩

theorem lineStart_indent (hs : s.chars = front ++ indent.toList ++ rest) (hf : AtLine front)
    (hi : IsIndent indent) :
    s.lineStart (byteLen front + byteLen indent.toList) = byteLen front := by
  rw [lineStart, lineHead_indent hs hf hi, Nat.add_sub_cancel]

end SourceText

namespace TypeSpec

open Cursor Lexeme
open TypeExpr (ReadsTo)

variable {s s' : SourceText} {R : TypeSpec → TypeSpec → Prop} {p : Place}
variable {c : Cursor} {seg : List Token} {front front' old new : List Char} {es : List Edit}

/-! ## Declarations that are written -/

/-- The struct that a changed declaration is written with. -/
def rewritten? (t : TypeSpec) : Option StructExpr :=
  if t.modified then t.ty.struct? else none

theorem edits_eq_nil {t : TypeSpec} (h : t.rewritten? = none) (o : PrintOptions) : t.edits o = [] := by
  unfold rewritten? at h
  unfold edits
  split
  · rename_i body hty
    split
    · rename_i hm
      rw [if_pos hm, hty] at h
      cases h
    · rfl
  · rfl

theorem edits_of_rewritten {t : TypeSpec} {body : StructExpr} (h : t.rewritten? = some body)
    (o : PrintOptions) : t.edits o =
      [⟨t.docSpan, t.printDoc⟩, ⟨t.tySpan, body.print o⟩, ⟨t.commentSpan, t.printComment⟩] := by
  unfold rewritten? at h
  split at h
  · rename_i hm
    unfold edits
    rw [h]
    exact if_pos hm
  · cases h

/-- A declaration can be written in the place of another one: docs only where it starts its line, a
comment up to the end of the line only there, and not right behind its name. -/
structure Writable (s : SourceText) (t u : TypeSpec) (body : StructExpr) : Prop where
  name : u.name = t.name
  isAlias : u.isAlias = t.isAlias
  isGeneric : u.isGeneric = t.isGeneric
  indent : u.indent = t.indent
  body : body.Spelled
  doc : ∀ line ∈ u.doc, IsComment line
  line : u.doc ≠ [] → (takeBytes t.docSpan.start s.chars).getLast? = some '\n'
  apart : ∀ c ∈ (takeBytes t.tySpan.start s.chars).getLast?, isIdent c = false
  comment : ∃ isOpen, Comments isOpen u.comment ∧
    (isOpen = true → EndsLine (dropBytes t.commentSpan.stop s.chars))

/-- A declaration that was read again is the one that was written, but for its place. What was written
stands where it was read. -/
structure Shows (s' : SourceText) (o : PrintOptions) (u : TypeSpec) (body : StructExpr)
    (t' : TypeSpec) : Prop where
  name : t'.name = u.name
  isAlias : t'.isAlias = u.isAlias
  isGeneric : t'.isGeneric = u.isGeneric
  ty : ∃ body', t'.ty = .struct body' ∧ body.Shows o body'
  doc : List.Forall₂ StructLayout.Again u.doc t'.doc
  comment : ∀ isOpen, Separate isOpen u.comment → t'.comment = u.comment
  indent : u.doc ≠ [] → t'.indent = u.indent
  docText : Text.slice t'.docSpan.start t'.docSpan.stop s'.chars = u.printDoc.toList
  tyText : Text.slice t'.tySpan.start t'.tySpan.stop s'.chars = (body.print o).toList
  commentText : ∀ isOpen, Separate isOpen u.comment →
    Text.slice t'.commentSpan.start t'.commentSpan.stop s'.chars = u.printComment.toList

/-! ### Docs -/

theorem printDoc_toList (t : TypeSpec) : t.printDoc.toList = indented t.indent t.doc := by
  simp [printDoc, indented, String.toList_join, List.flatMap_map]

theorem docs_fills {lines : List String} {indent : String} (hl : ∀ line ∈ lines, IsComment line)
    (hi : IsIndent indent) (a : Nat) (rest : List Char) :
    ∃ ts, Fills rest a (indented indent lines) ts ∧ DocLines lines ts ∧
      ∀ t ∈ ts.head?, t.start = a + byteLen indent.toList := by
  induction lines generalizing a with
  | nil => exact ⟨[], .nil a, .nil, by simp⟩
  | cons line lines ih =>
      obtain ⟨hline, hl⟩ := List.forall_mem_cons.mp hl
      obtain ⟨t, u, hk, hstart, hagain, hu, hfills⟩ := hline.line_fills (isGap_of_isIndent hi) a
        (indented indent lines ++ rest)
      obtain ⟨ts, hts, habove, -⟩ := ih hl (a + byteLen (indent.toList ++ line.toList ++ ['\n']))
      exact ⟨_, hfills.append hts, .cons hk hagain hu habove, by simpa using hstart⟩

theorem atLine_indented_ne {indent : String} {lines : List String} (h : lines ≠ [])
    (front : List Char) : AtLine (front ++ indented indent lines) := by
  rcases List.eq_nil_or_concat lines with rfl | ⟨init, last, rfl⟩
  · exact absurd rfl h
  · have : front ++ indented indent (init.concat last) =
        front ++ indented indent init ++ indent.toList ++ last.toList ++ ['\n'] := by
      simp [indented]
    rw [this]
    exact atLine_newline _

/-! ### Comments -/

theorem not_isBlockComment {cs : List Char} (h : IsLineComment cs) : ¬IsBlockComment cs := by
  obtain ⟨body, rfl, -⟩ := h
  rintro ⟨body', hb, -⟩
  cases hb

theorem isOpen_eq {isOpen isOpen' : Bool} {cs : List String} (h : Comments isOpen cs)
    (h' : Comments isOpen' cs) : isOpen' = isOpen := by
  induction h generalizing isOpen' with
  | nil =>
      cases h'
      rfl
  | block hc _ ih =>
      cases h' with
      | block _ h' => exact ih h'
      | line hc' => exact absurd hc (not_isBlockComment hc')
  | line hc =>
      cases h' with
      | block hc' => exact absurd hc' (not_isBlockComment hc)
      | line => rfl

theorem printComment_toList (t : TypeSpec) : t.comment = [] ∧ t.printComment.toList = [] ∨
    t.printComment.toList = ' ' :: (" ".intercalate t.comment).toList := by
  unfold printComment
  cases hc : t.comment with
  | nil => exact .inl ⟨rfl, rfl⟩
  | cons line lines =>
      right
      rw [List.isEmpty_cons, if_neg Bool.false_ne_true, String.toList_append]
      rfl

theorem comments_fills {u : TypeSpec} {isOpen : Bool} {rest : List Char}
    (h : Comments isOpen u.comment) (hr : isOpen = true → EndsLine rest) (a : Nat) :
    ∃ ts, (∀ t ∈ ts, t.kind = .comment) ∧ Fills rest a u.printComment.toList ts ∧
      ∀ isOpen, Separate isOpen u.comment → ts.map Token.text = u.comment ∧
        (ts.getLast?.map Token.stop).getD a = a + byteLen u.printComment.toList := by
  rcases printComment_toList u with ⟨hnil, htext⟩ | htext
  · rw [htext]
    exact ⟨[], by simp, .nil a, fun _ _ => ⟨by rw [hnil]; rfl, rfl⟩⟩
  · rw [htext]
    by_cases hsep : ∃ isOpen, Separate isOpen u.comment
    · obtain ⟨isOpen', hsep⟩ := hsep
      have hopen := isOpen_eq h hsep.comments
      obtain ⟨ts, hk, hmap, hf, hlast⟩ := hsep.fills (fun ho => hr (hopen ▸ ho)) (a + ' '.utf8Size)
      refine ⟨ts, hk, .gap rfl hf, fun _ _ => ⟨hmap, ?_⟩⟩
      cases hl : ts.getLast? with
      | some t =>
          rw [byteLen_cons, ← Nat.add_assoc]
          exact hlast t hl
      | none =>
          obtain rfl := List.getLast?_eq_none_iff.mp hl
          have hnil : u.comment = [] := hmap.symm
          rw [printComment, hnil] at htext
          cases htext
    · obtain ⟨ts, hk, hf⟩ := h.fills (List.forall_mem_nil _) hr (a + ' '.utf8Size)
      rw [List.append_nil] at hf
      exact ⟨ts, hk, .gap rfl hf, fun isOpen h => absurd ⟨isOpen, h⟩ hsep⟩

/-! ### The text in front of a type -/

theorem Place.Split.docs {r : p.Reading s} {lead stem types : List Token}
    (h : Place.Split r lead stem types) (hp : p.IsRead s) (ho : Over s p.base) :
    ∃ lead₁ lead₂ top, lead = lead₁ ++ lead₂ ∧ p.base.Passes lead₁ top ∧
      docTokens top.before = [] ∧ top.Meets p.spec.docSpan.start ∧
      (lead₂ = [] ∧ p.spec.docSpan.start = p.spec.docSpan.stop ∨
        (takeBytes p.spec.docSpan.start s.chars).getLast? = some '\n') := by
  have hspan : p.spec.docSpan = ⟨((docTokens p.anchor.before).head?.map fun t =>
      s.lineStart t.start).getD (s.declStart p.anchor.token.start),
        s.declStart p.anchor.token.start⟩ := by
    rw [r.spec]
    rfl
  have hbefore := h.passes_lead.before
  have hanchor := ho.passes h.passes_lead
  rcases docTokens_eq hp.shut lead.reverse with hnone | ⟨first, docs, hdocs, post, pre, br, hlead, hk, hnone⟩
  · rw [← hbefore] at hnone
    obtain ⟨u, us, hu⟩ : ∃ u us, p.anchor.before = u :: us := by
      obtain ⟨t, ts, ht, -⟩ := hp.shut.cons
      rw [hbefore, ht]
      cases lead.reverse <;> exact ⟨_, _, rfl⟩
    have hne : p.anchor.kind ≠ .eof := by rw [hp.anchor]; decide
    obtain ⟨hle, hge, -⟩ := hanchor.declStart hu hne (by rw [hp.anchor]; decide)
    refine ⟨lead, [], p.anchor, by simp, h.passes_lead, hnone, ⟨?_, fun t ht => ?_⟩, .inl ⟨rfl, ?_⟩⟩
    · rw [hspan, hnone]
      exact hle
    · rw [hspan, hnone]
      exact Nat.le_trans hge ((hanchor.meets_start hne).2 t ht)
    · rw [hspan, hnone]
      rfl
  · rw [← hbefore] at hdocs
    have hlead : lead = pre.reverse ++ [br] ++ first :: post.reverse := by
      rw [← List.reverse_reverse lead, hlead]
      simp
    let top : Cursor :=
      ⟨br :: (pre ++ p.base.before), first :: (post.reverse ++ p.anchor.ahead), p.base.stop⟩
    have htop : p.base.Passes (pre.reverse ++ [br]) top :=
      ⟨by rw [h.passes_lead.ahead, hlead]; simp [top], by simp [top], rfl⟩
    have hover := ho.passes htop
    have htile : Tile 0 s.chars ((pre ++ p.base.before).reverse ++
        br :: first :: (post.reverse ++ p.anchor.ahead)) := by
      have := hover
      simpa [Over, top] using this
    have hstart : p.spec.docSpan.start = top.lastStop := by
      rw [hspan, hdocs]
      exact s.lineStart_of_lineBreak htile hk
    refine ⟨_, _, top, hlead, htop, hnone, hstart ▸ hover.meets_lastStop, .inr ?_⟩
    rw [hstart]
    exact (hover.newline rfl).mpr hk


theorem Place.Reading.declStart (r : p.Reading s) :
    p.spec.docSpan.stop = s.declStart p.anchor.token.start ∧
      p.spec.indent = s.indentOf p.anchor.token.start ∧
      p.spec.tySpan = ⟨r.typed.token.start, r.behind.lastStop⟩ := by
  rw [r.spec]
  exact ⟨rfl, rfl, rfl⟩

/-- The text in front of a declaration, its docs, what stands in front of its type, and the type. -/
structure Place.Pieces (s : SourceText) (p : Place) (seg lead docTokens stem : List Token)
    (start : Nat) (gap docs head ty more : List Char) : Prop where
  none : StructLayout.docTokens (lead.reverse ++ p.base.before) = []
  gap_fills : Fills (docs ++ (head ++ (ty ++ more))) start gap (seg ++ lead)
  head_fills : Fills (ty ++ more) p.spec.docSpan.stop head stem
  docs : docTokens = [] ∧ docs = [] ∨ gap.getLast? = some '\n'
  newline : (takeBytes p.spec.docSpan.start s.chars).getLast? = some '\n' → gap.getLast? = some '\n'
  line : gap.getLast? = some '\n' → ∃ init br, lead = init ++ [br] ∧ br.kind = .lineBreak
  indent : IsIndent p.spec.indent ∧ (∃ tail, head = p.spec.indent.toList ++ tail) ∧
    p.anchor.token.start = p.spec.docSpan.stop + byteLen p.spec.indent.toList
  name : ∃ c ∈ head, isIdent c = true
  ty : ∃ c tail, ty = c :: tail ∧ c ≠ '\n'

theorem Place.Split.pieces {r : p.Reading s} {lead stem types : List Token}
    (h : Place.Split r lead stem types) (hp : p.IsRead s) (ho : Over s c) (hc : c.Passes seg p.base)
    {gap docs head ty more : List Char} 
    (hs : s.chars = front ++ (gap ++ (docs ++ (head ++ (ty ++ more)))))
    (hf : byteLen front = c.lastStop) (hgap : p.spec.docSpan.start = c.lastStop + byteLen gap)
    (hdocs : p.spec.docSpan.stop = p.spec.docSpan.start + byteLen docs)
    (hhead : p.spec.tySpan.start = p.spec.docSpan.stop + byteLen head)
    (hty : p.spec.tySpan.stop = p.spec.tySpan.start + byteLen ty) :
    ∃ lead₁ lead₂, lead = lead₁ ++ lead₂ ∧
      Place.Pieces s p seg lead₁ lead₂ stem c.lastStop gap docs head ty more := by
  obtain ⟨hstop, hindent, hspan⟩ := r.declStart
  have hbase := ho.passes hc
  have hanchor := hbase.passes h.passes_lead
  have htyped := hanchor.passes h.passes_stem
  have hbehind := htyped.passes h.passes_types
  obtain ⟨lead₁, lead₂, top, rfl, htop, hnone, hmeets, hor⟩ := h.docs hp hbase
  have hne : p.anchor.kind ≠ .eof := by rw [hp.anchor]; decide
  have htypedne : r.typed.kind ≠ .eof := by
    obtain ⟨name, hgrammar⟩ := h.grammar
    have := hgrammar.headKind
    intro he
    rw [← kind_eq, he] at this
    simp at this
  -- what the bytes of the spans are
  have hdocs₁ : byteLen (front ++ gap ++ docs) = p.spec.docSpan.stop := by
    simp only [byteLen_append]
    omega
  have hhead₁ : byteLen (front ++ gap ++ docs ++ head) = r.typed.token.start := by
    have : p.spec.tySpan.start = r.typed.token.start := by rw [hspan]
    simp only [byteLen_append]
    omega
  have hty₁ : byteLen (front ++ gap ++ docs ++ head ++ ty) = r.behind.lastStop := by
    have : p.spec.tySpan.stop = r.behind.lastStop := by rw [hspan]
    simp only [byteLen_append]
    omega
  have hgapfills : Fills (docs ++ (head ++ (ty ++ more))) (byteLen front) gap (seg ++ lead₁) := by
    refine ho.fills (hc.trans htop) hs ?_ ?_
    · rw [hf]
      exact ho.meets_lastStop
    · rw [hf, ← hgap]
      exact hmeets
  have hu : ∃ u us, p.anchor.before = u :: us := by
    obtain ⟨t, ts, ht, -⟩ := hp.shut.cons
    rw [h.passes_lead.before, ht]
    cases (lead₁ ++ lead₂).reverse <;> exact ⟨_, _, rfl⟩
  obtain ⟨u, us, hu⟩ := hu
  obtain ⟨hle, hge, -⟩ := hanchor.declStart hu hne (by rw [hp.anchor]; decide)
  have hheadfills : Fills (ty ++ more) (byteLen (front ++ gap ++ docs)) head stem := by
    refine hanchor.fills h.passes_stem (by rw [hs]; simp) ?_ ?_
    · rw [hdocs₁, hstop]
      exact ⟨hle, fun t ht => Nat.le_trans hge ((hanchor.meets_start hne).2 t ht)⟩
    · rw [← byteLen_append, hhead₁]
      exact htyped.meets_start htypedne
  have htyfills : Fills more (byteLen (front ++ gap ++ docs ++ head)) ty types := by
    refine htyped.fills h.passes_types (by rw [hs]; simp) ?_ ?_
    · rw [hhead₁]
      exact htyped.meets_start htypedne
    · rw [← byteLen_append, hty₁]
      exact hbehind.meets_lastStop
  have htake : takeBytes p.spec.docSpan.start s.chars = front ++ gap := by
    rw [hgap, ← hf, ← byteLen_append, hs, ← List.append_assoc, takeBytes_byteLen]
  have hnewline : (takeBytes p.spec.docSpan.start s.chars).getLast? = some '\n' →
      gap.getLast? = some '\n' := by
    intro hl
    rw [htake] at hl
    rcases List.eq_nil_or_concat gap with rfl | ⟨init, last, rfl⟩
    · -- nothing stands between the declaration and what was read before it
      obtain ⟨rfl, -⟩ := List.append_eq_nil_iff.mp hgapfills.eq_nil
      obtain ⟨t, ts, ht, hk⟩ := hp.shut.cons
      have hb : c.before = t :: ts := hc.before.symm.trans ht
      refine absurd ((ho.newline hb).mp ?_) hk
      rwa [← hf, hs, takeBytes_byteLen, ← List.append_nil front]
    · simpa using hl
  refine ⟨lead₁, lead₂, rfl, ⟨?_, hf ▸ hgapfills, hdocs₁ ▸ hheadfills, ?_, hnewline, fun hl => ?_, ?_, ?_, ?_⟩⟩
  · rw [← htop.before]
    exact hnone
  · refine hor.imp (fun ⟨hlead, hspan⟩ => ⟨hlead, eq_nil_of_byteLen ?_⟩) hnewline
    omega
  · rcases hgapfills.last_char hl with hgap | ⟨t, ht, -, he, hlast⟩
    · cases hgap
    · have hk := he.lineBreak_of_last hlast
      rcases List.eq_nil_or_concat lead₁ with hnil | ⟨init, br, hcat⟩
      · rw [hnil, List.append_nil] at ht
        obtain ⟨u, us, hu, hne⟩ := hp.shut.cons
        have := hc.before
        rw [hu] at this
        have hhead := congrArg List.head? this
        rw [List.head?_append, List.head?_reverse, ht] at hhead
        cases hhead
        exact absurd hk hne
      · rw [List.concat_eq_append] at hcat
        rw [hcat, ← List.append_assoc, List.getLast?_concat] at ht
        cases ht
        exact ⟨init, t, hcat, hk⟩
  · obtain ⟨-, -, hbound⟩ := hanchor.token hne
    have hcut : s.chars = front ++ gap ++ docs ++ (head ++ (ty ++ more)) := by
      rw [hs]
      simp
    obtain ⟨indent, tail, htail, hi, hlen, hof⟩ :=
      s.declStart_split hcut (hdocs₁.trans hstop) hbound
    rw [hdocs₁] at hlen
    rw [hindent, hof]
    refine ⟨hi, ?_, hlen⟩
    have hstem : stem ≠ [] := by
      obtain ⟨last, hl, -⟩ := h.last
      rintro rfl
      cases hl
    have hlt := (hanchor.token hne).2.1
    have hstop := hanchor.stop_le hne h.passes_stem hstem
    have hstart := (htyped.token htypedne).1
    rw [byteLen_append, hdocs₁] at hhead₁
    rcases List.append_eq_append_iff.mp htail with ⟨mid, hm, -⟩ | ⟨mid, hm, -⟩
    · have hlen' := congrArg byteLen hm
      rw [byteLen_append] at hlen'
      have hmid : mid = [] := eq_nil_of_byteLen (by omega)
      exact ⟨[], by rw [hm, hmid]; simp⟩
    · exact ⟨mid, hm⟩
  · have hm : p.anchor.token ∈ stem := by
      have hahead := h.passes_stem.ahead
      rw [(passes_next hne).ahead] at hahead
      cases stem with
      | nil =>
          obtain ⟨last, hl, -⟩ := h.last
          cases hl
      | cons t ts =>
          rw [(List.cons.inj hahead).1]
          exact List.mem_cons_self
    obtain ⟨⟨rest, he⟩, hchars⟩ := hheadfills.mem p.anchor.token hm
    obtain ⟨c, cs, htext, hident, -⟩ := he.isName hp.anchor
    exact ⟨c, hchars c (by rw [htext]; exact List.mem_cons_self), hident⟩
  · obtain ⟨t, d, tail, ts, rfl, rfl, -, after, n, hscan⟩ := htyfills.head_char (fun t ht => by
      obtain ⟨ts, rfl⟩ := List.head?_eq_some_iff.mp ht
      rw [hhead₁, (next_of_ahead h.passes_types.ahead).1]) h.ne
    refine ⟨d, tail, rfl, ?_⟩
    rintro rfl
    have hk : t.kind = .lineBreak := by
      have := scan_of_scanned hscan
      rw [show scan '\n' after = .ok (.lineBreak, 0) from rfl] at this
      exact (congrArg Prod.fst (Except.ok.inj this)).symm
    obtain ⟨name, hgrammar⟩ := h.grammar
    have hfirst := hgrammar.headKind
    rw [← kind_eq, kind_of_ahead h.passes_types.ahead, hk] at hfirst
    simp at hfirst

/-! ### What is written -/

/-- What is written above a declaration is read as its docs. -/
theorem declared_docs {u : TypeSpec} {docs back : List Token} {anchor : Cursor} {tail : List Char}
    (name : Token) (f g : Cursor) (isGeneric isAlias : Bool) (ty : TypeExpr)
    (hs : s.chars = front ++ (u.printDoc.toList ++ (u.indent.toList ++ tail)))
    (hi : IsIndent u.indent) (hline : u.doc ≠ [] → AtLine front) (hd : DocLines u.doc docs)
    (hstart : ∀ t ∈ docs.head?, t.start = byteLen front + byteLen u.indent.toList)
    (hb : u.doc ≠ [] → ∀ t ∈ back.head?, t.kind = .lineBreak) (hn : docTokens back = [])
    (hback : anchor.before = docs.reverse ++ back)
    (ht : anchor.token.start =
      byteLen front + byteLen u.printDoc.toList + byteLen u.indent.toList) :
    let t := declared s anchor name isGeneric isAlias f ty g
    List.Forall₂ StructLayout.Again u.doc t.doc ∧ (u.doc ≠ [] → t.indent = u.indent) ∧
      Text.slice t.docSpan.start t.docSpan.stop s.chars = u.printDoc.toList := by
  intro t
  by_cases hnil : u.doc = []
  · obtain rfl : docs = [] := by
      rw [hnil] at hd
      cases hd
      rfl
    have hnone : docTokens anchor.before = [] := by rw [hback]; exact hn
    refine ⟨?_, absurd hnil, ?_⟩
    · show List.Forall₂ StructLayout.Again u.doc ((docTokens anchor.before).map Token.text)
      rw [hnone, hnil]
      exact .nil
    · have hspan : t.docSpan = ⟨s.declStart anchor.token.start, s.declStart anchor.token.start⟩ := by
        show Span.mk _ _ = _
        rw [hnone]
        rfl
      rw [hspan, printDoc_toList, hnil, Text.slice, Nat.sub_self]
      exact takeBytes_byteLen [] _
  · obtain ⟨docs', hdocs, hagain, hhead⟩ := hd.docTokens (hb hnil)
    rw [hn, List.nil_append, ← hback] at hdocs
    obtain ⟨line, lines, hdoc⟩ := List.exists_cons_of_ne_nil hnil
    obtain ⟨first, docs, rfl⟩ : ∃ first more, docs = first :: more := by
      rw [hdoc] at hd
      cases hd
      exact ⟨_, _, rfl⟩
    have hprint := printDoc_toList u
    have hsdoc : s.chars = front ++ u.indent.toList ++
        (line.toList ++ ['\n'] ++ indented u.indent lines ++ (u.indent.toList ++ tail)) := by
      rw [hs, hprint, hdoc]
      simp [indented]
    have hsdecl : s.chars = front ++ u.printDoc.toList ++ u.indent.toList ++ tail := by
      rw [hs]
      simp
    obtain ⟨hdecl, hindent⟩ := SourceText.declStart_indent hsdecl
      (by rw [hprint]; exact atLine_indented_ne hnil front) hi
    rw [byteLen_append, ← ht] at hdecl hindent
    have hspan : t.docSpan = ⟨byteLen front, byteLen front + byteLen u.printDoc.toList⟩ := by
      show Span.mk (((docTokens anchor.before).head?.map _).getD _) _ = _
      rw [hdocs, hhead, hdecl]
      show Span.mk (s.lineStart first.start) _ = _
      rw [hstart first rfl, SourceText.lineStart_indent hsdoc (hline hnil) hi]
    refine ⟨?_, fun _ => hindent, ?_⟩
    · show List.Forall₂ StructLayout.Again u.doc ((docTokens anchor.before).map Token.text)
      rw [hdocs]
      exact hagain
    · rw [hspan, hs, ← List.append_assoc]
      exact slice_append _ _ _

/-- The tokens that a changed declaration is written with, behind some text and around another one. -/
structure Written (s : SourceText) (o : PrintOptions) (u : TypeSpec) (body : StructExpr)
    (front head : List Char) (docs printed comments : List Token) : Prop where
  above : DocLines u.doc docs
  above_start : ∀ t ∈ docs.head?, t.start = byteLen front + byteLen u.indent.toList
  first : ∀ t ∈ printed.head?, t.kind = .ident ∧
    t.start = byteLen (front ++ u.printDoc.toList ++ head)
  last : printed.getLast?.map Token.stop =
    some (byteLen (front ++ u.printDoc.toList ++ head) + byteLen (body.print o).toList)
  reads : StructExpr.ReadsPrinted s o body printed
  kinds : ∀ t ∈ comments, t.kind = .comment
  texts : ∀ isOpen, Separate isOpen u.comment → comments.map Token.text = u.comment ∧
    (comments.getLast?.map Token.stop).getD
        (byteLen (front ++ u.printDoc.toList ++ head) + byteLen (body.print o).toList) =
      byteLen (front ++ u.printDoc.toList ++ head) + byteLen (body.print o).toList +
        byteLen u.printComment.toList

theorem print_last (body : StructExpr) (o : PrintOptions) :
    (body.print o).toList.getLast? = some '\x7d' := by
  unfold StructExpr.print
  split
  · rfl
  · dsimp only
    rw [String.toList_append, List.getLast?_append]
    rfl

theorem Writable.written {t u : TypeSpec} {body : StructExpr} {head rest : List Char}
    (h : Writable s t u body) (hi : IsIndent u.indent) (o : PrintOptions)
    (hs : s'.chars = front ++ (u.printDoc.toList ++ (head ++ ((body.print o).toList ++
      (u.printComment.toList ++ rest)))))
    (hr : EndsLine (dropBytes t.commentSpan.stop s.chars) → EndsLine rest) :
    ∃ docs printed comments, Written s' o u body front head docs printed comments ∧
      Fills (head ++ ((body.print o).toList ++ (u.printComment.toList ++ rest))) (byteLen front)
        u.printDoc.toList docs ∧
      Fills rest (byteLen (front ++ u.printDoc.toList ++ head))
        ((body.print o).toList ++ u.printComment.toList) (printed ++ comments) := by
  obtain ⟨docs, hdocs, habove, hstart⟩ := docs_fills h.doc hi (byteLen front)
    (head ++ ((body.print o).toList ++ (u.printComment.toList ++ rest)))
  have hbody : s'.chars = front ++ u.printDoc.toList ++ head ++ (body.print o).toList ++
      (u.printComment.toList ++ rest) := by
    rw [hs]
    simp
  obtain ⟨us, hprinted, hreads⟩ := h.body.print_fills o hbody
  obtain ⟨isOpen, hcomment, hopen⟩ := h.comment
  obtain ⟨comments, hkinds, hfills, htexts⟩ := comments_fills hcomment
    (fun ho => hr (hopen ho))
    (byteLen (front ++ u.printDoc.toList ++ head) + byteLen (body.print o).toList)
  refine ⟨docs, _, comments, ⟨habove, hstart, ?_, ?_, hreads, hkinds, htexts⟩, ?_,
    hprinted.append hfills⟩
  · rintro t ⟨⟩
    exact ⟨rfl, rfl⟩
  · rcases hprinted.last_char (print_last body o) with hg | ⟨t, ht, hstop, -⟩
    · cases hg
    · rw [ht, ← hstop]
      rfl
  · rw [printDoc_toList]
    exact hdocs

/-- What was written is read behind a place in front of it. -/
theorem Written.read {u : TypeSpec} {body : StructExpr} {o : PrintOptions} {head : List Char}
    {docs printed comments ts : List Token} {typed : Cursor}
    (h : Written s o u body front head docs printed comments)
    (hc : typed.ahead = printed ++ (comments ++ ts)) (hts : ∀ t ∈ ts.head?, t.kind ≠ .comment) :
    ∃ body' d, ReadsTo s typed (.struct body') d ∧ body.Shows o body' ∧
      d.run .comment = comments ∧ d.skipComments.1.ahead = ts ∧
      typed.token.start = byteLen (front ++ u.printDoc.toList ++ head) ∧
      d.lastStop = byteLen (front ++ u.printDoc.toList ++ head) +
        byteLen (body.print o).toList := by
  obtain ⟨body', d, hreads, hd, hshows⟩ := h.reads typed _ hc
  obtain ⟨hrun, hahead⟩ := skipComments_ahead hd h.kinds hts
  refine ⟨body', d, hreads, hshows, hrun, hahead, ?_, ?_⟩
  · cases printed with
    | nil => cases h.last
    | cons t us =>
        rw [(next_of_ahead hc).1]
        exact (h.first t rfl).2
  · obtain ⟨hlt, hread⟩ := hreads
    obtain ⟨seg, hp, -⟩ := TypeExpr.read_sound hread
    obtain ⟨rfl, -⟩ := hp.split hc (congrArg (List.map Token.lexeme) hd)
    rw [lastStop_passes hp, h.last, Option.getD_some]

/-- The edits of a changed declaration cut a text into what they replace and what stands between. -/
theorem spliced_rewritten {t u : TypeSpec} {body : StructExpr} {o : PrintOptions} {start : Nat}
    (hu : u.rewritten? = some body) (hspans : u.spans = t.spans)
    (hadj : t.commentSpan.start = t.tySpan.stop)
    (h : Edit.Spliced start old (u.edits o ++ es) new) :
    ∃ gap docs head ty comments rest rest',
      old = gap ++ (docs ++ (head ++ (ty ++ (comments ++ rest)))) ∧
      new = gap ++ (u.printDoc.toList ++ (head ++ ((body.print o).toList ++
        (u.printComment.toList ++ rest')))) ∧
      t.docSpan.start = start + byteLen gap ∧
      t.docSpan.stop = t.docSpan.start + byteLen docs ∧
      t.tySpan.start = t.docSpan.stop + byteLen head ∧
      t.tySpan.stop = t.tySpan.start + byteLen ty ∧
      t.commentSpan.stop = t.tySpan.stop + byteLen comments ∧
      Edit.Spliced t.commentSpan.stop rest es rest' := by
  obtain ⟨hdoc, hty, hcomment⟩ : u.docSpan = t.docSpan ∧ u.tySpan = t.tySpan ∧
      u.commentSpan = t.commentSpan := by simpa [spans] using hspans
  rw [edits_of_rewritten hu, hdoc, hty, hcomment] at h
  obtain ⟨gap, docs, _, _, rfl, rfl, hgap, hdocs, h₁⟩ := h.cons_inv
  obtain ⟨head, ty, _, _, rfl, rfl, hhead, hty, h₂⟩ := h₁.cons_inv
  obtain ⟨none, comments, rest, rest', rfl, rfl, hnone, hcomments, h₃⟩ := h₂.cons_inv
  dsimp only at *
  obtain rfl : none = [] := eq_nil_of_byteLen (by omega)
  exact ⟨gap, docs, head, ty, comments, rest, rest', rfl, rfl, hgap, hdocs, hhead, hty,
    hadj ▸ hcomments, h₃⟩

theorem print_head (body : StructExpr) (o : PrintOptions) :
    ∃ cs, (body.print o).toList = 's' :: cs := by
  unfold StructExpr.print
  split
  · exact ⟨_, rfl⟩
  · dsimp only
    simp only [String.toList_append, List.append_assoc]
    exact ⟨_, rfl⟩

theorem kind_of_lexemes {ts ts' : List Token} {kinds : List TokenKind}
    (h : ts'.map lexeme = ts.map lexeme) (hk : ∀ t ∈ ts, t.kind ∈ kinds) :
    ∀ t ∈ ts', t.kind ∈ kinds := by
  intro t ht
  have hm : t.lexeme ∈ ts.map lexeme := h ▸ List.mem_map_of_mem ht
  obtain ⟨u, hu, hl⟩ := List.mem_map.mp hm
  have hkind : u.kind = t.kind := congrArg Lexeme.kind hl
  exact hkind ▸ hk u hu

/-- A changed declaration is read where it is written. -/
theorem Place.Pieces.again {u : TypeSpec} {body : StructExpr} {o : PrintOptions} {r : p.Reading s}
    {lead₁ lead₂ stem types lead' docs' printed comments' ts : List Token} {start : Nat}
    {gap docs head ty more rest' : List Char}
    (h : Place.Pieces s p seg lead₁ lead₂ stem start gap docs head ty more) (hp : p.IsRead s)
    (hsplit : Place.Split r (lead₁ ++ lead₂) stem types) (hw : Writable s p.spec u body)
    (hs' : s'.chars = front ++ gap ++ u.printDoc.toList ++ head ++ (body.print o).toList ++
      u.printComment.toList ++ rest')
    (hwritten : Written s' o u body (front ++ gap) head docs' printed comments')
    (hlead : lead'.map lexeme = lead₁.map lexeme) (hts : ∀ t ∈ ts.head?, t.kind ≠ .comment)
    (hR : ∀ t', Shows s' o u body t' → R p.spec t') :
    p.Again s' R (lead' ++ docs' ++ (stem.map (moved p.spec.docSpan.stop
      (byteLen (front ++ gap ++ u.printDoc.toList))) ++ (printed ++ (comments' ++ ts)))) ts := by
  obtain ⟨hindent, ⟨tail, hhead⟩, hanchor⟩ := h.indent
  obtain ⟨first, stem, rfl⟩ : ∃ first more, stem = first :: more := by
    obtain ⟨last, hl, -⟩ := hsplit.last
    cases stem with
    | nil => cases hl
    | cons t ts => exact ⟨t, ts, rfl⟩
  have hline : u.doc ≠ [] → gap.getLast? = some '\n' := fun hne => h.newline (hw.line hne)
  have hnone : lead₁ = [] → lead₂ = [] ∧ docs' = [] := by
    rintro rfl
    have hgap : gap.getLast? ≠ some '\n' := fun hl => by
      obtain ⟨init, br, hcat, -⟩ := h.line hl
      simp at hcat
    refine ⟨(h.docs.resolve_right hgap).1, ?_⟩
    have habove := hwritten.above
    rw [of_not_not (mt hline hgap)] at habove
    cases habove
    rfl
  have hprinted : headKind ((printed ++ (comments' ++ ts)).map lexeme) = .ident := by
    have hlast := hwritten.last
    cases printed with
    | nil => cases hlast
    | cons t us => exact (hwritten.first t rfl).1
  constructor
  · rw [hsplit.passes_lead.lexemes, hsplit.passes_stem.lexemes]
    cases lead₁ with
    | nil =>
        obtain ⟨rfl, rfl⟩ := hnone rfl
        obtain rfl : lead' = [] := List.map_eq_nil_iff.mp hlead
        rfl
    | cons t lead₁ =>
        obtain ⟨t', lead', rfl, ht, -⟩ := ConstSpec.lexeme_cons_inv hlead
        exact congrArg some ht
  intro c' hc' hshut hfree
  obtain ⟨name', typed', hname, hpass, hstem, htyped, hread⟩ := r.again s' hp
    hsplit.passes_lead hsplit.passes_stem hc'
    (fun t ht => (List.mem_append.mp ht).elim
      (kind_of_lexemes hlead (fun u hu => hsplit.trivia u (List.mem_append_left _ hu)) t)
      (hwritten.above.trivia t))
    (fun hnil => by
      obtain ⟨rfl, -⟩ := List.append_eq_nil_iff.mp hnil
      have hlead := List.map_eq_nil_iff.mp hlead.symm
      rw [hlead, (hnone hlead).1]
      rfl)
    (map_lexeme_moved _ _ _) hshut hfree (by rw [hprinted]; decide)
    (fun _ _ hparams => by
      rw [StartsParams, hprinted] at hparams
      cases hparams.1)
  obtain ⟨body', d, hbody, hshows, hrun, hahead, hstart, hstop⟩ := hwritten.read htyped hts
  refine ⟨⟨c', p.grouped, _, _⟩, rfl, rfl, hread _ _ hbody, hahead, hR _ ?_⟩
  have hback : c'.skipTrivia.before = docs'.reverse ++ (lead'.reverse ++ c'.before) := by
    rw [hpass.before]
    simp
  have htoken : c'.skipTrivia.token.start = byteLen (front ++ gap) +
      byteLen u.printDoc.toList + byteLen u.indent.toList := by
    have hfirst : p.anchor.token = first := (next_of_ahead hsplit.passes_stem.ahead).1
    rw [(next_of_ahead hstem.ahead).1]
    show first.start - p.spec.docSpan.stop + _ = _
    rw [← hfirst, hanchor, hw.indent, byteLen_append]
    omega
  have hchars : s'.chars = front ++ gap ++ (u.printDoc.toList ++ (u.indent.toList ++
      (tail ++ ((body.print o).toList ++ (u.printComment.toList ++ rest'))))) := by
    rw [hs', hw.indent, hhead]
    simp
  obtain ⟨hdoc, hindent', hdocText⟩ := declared_docs name' typed' d r.isGeneric r.isAlias
    (.struct body') hchars (hw.indent ▸ hindent)
    (fun hne => lastLine_eq_nil (by rw [List.getLast?_append, hline hne]; rfl))
    hwritten.above hwritten.above_start
    (fun hne t ht => by
      obtain ⟨init, br, rfl, hk⟩ := h.line (hline hne)
      rw [List.map_append] at hlead
      obtain ⟨init', last', rfl, -, hlast⟩ := List.map_eq_append_iff.mp hlead
      obtain ⟨br', rfl, hbr⟩ := List.map_eq_singleton_iff.mp hlast
      obtain rfl : br' = t := by simpa using ht
      exact (congrArg Lexeme.kind hbr).trans hk)
    (List.map_eq_nil_iff.mp (by
      rw [docTokens_lexemes hp.shut hshut lead₁.reverse lead'.reverse (by simp [hlead]), h.none]
      rfl))
    hback htoken
  have hspec : p.spec.name = r.name.text ∧ p.spec.isAlias = r.isAlias ∧
      p.spec.isGeneric = r.isGeneric := by
    rw [r.spec]
    exact ⟨rfl, rfl, rfl⟩
  exact
    { name := by rw [hw.name, hspec.1]; exact hname
      isAlias := by rw [hw.isAlias, hspec.2.1]; rfl
      isGeneric := by rw [hw.isGeneric, hspec.2.2]; rfl
      ty := ⟨body', rfl, hshows⟩
      doc := hdoc
      comment := fun isOpen hsep => by
        show (d.run .comment).map Token.text = u.comment
        rw [hrun]
        exact (hwritten.texts isOpen hsep).1
      indent := hindent'
      docText := hdocText
      tyText := by
        show Text.slice typed'.token.start d.lastStop s'.chars = _
        rw [hstart, hstop, hs', List.append_assoc _ u.printComment.toList]
        exact slice_append _ _ _
      commentText := fun isOpen hsep => by
        show Text.slice d.lastStop (((d.run .comment).getLast?.map Token.stop).getD d.lastStop)
          s'.chars = _
        rw [hrun, hstop, (hwritten.texts isOpen hsep).2, ← byteLen_append, hs']
        exact slice_append _ _ _ }

theorem Place.IsRead.carried_written {u : TypeSpec} {body : StructExpr} {o : PrintOptions}
    (hp : p.IsRead s) (ho : Over s c) (hc : c.Passes seg p.base) (hs : s.chars = front ++ old)
    (hf : byteLen front = c.lastStop) (hs' : s'.chars = front' ++ new)
    (hu : u.rewritten? = some body) (hspans : u.spans = p.spec.spans)
    (hw : Writable s p.spec u body) (h : Edit.Spliced c.lastStop old (u.edits o ++ es) new)
    (hR : ∀ t', Shows s' o u body t' → R p.spec t') :
    Carried s' R seg p c.lastStop (byteLen front') old new es := by
  obtain ⟨r⟩ := hp.reading
  obtain ⟨lead, stem, types, hsplit⟩ := r.split hp
  have hadj : p.spec.commentSpan.start = p.spec.tySpan.stop := by rw [r.spec]; rfl
  have hlast : p.spec.commentSpan.stop = p.rest.lastStop := by
    rw [lastStop_passes hsplit.passes_comments, r.spec]
    rfl
  obtain ⟨gap, docs, head, ty, comments, rest, rest', rfl, rfl, hgap, hdocs, hhead, hty, hcomments,
    hspliced⟩ := spliced_rewritten hu hspans hadj h
  obtain ⟨lead₁, lead₂, rfl, hpieces⟩ := hsplit.pieces hp ho hc hs hf hgap hdocs hhead hty
  obtain ⟨hindent, ⟨tail, hhead'⟩, hanchor⟩ := hpieces.indent
  refine ⟨gap ++ (docs ++ (head ++ (ty ++ comments))), rest, gap ++ (u.printDoc.toList ++ (head ++
    ((body.print o).toList ++ u.printComment.toList))), rest', by simp, by simp, ?_,
    hlast ▸ hspliced, fun ts hts halike => ?_⟩
  · simp only [byteLen_append]
    omega
  -- the text in front of the type
  have hdoc : u.doc ≠ [] → gap.getLast? = some '\n' := fun hne => hpieces.newline (hw.line hne)
  have hnone : u.doc = [] → u.printDoc.toList = [] := fun hnil => by
    rw [printDoc_toList, hnil]
    rfl
  have hswaps : Swaps gap docs u.printDoc.toList head := by
    refine ⟨hpieces.name, ?_⟩
    by_cases hnil : u.doc = []
    · rcases hpieces.docs with ⟨-, hd⟩ | hl
      · exact .inr ⟨hd, hnone hnil⟩
      · exact .inl hl
    · exact .inl (hdoc hnil)
  refine ⟨hswaps.alike_all _ _, ?_⟩
  have hrest : dropBytes p.spec.commentSpan.stop s.chars = rest := by
    have hcut : s.chars = front ++ gap ++ docs ++ head ++ ty ++ comments ++ rest := by
      rw [hs]
      simp
    have hbytes : p.spec.commentSpan.stop =
        byteLen (front ++ gap ++ docs ++ head ++ ty ++ comments) := by
      simp only [byteLen_append]
      omega
    rw [hbytes]
    exact dropBytes_of_append hcut
  have happart : ∀ d ∈ head.getLast?, isIdent d = false := by
    have hcut : s.chars = front ++ gap ++ docs ++ head ++ (ty ++ (comments ++ rest)) := by
      rw [hs]
      simp
    have hbytes : p.spec.tySpan.start = byteLen (front ++ gap ++ docs ++ head) := by
      simp only [byteLen_append]
      omega
    intro d hd
    refine hw.apart d ?_
    rw [hbytes, hcut, takeBytes_byteLen, List.getLast?_append, hd]
    rfl
  have hchars : s'.chars = front' ++ gap ++ (u.printDoc.toList ++ (head ++ ((body.print o).toList ++
      (u.printComment.toList ++ rest')))) := by
    rw [hs']
    simp
  obtain ⟨docs', printed, comments', hwritten, hdocfills, hfills⟩ :=
    hw.written (hw.indent ▸ hindent) o hchars fun hend => halike.line.mp (hrest ▸ hend)
  obtain ⟨d, ty, rfl, hd⟩ := hpieces.ty
  obtain ⟨cs, hcs⟩ := print_head body o
  have hkeyword : 's' ≠ '\n' ∧ 's' ≠ '=' := by decide
  have hstem := hpieces.head_fills.move_stem hd hsplit.last happart
    (byteLen (front' ++ gap ++ u.printDoc.toList)) hkeyword (cs ++ (u.printComment.toList ++ rest'))
  have hgapfills := hswaps.move hpieces.gap_fills (byteLen front')
    ((body.print o).toList ++ (u.printComment.toList ++ rest'))
  rw [← List.cons_append, ← hcs, ← List.append_assoc] at hstem
  rw [byteLen_append] at hfills
  have hfills := hstem.append hfills
  rw [byteLen_append] at hfills
  have hfills := Fills.append (by simpa only [List.append_assoc] using hdocfills) hfills
  rw [byteLen_append] at hfills
  have hfills := Fills.append (by simpa only [List.append_assoc] using hgapfills) hfills
  have hwhole : s'.chars = front' ++ gap ++ u.printDoc.toList ++ head ++ (body.print o).toList ++
      u.printComment.toList ++ rest' := by
    rw [hs']
    simp
  have htokens := hpieces.again hp hsplit hw hwhole hwritten
    (map_lexeme_moved c.lastStop (byteLen front') lead₁) (not_comment_of_head hts hsplit.rest) hR
  rw [List.map_append] at hfills
  simp only [List.append_assoc, byteLen_append, Nat.add_assoc] at hfills htokens
  exact ⟨seg.map (moved c.lastStop (byteLen front')), _, map_lexeme_moved _ _ _, hfills,
    by simpa only [List.append_assoc] using htokens⟩

end TypeSpec

end StructLayout
