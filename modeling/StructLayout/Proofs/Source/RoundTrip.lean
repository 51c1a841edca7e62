import Mathlib
import StructLayout.Proofs.Source.Reread

/-!
Files without carriage returns are printed with marked declarations and read again: they are the same
but for places and indentation, and printed again they are the same text.
-/

namespace StructLayout

open Text Token

/-! ## Declarations that were read -/

theorem docTokens_mem (back : List Token) : ∀ t ∈ docTokens back, t ∈ back ∧ t.kind = .comment := by
  fun_induction docTokens back with
  | case1 br comment rest h ih =>
      intro t ht
      rcases List.mem_append.mp ht with ht | ht
      · obtain ⟨hm, hk⟩ := ih t ht
        exact ⟨List.mem_cons_of_mem _ (List.mem_cons_of_mem _ hm), hk⟩
      · rw [List.mem_singleton.mp ht]
        exact ⟨List.mem_cons_of_mem _ List.mem_cons_self, h.2.1⟩
  | case2 => simp
  | case3 => simp

/-- Comments that go on to the end of the line end with a line comment. -/
theorem Comments.last_line {cs : List String} (h : Comments true cs) :
    ∃ c, cs.getLast? = some c ∧ IsLineComment c.toList := by
  generalize ho : true = isOpen at h
  induction h with
  | nil => cases ho
  | @block _ c cs _ _ ih =>
      obtain ⟨d, hd, hline⟩ := ih ho
      exact ⟨d, by rw [List.getLast?_cons, hd]; rfl, hline⟩
  | @line c cs hc hcs =>
      cases hl : cs.getLast? with
      | none => exact ⟨c, by rw [List.getLast?_cons, hl]; rfl, hc⟩
      | some d => exact ⟨d, by rw [List.getLast?_cons, hl]; rfl, hcs d (List.mem_of_getLast? hl)⟩

/-! ## Edits that change nothing -/

namespace Edit

/-- An edit that writes what it replaces. -/
def Idle (cs : List Char) (e : Edit) : Prop :=
  slice e.span.start e.span.stop cs = e.text.toList

theorem Spliced.idle {start : Nat} {cs front rest out : List Char} {es : List Edit}
    (h : Spliced start rest es out) (hcs : cs = front ++ rest) (hf : byteLen front = start)
    (hi : ∀ e ∈ es, e.Idle cs) : out = rest := by
  induction es generalizing start front rest out with
  | nil => exact h.nil_inv
  | cons e es ih =>
      obtain ⟨he, hi⟩ := List.forall_mem_cons.mp hi
      obtain ⟨gap, old, rest, out, rfl, rfl, hstart, hstop, h⟩ := h.cons_inv
      have hold : e.text.toList = old := by
        have hsplit : cs = front ++ gap ++ old ++ rest := by rw [hcs]; simp
        rw [← he, hstop, hsplit, hstart, ← hf, ← byteLen_append]
        exact slice_append _ _ _
      have hrest : cs = front ++ gap ++ old ++ rest := by rw [hcs]; simp
      rw [hold, ih h hrest (by rw [byteLen_append, byteLen_append, hf, hstop, hstart]) hi]

end Edit

namespace TypeSpec

open Cursor

theorem Chain.mem {s : SourceText} {c d : Cursor} {log : List Place} (h : Chain s c log d)
    (ho : Over s c) : ∀ p ∈ log, p.IsRead s ∧ Over s p.base := by
  induction h with
  | nil => simp
  | cons hc hp _ ih =>
      obtain ⟨_, hpass⟩ := hp.passes
      exact List.forall_mem_cons.mpr ⟨⟨hp, ho.passes hc⟩, ih (ho.passes (hc.trans hpass))⟩

variable {s : SourceText} {p : Place} {body : StructExpr}

/-- A declaration with a mark that it is to be written anew, or without one. -/
def mark (t : TypeSpec) (m : Bool) : TypeSpec :=
  { t with modified := m }

/-- The type of a declaration does not touch what stands in front of it. -/
def Loose (s : SourceText) (t : TypeSpec) : Prop :=
  ∀ c ∈ (takeBytes t.tySpan.start s.chars).getLast?, isIdent c = false

theorem Place.IsRead.doc_comment (hp : p.IsRead s) (ho : Over s p.base) :
    ∀ line ∈ p.spec.doc, IsComment line ∧ ('\r' ∉ s.chars → EndsPlain line) := by
  obtain ⟨r⟩ := hp.reading
  obtain ⟨lead, hlead, -⟩ := p.passes_anchor
  intro line hline
  rw [r.spec] at hline
  obtain ⟨t, ht, rfl⟩ := List.mem_map.mp hline
  obtain ⟨hm, hk⟩ := docTokens_mem _ t ht
  obtain ⟨⟨rest, he⟩, hchars⟩ := (Tile.fills (ho.passes hlead)).mem t
    (List.mem_append_left _ (List.mem_reverse.mpr hm))
  exact ⟨(he.isComment hk).imp And.left id,
    fun hr hlast => hr (hchars _ (List.mem_of_getLast? hlast))⟩

theorem Place.IsRead.comments (hp : p.IsRead s) (ho : Over s p.base) :
    ∃ isOpen, Comments isOpen p.spec.comment ∧
      ('\r' ∉ s.chars → Separate isOpen p.spec.comment) ∧
      (isOpen = true → EndsLine (dropBytes p.spec.commentSpan.stop s.chars)) := by
  obtain ⟨r⟩ := hp.reading
  obtain ⟨lead, stem, types, hsplit⟩ := r.split hp
  have hbehind := ho.passes
    (hsplit.passes_lead.trans (hsplit.passes_stem.trans hsplit.passes_types))
  have hrest := hbehind.passes hsplit.passes_comments
  have hstop : p.spec.commentSpan.stop = p.rest.lastStop := by
    rw [lastStop_passes hsplit.passes_comments, r.spec]
    rfl
  have hcomment : p.spec.comment = (r.behind.run .comment).map Token.text := by
    rw [r.spec]
    rfl
  obtain ⟨isOpen, hc, hsep, -⟩ := hbehind.comments
  rw [← hcomment] at hc hsep
  refine ⟨isOpen, hc, hsep, ?_⟩
  rintro rfl
  obtain ⟨line, hl, hline⟩ := hc.last_line
  rw [hcomment, List.getLast?_map] at hl
  obtain ⟨t, ht, rfl⟩ := Option.map_eq_some_iff.mp hl
  obtain ⟨back, hb⟩ : ∃ back, p.rest.before = t :: back := by
    obtain ⟨init, hinit⟩ := List.getLast?_eq_some_iff.mp ht
    exact ⟨_, by rw [hsplit.passes_comments.before, hinit, List.reverse_concat]; rfl⟩
  obtain ⟨he, -⟩ := hrest.last hb
  rw [hstop]
  have hk := hsplit.kinds t (List.mem_of_getLast? ht)
  exact ((he.isComment hk).resolve_right (not_isBlockComment hline)).2

/-- A declaration is read right where its type touches nothing. -/
theorem Place.IsRead.writable (hp : p.IsRead s) (ho : Over s p.base)
    (hb : p.spec.ty = .struct body) (ha : Loose s p.spec) :
    Writable s p.spec (p.spec.mark true) body := by
  obtain ⟨r⟩ := hp.reading
  obtain ⟨lead, stem, types, hsplit⟩ := r.split hp
  have htyped := ho.passes (hsplit.passes_lead.trans hsplit.passes_stem)
  have hty : r.ty = .struct body := by
    rw [r.spec] at hb
    exact hb
  obtain ⟨hlt, hread⟩ := r.type
  rw [hty] at hread
  obtain ⟨isOpen, hc, -, hend⟩ := hp.comments ho
  refine ⟨rfl, rfl, rfl, rfl, (htyped.read_spelled hread).1,
    fun line hl => (hp.doc_comment ho line hl).1, fun hdoc => ?_, ha, isOpen, hc, hend⟩
  obtain ⟨lead₁, lead₂, top, hlead, htop, hnone, -, ⟨rfl, -⟩ | hline⟩ := hsplit.docs hp ho
  · refine absurd ?_ hdoc
    rw [List.append_nil] at hlead
    rw [htop.before, ← hlead, ← hsplit.passes_lead.before] at hnone
    show p.spec.doc = []
    rw [r.spec]
    show (docTokens p.anchor.before).map Token.text = []
    rw [hnone]
    rfl
  · exact hline

/-- A declaration from a text without carriage returns is written so that it is read as it is. -/
structure Exact (t : TypeSpec) : Prop where
  doc : ∀ line ∈ t.doc, EndsPlain line
  comment : ∃ isOpen, Separate isOpen t.comment
  body : ∀ body, t.ty = .struct body → body.Exact

theorem Place.IsRead.exact (hp : p.IsRead s) (ho : Over s p.base) (hr : '\r' ∉ s.chars) :
    p.spec.Exact := by
  obtain ⟨r⟩ := hp.reading
  obtain ⟨lead, stem, types, hsplit⟩ := r.split hp
  have htyped := ho.passes (hsplit.passes_lead.trans hsplit.passes_stem)
  obtain ⟨isOpen, -, hsep, -⟩ := hp.comments ho
  refine ⟨fun line hl => (hp.doc_comment ho line hl).2 hr, ⟨isOpen, hsep hr⟩, fun body hb => ?_⟩
  have hty : r.ty = .struct body := by
    rw [r.spec] at hb
    exact hb
  obtain ⟨hlt, hread⟩ := r.type
  rw [hty] at hread
  exact (htyped.read_spelled hread).2 hr

variable {s' : SourceText} {o : PrintOptions} {t t' : TypeSpec} {m : Bool}

theorem struct?_eq_some {ty : TypeExpr} : ty.struct? = some body ↔ ty = .struct body := by
  cases ty <;> simp [TypeExpr.struct?]

theorem rewritten?_mark (t : TypeSpec) (m : Bool) :
    (t.mark m).rewritten? = if m then t.ty.struct? else none :=
  rfl

/-- What is read again of an exact declaration is the declaration but for its place. -/
theorem Shows.bare_eq (h : Shows s' o (t.mark m) body t') (ht : t.ty = .struct body)
    (he : t.Exact) : t'.bare = t.bare := by
  obtain ⟨isOpen, hsep⟩ := he.comment
  obtain ⟨body', hty, hshows⟩ := h.ty
  have hname : t'.name = t.name := h.name
  have halias : t'.isAlias = t.isAlias := h.isAlias
  have hgeneric : t'.isGeneric = t.isGeneric := h.isGeneric
  have hdoc : t'.doc = t.doc := again_eq h.doc he.doc
  have hcomment : t'.comment = t.comment := h.comment isOpen hsep
  have hbare : t'.ty.bare = t.ty.bare := by
    rw [hty, ht, TypeExpr.bare, TypeExpr.bare, hshows.bareBody_eq (he.body body ht)]
  simp only [bare, hname, halias, hgeneric, hdoc, hcomment, hbare]

theorem Renders.bare_eq (h : Renders s' o t (t.mark m) t') (he : t.Exact) : t'.bare = t.bare := by
  rcases h with ⟨-, h⟩ | ⟨body, hu, hshows⟩
  · exact h
  · rw [rewritten?_mark] at hu
    split at hu
    · exact hshows.bare_eq (struct?_eq_some.mp hu) he
    · cases hu

theorem Renders.rewritten? (h : Renders s' o t (t.mark m) t')
    (hn : (t.mark m).rewritten? = none) : (t'.mark m).rewritten? = none := by
  rcases h with ⟨-, hbare⟩ | ⟨body, hu, -⟩
  · rw [rewritten?_mark] at hn ⊢
    split
    · rename_i hm
      rw [if_pos hm] at hn
      have hty : t'.ty.bare = t.ty.bare := congrArg TypeSpec.ty hbare
      cases hs : t'.ty.struct? with
      | none => rfl
      | some body =>
          rw [struct?_eq_some.mp hs] at hty
          cases ht : t.ty <;> rw [ht] at hty hn <;> simp [TypeExpr.bare, TypeExpr.struct?] at hty hn
    · rfl
  · rw [hn] at hu
    cases hu

/-- What a declaration was written as is written again in its place. -/
theorem Renders.idle (h : Renders s' o t (t.mark m) t') (he : t.Exact) :
    ∀ e ∈ (t'.mark m).edits o, e.Idle s'.chars := by
  cases hu : (t.mark m).rewritten? with
  | none =>
      rw [edits_eq_nil (h.rewritten? hu)]
      simp
  | some body =>
      obtain ⟨hn, -⟩ | ⟨body', hu', hshows⟩ := h
      · rw [hn] at hu
        cases hu
      obtain rfl : body = body' := Option.some.inj (hu.symm.trans hu')
      obtain ⟨hm, ht⟩ : m = true ∧ t.ty = .struct body := by
        rw [rewritten?_mark] at hu
        split at hu
        · exact ⟨‹_›, struct?_eq_some.mp hu⟩
        · cases hu
      obtain ⟨isOpen, hsep⟩ := he.comment
      obtain ⟨body', hty, hbody⟩ := hshows.ty
      have hw : (t'.mark m).rewritten? = some body' := by
        rw [rewritten?_mark, if_pos hm, hty]
        rfl
      have hdoc : t'.doc = t.doc := again_eq hshows.doc he.doc
      have hcomment : t'.comment = t.comment := hshows.comment isOpen hsep
      rw [edits_of_rewritten hw]
      refine List.forall_mem_cons.mpr ⟨?_, List.forall_mem_cons.mpr ⟨?_,
        List.forall_mem_singleton.mpr ?_⟩⟩
      · have hprint : (t'.mark m).printDoc = (t.mark m).printDoc := by
          show t'.printDoc = t.printDoc
          by_cases hnil : t.doc = []
          · rw [printDoc, printDoc, hdoc, hnil]
            rfl
          · have hindent : t'.indent = t.indent := hshows.indent hnil
            rw [printDoc, printDoc, hdoc, hindent]
        show Text.slice t'.docSpan.start t'.docSpan.stop s'.chars = (t'.mark m).printDoc.toList
        rw [hshows.docText, hprint]
      · show Text.slice t'.tySpan.start t'.tySpan.stop s'.chars = (body'.print o).toList
        rw [hshows.tyText, hbody.print_eq (he.body body ht)]
      · have hprint : (t'.mark m).printComment = (t.mark m).printComment := by
          show t'.printComment = t.printComment
          rw [printComment, printComment, hcomment]
        show Text.slice t'.commentSpan.start t'.commentSpan.stop s'.chars =
          (t'.mark m).printComment.toList
        rw [hshows.commentText isOpen hsep, hprint]

/-- Declarations, each with a mark or without one. -/
def markAll (ts : List TypeSpec) (marks : List Bool) : List TypeSpec :=
  List.zipWith mark ts marks

variable {all ts ts' : List TypeSpec} {marks : List Bool} {change : TypeSpec → TypeSpec}

theorem forall₂_markAll {R : TypeSpec → TypeSpec → Prop} (hl : marks.length = ts.length)
    (h : ∀ t ∈ ts, ∀ m, t.mark m ∈ markAll ts marks → R t (t.mark m)) :
    List.Forall₂ R ts (markAll ts marks) := by
  induction ts generalizing marks with
  | nil => exact .nil
  | cons t ts ih =>
      cases marks with
      | nil => cases hl
      | cons m marks =>
          obtain ⟨ht, h⟩ := List.forall_mem_cons.mp h
          exact .cons (ht m List.mem_cons_self) (ih (Nat.succ.inj hl)
            fun u hu n hn => h u hu n (List.mem_cons_of_mem _ hn))

theorem exists_mark (hc : markAll ts marks = ts.map change) :
    ∀ t ∈ ts, ∃ m, change t = t.mark m := by
  induction ts generalizing marks with
  | nil => simp
  | cons t ts ih =>
      cases marks with
      | nil => cases hc
      | cons m marks =>
          obtain ⟨ht, hts⟩ := List.cons.inj hc
          exact List.forall_mem_cons.mpr ⟨⟨m, ht.symm⟩, ih hts⟩

/-- What was read again has the marks of what it was read from. -/
theorem markAll_renders
    (h : List.Forall₂ (fun t t' => t ∈ all ∧ Renders s' o t (change t) t') ts ts')
    (hc : markAll ts marks = ts.map change) :
    ∀ u ∈ markAll ts' marks, ∃ t ∈ all, ∃ t' m, u = t'.mark m ∧ Renders s' o t (t.mark m) t' := by
  induction h generalizing marks with
  | nil => simp [markAll]
  | @cons t t' ts ts' ht _ ih =>
      cases marks with
      | nil => cases hc
      | cons m marks =>
          obtain ⟨hm, hts⟩ := List.cons.inj hc
          exact List.forall_mem_cons.mpr ⟨⟨t, ht.1, t', m, rfl, hm ▸ ht.2⟩, ih hts⟩

end TypeSpec

namespace SourceFile

open Cursor TypeSpec

variable {info : FileInfo} {path : String} {chars : List Char} {f : SourceFile}

/-- Every declaration of a file was read at some place. -/
theorem exists_place (h : read info path chars = .ok f) :
    ∀ t ∈ f.specs, ∃ p : Place, p.spec = t ∧ p.IsRead f.text ∧ Over f.text p.base := by
  obtain ⟨c, e, log, htext, ho, -, hclause, -, hwalks, hperm⟩ := read_walks h
  obtain ⟨seg, hpass⟩ := hclause.passes
  intro t ht
  obtain ⟨p, hp, rfl⟩ := List.mem_map.mp (hperm.mem_iff.mpr ht)
  rw [htext]
  exact ⟨p, rfl, hwalks.chain.mem (ho.passes hpass) p hp⟩

/-- A file without carriage returns with some structs marked, none of which touches what stands in
front of it, is printed as a text that reads as the same file but for places and indentation. With the
same declarations marked, that is printed as the same text. -/
theorem print_marked (h : read info path chars = .ok f) (hr : '\r' ∉ chars) {marks : List Bool}
    (hm : marks.length = f.specs.length)
    (hl : ∀ t ∈ markAll f.specs marks, t.rewritten?.isSome → Loose f.text t) (o : PrintOptions)
    (info' : FileInfo) (path' : String) :
    let text := (f.withSpecs (markAll f.specs marks)).print o
    ∃ f', read info' path' text.toList = .ok f' ∧ f'.package = f.package ∧
      f'.root.bare = f.root.bare ∧ (f'.withSpecs (markAll f'.specs marks)).print o = text := by
  intro text
  have hchars : f.text.chars = chars := (read_apart h).1
  have hexact : ∀ t ∈ f.specs, t.Exact := by
    intro t ht
    obtain ⟨p, rfl, hp, ho⟩ := exists_place h t ht
    exact hp.exact ho (by rwa [hchars])
  have hchanged : List.Forall₂ (Changed f.text) f.specs (markAll f.specs marks) := by
    refine forall₂_markAll hm fun t ht m hu => ⟨rfl, fun body hw => ?_⟩
    obtain ⟨p, rfl, hp, ho⟩ := exists_place h t ht
    have hloose := hl _ hu (by rw [hw]; rfl)
    rw [rewritten?_mark] at hw
    split at hw
    · rename_i hm
      subst hm
      exact hp.writable ho (struct?_eq_some.mp hw) hloose
    · cases hw
  obtain ⟨f', change, hread, hpackage, hchange, hrel⟩ := print_reads h hchanged o info' path'
  refine ⟨f', hread, hpackage, ?_, ?_⟩
  · refine Block.Rel.bare_eq (fun t t' ⟨ht, hrenders⟩ => ?_) f.root f'.root hrel
    obtain ⟨m, hmark⟩ := exists_mark hchange t ht
    rw [hmark] at hrenders
    exact hrenders.bare_eq (hexact t ht)
  · have hchars' : f'.text.chars = text.toList := (read_apart hread).1
    have hspans : List.Forall₂ (fun old new => new.spans = old.spans) f'.specs
        (markAll f'.specs marks) := by
      refine forall₂_markAll ?_ fun t _ m _ => rfl
      rw [hm]
      exact (Block.Rel.allSpecs _ _ hrel).length_eq
    obtain ⟨-, -, -, hspliced⟩ := print_spliced hread hspans o
    have hnil : text.toList = [] ++ text.toList := rfl
    refine String.toList_inj.mp (hspliced.idle hnil rfl fun e he => ?_)
    obtain ⟨u, hu, he⟩ := List.mem_flatMap.mp he
    obtain ⟨t, ht, t', m, rfl, hrenders⟩ := markAll_renders (Block.Rel.allSpecs _ _ hrel) hchange u
      ((inOrder_perm _).mem_iff.mp hu)
    rw [← hchars']
    exact hrenders.idle (hexact t ht) e he

/-! ### A struct with docs and a comment -/

def notedText : List Char := "package a\n\n// A is read.\ntype A struct{a int} // kept\n".toList

def notedInfo : FileInfo := .ofText "a.go" 1 notedText

def notedSpec : TypeSpec where
  name := "A"
  pos := 31
  isAlias := false
  isGeneric := false
  ty := .struct
    { span := ⟨32, 45⟩
      fields := [{ names := ["a"], pos := 40, ty := .ref none "int", tyText := "int" }]
      trailing := []
      closeIndent := ""
      fieldIndent := none }
  tySpan := ⟨32, 45⟩
  doc := ["// A is read."]
  docSpan := ⟨11, 25⟩
  comment := ["// kept"]
  commentSpan := ⟨45, 53⟩
  indent := ""

def noted : SourceFile where
  path := "a.go"
  package := "a"
  text := ⟨notedText, notedInfo⟩
  root := { span := ⟨0, 54⟩, specs := [notedSpec] }

theorem print_marked_noted :
    read notedInfo "a.go" notedText = .ok noted ∧ '\r' ∉ notedText ∧
      [true].length = noted.specs.length ∧
      (∀ t ∈ markAll noted.specs [true], t.rewritten?.isSome → Loose noted.text t) ∧
      ∃ f', read notedInfo "a.go" ((noted.withSpecs (markAll noted.specs [true])).print {}).toList =
          .ok f' ∧
        f'.package = noted.package ∧ f'.root.bare = noted.root.bare ∧
        (f'.withSpecs (markAll f'.specs [true])).print {} =
          (noted.withSpecs (markAll noted.specs [true])).print {} := by
  have hread : read notedInfo "a.go" notedText = .ok noted := by cbv
  have hr : '\r' ∉ notedText := by decide
  have hl : ∀ t ∈ markAll noted.specs [true], t.rewritten?.isSome → Loose noted.text t := by
    intro t ht _
    obtain rfl : t = notedSpec.mark true := List.mem_singleton.mp ht
    intro c hc
    have hlast : (takeBytes notedSpec.tySpan.start notedText).getLast? = some ' ' := by cbv
    obtain rfl : ' ' = c := Option.some.inj (hlast.symm.trans hc)
    rfl
  exact ⟨hread, hr, rfl, hl, print_marked hread hr rfl hl {} notedInfo "a.go"⟩

/-! ### A struct in parentheses behind its name -/

def gluedText : List Char := "package a\n\ntype T(struct{a int})\n".toList

def gluedInfo : FileInfo := .ofText "a.go" 1 gluedText

def gluedSpec : TypeSpec where
  name := "T"
  pos := 17
  isAlias := false
  isGeneric := false
  ty := .struct
    { span := ⟨18, 31⟩
      fields := [{ names := ["a"], pos := 26, ty := .ref none "int", tyText := "int" }]
      trailing := []
      closeIndent := ""
      fieldIndent := none }
  tySpan := ⟨17, 32⟩
  doc := []
  docSpan := ⟨11, 11⟩
  comment := []
  commentSpan := ⟨32, 32⟩
  indent := ""

def glued : SourceFile where
  path := "a.go"
  package := "a"
  text := ⟨gluedText, gluedInfo⟩
  root := { span := ⟨0, 33⟩, specs := [gluedSpec] }

/-- The keyword is written right behind the name, and is no keyword there. -/
theorem print_marked_glued :
    read gluedInfo "a.go" gluedText = .ok glued ∧ '\r' ∉ gluedText ∧
      ∀ f', read gluedInfo "a.go" ((glued.withSpecs (markAll glued.specs [true])).print {}).toList ≠
        .ok f' := by
  refine ⟨by cbv, by decide, fun f' h => ?_⟩
  have hprint : (glued.withSpecs (markAll glued.specs [true])).print {} =
      "package a\n\ntype Tstruct \x7b\n\ta int\n\x7d\n" := by cbv
  have herror : read gluedInfo "a.go" "package a\n\ntype Tstruct \x7b\n\ta int\n\x7d\n".toList =
      .error ⟨⟨"a.go", 24, 3, 14⟩, .mismatch "type" "\x7b"⟩ := by cbv
  rw [hprint, herror] at h
  cases h

end SourceFile

end StructLayout
