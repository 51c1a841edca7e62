import Mathlib
import StructLayout.Proofs.Source.Blocks
import StructLayout.Source.Printer

/-!
Printing writes the changed declarations in the place of the old ones, and leaves everything between
them as it is.
-/

namespace StructLayout

open Text

/-! ## Cuts in a text -/

/-- A text cut at a later place. -/
theorem Text.Boundary.split {cs front rest : List Char} {n : Nat} (h : Boundary cs n)
    (hcs : cs = front ++ rest) (hle : byteLen front ≤ n) :
    ∃ mid back, rest = mid ++ back ∧ byteLen front + byteLen mid = n := by
  obtain ⟨front', rest', hcs', rfl⟩ := h
  rcases List.append_eq_append_iff.mp (hcs.symm.trans hcs') with ⟨mid, rfl, rfl⟩ | ⟨mid, rfl, rfl⟩
  · exact ⟨mid, rest', rfl, by rw [byteLen_append]⟩
  · have hmid : mid = [] := eq_nil_of_byteLen (by rw [byteLen_append] at hle; omega)
    subst hmid
    exact ⟨[], rest, rfl, by simp⟩

theorem dropBytes_of_append {cs front rest : List Char} (h : cs = front ++ rest) :
    dropBytes (byteLen front) cs = rest := by
  rw [h, dropBytes_byteLen]

namespace Edit

/-- The second text is the first one, `start` bytes of which are left out, with the spans of the
edits replaced by what they write. -/
inductive Spliced : Nat → List Char → List Edit → List Char → Prop
  | nil (start : Nat) (cs : List Char) : Spliced start cs [] cs
  | cons {start : Nat} {gap old rest out : List Char} {e : Edit} {es : List Edit}
      (hs : e.span.start = start + byteLen gap) (ht : e.span.stop = e.span.start + byteLen old)
      (h : Spliced e.span.stop rest es out) :
      Spliced start (gap ++ old ++ rest) (e :: es) (gap ++ e.text.toList ++ out)

/-- An edit that cuts between characters. -/
def Clean (cs : List Char) (e : Edit) : Prop :=
  e.span.start ≤ e.span.stop ∧ Boundary cs e.span.start ∧ Boundary cs e.span.stop

theorem spliced_applyFrom {cs front rest : List Char} {es : List Edit} (hcs : cs = front ++ rest)
    (hclean : ∀ e ∈ es, e.Clean cs) (hfirst : ∀ e ∈ es, byteLen front ≤ e.span.start)
    (horder : es.Pairwise fun a b => a.span.stop ≤ b.span.start) :
    Spliced (byteLen front) rest es (applyFrom cs (byteLen front) es) := by
  induction es generalizing front rest with
  | nil =>
      rw [applyFrom, dropBytes_of_append hcs]
      exact .nil _ _
  | cons e es ih =>
      obtain ⟨⟨hle, hstart, hstop⟩, hclean⟩ := List.forall_mem_cons.mp hclean
      obtain ⟨hfirst, -⟩ := List.forall_mem_cons.mp hfirst
      obtain ⟨hnext, horder⟩ := List.pairwise_cons.mp horder
      obtain ⟨gap, tail, rfl, hgap⟩ := hstart.split hcs hfirst
      have hcs' : cs = (front ++ gap) ++ tail := by rw [hcs, List.append_assoc]
      obtain ⟨old, rest, rfl, hold⟩ := hstop.split hcs' (by rw [byteLen_append]; omega)
      rw [byteLen_append] at hold
      have hstop' : e.span.stop = byteLen (front ++ gap ++ old) := by
        rw [byteLen_append, byteLen_append]
        omega
      rw [applyFrom, if_neg (by omega), ← List.append_assoc]
      have hslice : slice (byteLen front) e.span.start cs = gap := by
        rw [← hgap, hcs, ← List.append_assoc, slice_append]
      rw [hslice]
      refine .cons hgap.symm (by omega) ?_
      rw [hstop'] at hnext ⊢
      exact ih (by simp [hcs]) hclean hnext horder

end Edit

/-! ## Changed declarations in their blocks -/

namespace Block

mutual

theorem refill_spec : (b : Block) → (new : List TypeSpec) → b.allSpecs.length ≤ new.length →
    (b.refill new).1.allSpecs = new.take b.allSpecs.length ∧
      (b.refill new).2 = new.drop b.allSpecs.length
  | ⟨span, specs, consts, blocks⟩, new, h => by
      rw [allSpecs, List.length_append] at h
      obtain ⟨h₁, h₂⟩ := refillAll_spec blocks (new.drop specs.length)
        (by rw [List.length_drop]; omega)
      rw [refill, allSpecs, allSpecs, List.length_append]
      dsimp only
      rw [h₁, h₂, List.drop_drop, List.take_add]
      exact ⟨rfl, rfl⟩

theorem refillAll_spec : (bs : List Block) → (new : List TypeSpec) →
    (allSpecsIn bs).length ≤ new.length →
    allSpecsIn (refillAll bs new).1 = new.take (allSpecsIn bs).length ∧
      (refillAll bs new).2 = new.drop (allSpecsIn bs).length
  | [], new, _ => ⟨rfl, rfl⟩
  | b :: bs, new, h => by
      rw [allSpecsIn, List.length_append] at h
      obtain ⟨h₁, h₂⟩ := refill_spec b new (by omega)
      obtain ⟨h₃, h₄⟩ := refillAll_spec bs (b.refill new).2
        (by rw [h₂, List.length_drop]; omega)
      rw [refillAll, allSpecsIn, allSpecsIn, List.length_append]
      dsimp only
      rw [h₁, h₃, h₄, h₂, List.drop_drop, List.take_add]
      exact ⟨rfl, rfl⟩

end

end Block

theorem SourceFile.specs_withSpecs {f : SourceFile} {ts : List TypeSpec}
    (h : ts.length = f.specs.length) : (f.withSpecs ts).specs = ts := by
  have := (f.root.refill_spec ts (Nat.le_of_eq h.symm)).1
  rw [specs, withSpecs, this, List.take_of_length_le]
  exact Nat.le_of_eq h

/-! ## Declarations in the order of the text -/

namespace TypeSpec

open Block

def before (a b : TypeSpec) : Bool :=
  decide (a.tySpan.start ≤ b.tySpan.start)

/-- Declarations in the order in which they stand in the text. -/
def inOrder (ts : List TypeSpec) : List TypeSpec :=
  ts.mergeSort before

theorem before_trans (a b c : TypeSpec) (hab : a.before b) (hbc : b.before c) : a.before c := by
  simp only [before, decide_eq_true_eq] at *
  omega

theorem before_total (a b : TypeSpec) : a.before b || b.before a := by
  simp only [before, Bool.or_eq_true, decide_eq_true_eq]
  omega

variable {cs : List Char} {ts : List TypeSpec} {o : PrintOptions}

theorem Placed.before {a b : TypeSpec} (ha : a.Placed cs) (hb : b.Placed cs)
    (h : a.commentSpan.stop ≤ b.docSpan.start) : a.before b := by
  have := ha.ty
  have := ha.ty_comment
  have := ha.comment
  have := hb.doc
  have := hb.doc_ty
  simp only [TypeSpec.before, decide_eq_true_eq]
  omega

theorem inOrder_perm (ts : List TypeSpec) : (inOrder ts).Perm ts :=
  List.mergeSort_perm ts TypeSpec.before

/-- In the order of the text, declarations that are apart follow one another. -/
theorem inOrder_pairwise (hp : ∀ t ∈ ts, t.Placed cs) (ha : ts.Pairwise Apart) :
    (inOrder ts).Pairwise fun a b => a.commentSpan.stop ≤ b.docSpan.start := by
  have hsides : (inOrder ts).Pairwise fun a b =>
      a.commentSpan.stop ≤ b.docSpan.start ∨ b.commentSpan.stop ≤ a.docSpan.start :=
    (ha.imp fun h => h.imp_right Nat.le_of_lt).perm (inOrder_perm ts).symm fun h => h.symm
  have hsorted := List.pairwise_mergeSort before_trans before_total ts
  refine (hsides.and hsorted).imp_of_mem fun {a b} hma hmb hab => ?_
  have hpa := hp a ((inOrder_perm ts).mem_iff.mp hma)
  have hpb := hp b ((inOrder_perm ts).mem_iff.mp hmb)
  refine hab.1.resolve_right fun hba => ?_
  have := hpa.doc
  have := hpa.doc_ty
  have := hpb.ty
  have := hpb.ty_comment
  have := hpb.comment
  have hle := hab.2
  simp only [TypeSpec.before, decide_eq_true_eq] at hle
  omega

theorem Placed.span {t : TypeSpec} {span : Span} (h : t.Placed cs) (hm : span ∈ t.spans) :
    t.docSpan.start ≤ span.start ∧ span.start ≤ span.stop ∧ span.stop ≤ t.commentSpan.stop := by
  have := h.doc
  have := h.doc_ty
  have := h.ty
  have := h.ty_comment
  have := h.comment
  simp only [spans, List.mem_cons, List.not_mem_nil, or_false] at hm
  rcases hm with rfl | rfl | rfl <;> refine ⟨?_, ?_, ?_⟩ <;> omega

theorem Placed.spans_pairwise {t : TypeSpec} (h : t.Placed cs) :
    t.spans.Pairwise fun a b => a.stop ≤ b.start := by
  have := h.doc_ty
  have := h.ty
  have := h.ty_comment
  simp only [spans, List.pairwise_cons, List.mem_cons, List.not_mem_nil, or_false,
    forall_eq_or_imp, forall_eq, false_implies, implies_true, List.Pairwise.nil, and_true]
  omega

theorem map_span_edits (o : PrintOptions) (t : TypeSpec) :
    ((t.edits o).map Edit.span).Sublist t.spans := by
  unfold edits
  split
  · split
    · exact List.Sublist.refl _
    · exact List.nil_sublist _
  · exact List.nil_sublist _

theorem span_mem_of_edits {t : TypeSpec} {e : Edit} (he : e ∈ t.edits o) : e.span ∈ t.spans :=
  (map_span_edits o t).subset (List.mem_map_of_mem he)

theorem edits_clean {t : TypeSpec} {e : Edit} (h : t.Placed cs) (he : e ∈ t.edits o) :
    e.Clean cs := by
  have hm := span_mem_of_edits he
  obtain ⟨hstart, hstop⟩ := h.boundary _ hm
  exact ⟨(h.span hm).2.1, hstart, hstop⟩

/-- Parts of declarations that have spans of theirs follow one another too. -/
theorem flatMap_inOrder_pairwise {β : Type} {parts : TypeSpec → List β} {key : β → Span}
    (hp : ∀ t ∈ ts, t.Placed cs) (ha : ts.Pairwise Apart)
    (hk : ∀ t, ((parts t).map key).Sublist t.spans) :
    ((inOrder ts).flatMap parts).Pairwise fun a b => (key a).stop ≤ (key b).start := by
  have hp' : ∀ t ∈ inOrder ts, t.Placed cs := fun t ht => hp t ((inOrder_perm ts).mem_iff.mp ht)
  refine List.pairwise_flatMap.mpr ⟨fun t ht => ?_, ?_⟩
  · exact (List.pairwise_map (f := key) (R := fun a b : Span => a.stop ≤ b.start)).mp
      ((hp' t ht).spans_pairwise.sublist (hk t))
  · refine (inOrder_pairwise hp ha).imp_of_mem fun {t u} ht hu h a ha b hb => ?_
    have := ((hp' t ht).span ((hk t).subset (List.mem_map_of_mem ha))).2.2
    have := ((hp' u hu).span ((hk u).subset (List.mem_map_of_mem hb))).1
    omega

theorem Placed.of_spans {t u : TypeSpec} (h : t.Placed cs) (hs : u.spans = t.spans) :
    u.Placed cs := by
  have hb := hs ▸ h.boundary
  simp only [spans, List.cons.injEq, and_true] at hs
  obtain ⟨hdoc, hty, hcomment⟩ := hs
  exact ⟨hdoc ▸ h.doc, hdoc ▸ hty ▸ h.doc_ty, hty ▸ h.ty, hty ▸ hcomment ▸ h.ty_comment,
    hcomment ▸ h.comment, hb⟩

theorem Apart.of_spans {t t' u u' : TypeSpec} (h : Apart t u) (ht : t'.spans = t.spans)
    (hu : u'.spans = u.spans) : Apart t' u' := by
  simp only [spans, List.cons.injEq, and_true] at ht hu
  rw [Apart, ht.1, ht.2.2, hu.1, hu.2.2]
  exact h

end TypeSpec

namespace Edit

theorem le_trans (a b c : Edit) (hab : a.le b) (hbc : b.le c) : a.le c := by
  simp only [le, Bool.or_eq_true, Bool.and_eq_true, decide_eq_true_eq, beq_iff_eq] at *
  omega

theorem le_total (a b : Edit) : a.le b || b.le a := by
  simp only [le, Bool.or_eq_true, Bool.and_eq_true, decide_eq_true_eq, beq_iff_eq]
  omega

theorem le_of_stop_le {a b : Edit} (ha : a.span.start ≤ a.span.stop)
    (hb : b.span.start ≤ b.span.stop) (h : a.span.stop ≤ b.span.start) : a.le b := by
  simp only [le, Bool.or_eq_true, Bool.and_eq_true, decide_eq_true_eq, beq_iff_eq]
  omega

/-- Neither of two edits comes first exactly when they have the same span. -/
theorem le_and_le {a b : Edit} : (a.le b && b.le a) = decide (a.span = b.span) := by
  obtain ⟨⟨i, j⟩, _⟩ := a
  obtain ⟨⟨k, l⟩, _⟩ := b
  rw [Bool.eq_iff_iff]
  simp only [le, Bool.or_eq_true, Bool.and_eq_true, decide_eq_true_eq, beq_iff_eq, Span.mk.injEq]
  omega

end Edit

namespace TypeSpec

open Block

variable {cs : List Char} {ts : List TypeSpec} {o : PrintOptions}

/-- Declarations that write to one span stand in the order of the text already: a brace between
two of them would keep their spans apart. -/
theorem edits_of_span (hp : ∀ t ∈ ts, t.Placed cs) (ha : ts.Pairwise Apart) (span : Span) :
    ((inOrder ts).flatMap (edits o)).filter (fun e => decide (span = e.span)) =
      (ts.flatMap (edits o)).filter fun e => decide (span = e.span) := by
  let writes : TypeSpec → List Edit := fun t => (t.edits o).filter fun e => decide (span = e.span)
  have hkeep (us : List TypeSpec) :
      us.flatMap writes = (us.filter fun t => !(writes t).isEmpty).flatMap writes := by
    induction us with
    | nil => rfl
    | cons u us ih =>
        rw [List.flatMap_cons, ih]
        cases hu : writes u with
        | nil => rw [List.filter_cons_of_neg (by simp [hu])]; rfl
        | cons e es => rw [List.filter_cons_of_pos (by simp [hu]), List.flatMap_cons, hu]
  have hsorted : (ts.filter fun t => !(writes t).isEmpty).Pairwise fun a b => a.before b := by
    refine (ha.sublist List.filter_sublist).imp_of_mem fun {t u} ht hu h => ?_
    obtain ⟨ht, hwt⟩ := List.mem_filter.mp ht
    obtain ⟨hu, hwu⟩ := List.mem_filter.mp hu
    have inside {v : TypeSpec} (hv : v ∈ ts) (hw : (!(writes v).isEmpty) = true) :
        v.docSpan.start ≤ span.start ∧ span.start ≤ span.stop ∧ span.stop ≤ v.commentSpan.stop := by
      obtain ⟨e, he⟩ : ∃ e, e ∈ writes v := by
        cases hw' : writes v with
        | nil => simp [hw'] at hw
        | cons e es => exact ⟨e, List.mem_cons_self⟩
      obtain ⟨he, hs⟩ := List.mem_filter.mp he
      rw [of_decide_eq_true hs]
      exact (hp v hv).span (span_mem_of_edits he)
    have := inside ht hwt
    have := inside hu hwu
    refine (hp t ht).before (hp u hu) (h.resolve_right fun h => ?_)
    omega
  rw [List.filter_flatMap, List.filter_flatMap]
  show (inOrder ts).flatMap writes = ts.flatMap writes
  rw [hkeep, hkeep ts, inOrder, filter_mergeSort before_trans before_total hsorted]

/-- Sorting the edits puts them in the order of the text. -/
theorem mergeSort_edits (hp : ∀ t ∈ ts, t.Placed cs) (ha : ts.Pairwise Apart) :
    (ts.flatMap (edits o)).mergeSort Edit.le = (inOrder ts).flatMap (edits o) := by
  have hclean : ∀ e ∈ (inOrder ts).flatMap (edits o), e.Clean cs := by
    intro e he
    obtain ⟨t, ht, he⟩ := List.mem_flatMap.mp he
    exact edits_clean (hp t ((inOrder_perm ts).mem_iff.mp ht)) he
  have hsorted : ((inOrder ts).flatMap (edits o)).Pairwise fun a b => a.le b :=
    (flatMap_inOrder_pairwise hp ha (map_span_edits o)).imp_of_mem fun ha hb h =>
      Edit.le_of_stop_le (hclean _ ha).1 (hclean _ hb).1 h
  refine eq_of_filter_eq Edit.le_total (List.pairwise_mergeSort Edit.le_trans Edit.le_total _)
    hsorted fun a => ?_
  simp only [Edit.le_and_le]
  rw [edits_of_span hp ha, filter_mergeSort Edit.le_trans Edit.le_total]
  refine List.pairwise_filter.mpr (List.pairwise_of_forall fun x y hx hy => ?_)
  have := Edit.le_and_le (a := x) (b := y)
  rw [← of_decide_eq_true hx, of_decide_eq_true hy] at this
  simp_all

end TypeSpec

/-! ## Printing -/

namespace SourceFile

open TypeSpec

/-- The spans of the declarations of a file lie in its text, between characters, and do not overlap.
So whatever the declarations are changed to, their spans and nothing else are written anew. -/
theorem print_spliced {info : FileInfo} {path : String} {chars : List Char} {f : SourceFile}
    (h : read info path chars = .ok f) {ts : List TypeSpec}
    (hs : List.Forall₂ (fun old new => new.spans = old.spans) f.specs ts) (o : PrintOptions) :
    (∀ span ∈ (inOrder f.specs).flatMap spans, span.start ≤ span.stop ∧
        span.stop ≤ Text.byteLen chars ∧ Boundary chars span.start ∧ Boundary chars span.stop) ∧
      ((inOrder f.specs).flatMap spans).Pairwise (fun a b => a.stop ≤ b.start) ∧
      (f.withSpecs ts).edits o = (inOrder ts).flatMap (TypeSpec.edits o) ∧
      Edit.Spliced 0 chars ((inOrder ts).flatMap (TypeSpec.edits o))
        ((f.withSpecs ts).print o).toList := by
  obtain ⟨hchars, hplaced, hapart⟩ := read_apart h
  have hplaced' : ∀ t ∈ ts, t.Placed chars := by
    intro t ht
    obtain ⟨u, hu, hut⟩ := mem_of_forall₂ hs ht
    exact (hplaced u hu).of_spans hut
  have hapart' : ts.Pairwise Block.Apart :=
    pairwise_of_forall₂ hs (fun ht hu h => Apart.of_spans h ht hu) hapart
  have hedits : (f.withSpecs ts).edits o = (inOrder ts).flatMap (TypeSpec.edits o) := by
    rw [edits, specs_withSpecs hs.length_eq.symm, mergeSort_edits hplaced' hapart']
  have hspans : ((inOrder f.specs).flatMap spans).Pairwise fun a b => (id a).stop ≤ (id b).start :=
    flatMap_inOrder_pairwise hplaced hapart fun t => by simp
  refine ⟨?_, hspans, hedits, ?_⟩
  · intro span hspan
    obtain ⟨t, ht, hspan⟩ := List.mem_flatMap.mp hspan
    have hp := hplaced t ((inOrder_perm f.specs).mem_iff.mp ht)
    obtain ⟨hstart, hstop⟩ := hp.boundary span hspan
    exact ⟨(hp.span hspan).2.1, hstop.le, hstart, hstop⟩
  · have htext : (f.withSpecs ts).text.chars = chars := hchars
    rw [print, String.toList_ofList, hedits, htext]
    have hnil : chars = [] ++ chars := rfl
    refine Edit.spliced_applyFrom hnil (fun e he => ?_) (fun e _ => Nat.zero_le _)
      (flatMap_inOrder_pairwise hplaced' hapart' (map_span_edits o))
    obtain ⟨t, ht, he⟩ := List.mem_flatMap.mp he
    exact edits_clean (hplaced' t ((inOrder_perm ts).mem_iff.mp ht)) he

/-! ## Two declarations without a blank between them -/

def joinedText : List Char := "package a\ntype (A struct{a int}B struct{})\n".toList

def joinedInfo : FileInfo := .ofText "a.go" 1 joinedText

def joinedBody : StructExpr where
  span := ⟨18, 31⟩
  fields := [{ names := ["a"], pos := 26, ty := .ref none "int", tyText := "int" }]
  trailing := []
  closeIndent := ""
  fieldIndent := none

def joinedFirst : TypeSpec where
  name := "A"
  pos := 17
  isAlias := false
  isGeneric := false
  ty := .struct joinedBody
  tySpan := ⟨18, 31⟩
  doc := []
  docSpan := ⟨16, 16⟩
  comment := []
  commentSpan := ⟨31, 31⟩
  indent := ""

def joinedSecond : TypeSpec where
  name := "B"
  pos := 32
  isAlias := false
  isGeneric := false
  ty := .struct { joinedBody with span := ⟨33, 41⟩, fields := [] }
  tySpan := ⟨33, 41⟩
  doc := []
  docSpan := ⟨31, 31⟩
  comment := []
  commentSpan := ⟨41, 41⟩
  indent := ""

def joined : SourceFile where
  path := "a.go"
  package := "a"
  text := ⟨joinedText, joinedInfo⟩
  root := { span := ⟨0, 43⟩, specs := [joinedFirst, joinedSecond] }

/-- The comment of the first and the doc of the second are written at one place, in this order. -/
def joinedChanged : List TypeSpec :=
  [{ joinedFirst with comment := ["/* first */"], modified := true },
    { joinedSecond with doc := ["// second"], modified := true }]

theorem print_spliced_joined :
    read joinedInfo "a.go" joinedText = .ok joined ∧
      (∀ span ∈ (inOrder joined.specs).flatMap spans, span.start ≤ span.stop ∧
        span.stop ≤ Text.byteLen joinedText ∧ Boundary joinedText span.start ∧
        Boundary joinedText span.stop) ∧
      ((inOrder joined.specs).flatMap spans).Pairwise (fun a b => a.stop ≤ b.start) ∧
      (joined.withSpecs joinedChanged).edits {} =
        (inOrder joinedChanged).flatMap (TypeSpec.edits {}) ∧
      Edit.Spliced 0 joinedText ((inOrder joinedChanged).flatMap (TypeSpec.edits {}))
        ((joined.withSpecs joinedChanged).print {}).toList := by
  have hr : read joinedInfo "a.go" joinedText = .ok joined := by cbv
  have hs : List.Forall₂ (fun old new => new.spans = old.spans) joined.specs joinedChanged :=
    .cons rfl (.cons rfl .nil)
  exact ⟨hr, print_spliced hr hs {}⟩

end SourceFile

end StructLayout
