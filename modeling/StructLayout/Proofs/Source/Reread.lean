import StructLayout.Proofs.Source.Rewritten

/-!
Files are printed with changed declarations and read again. What is printed has the tokens of the file
but for the changed declarations, so it is read in step with the file.
-/

namespace StructLayout

open Text Token

namespace TypeSpec

open Cursor

/-- A declaration was changed, but not moved, and can be written in its place. -/
structure Changed (s : SourceText) (t u : TypeSpec) : Prop where
  spans : u.spans = t.spans
  writable : ∀ body, u.rewritten? = some body → Writable s t u body

/-- A declaration is read again as it was, or as it is written. -/
def Renders (s' : SourceText) (o : PrintOptions) (t u t' : TypeSpec) : Prop :=
  (u.rewritten? = none ∧ t'.bare = t.bare) ∨ ∃ body, u.rewritten? = some body ∧ Shows s' o u body t'

variable {s s' : SourceText} {R : TypeSpec → TypeSpec → Prop} {o : PrintOptions}
  {change : TypeSpec → TypeSpec} {log : List Place} {c d : Cursor} {p : Place}
  {seg : List Token} {front front' old new : List Char} {es : List Edit}

theorem Place.IsRead.carried (hp : p.IsRead s) (ho : Over s c) (hc : c.Passes seg p.base)
    (hs : s.chars = front ++ old) (hf : byteLen front = c.lastStop)
    (hs' : s'.chars = front' ++ new) (hu : Changed s p.spec (change p.spec))
    (hes : ∀ e ∈ es, p.rest.lastStop ≤ e.span.start)
    (h : Edit.Spliced c.lastStop old ((change p.spec).edits o ++ es) new)
    (hR : ∀ t', Renders s' o p.spec (change p.spec) t' → R p.spec t') :
    Carried s' R seg p c.lastStop (byteLen front') old new es := by
  cases hw : (change p.spec).rewritten? with
  | none =>
      rw [edits_eq_nil hw, List.nil_append] at h
      exact hp.carried_kept ho hc hs hf hs' h hes fun t' ht' => hR t' (.inl ⟨hw, ht'⟩)
  | some body =>
      exact hp.carried_written ho hc hs hf hs' hw hu.spans (hu.writable body hw) h
        fun t' ht' => hR t' (.inr ⟨body, hw, ht'⟩)

/-- The edits of declarations that follow a place lie behind it. -/
theorem Chain.edits_le (h : Chain s c log d) (ho : Over s c) (hc : Shut c.before)
    (hu : ∀ p ∈ log, Changed s p.spec (change p.spec)) :
    ∀ e ∈ log.flatMap fun p => (change p.spec).edits o, c.lastStop ≤ e.span.start := by
  intro e he
  obtain ⟨p, hp, he⟩ := List.mem_flatMap.mp he
  obtain ⟨q, hrow, -⟩ := h.row ho (past_of_shut hc)
  obtain ⟨hplaced, hle, -⟩ := hrow.placed p.spec (List.mem_map_of_mem hp)
  have hm := span_mem_of_edits he
  rw [(hu p hp).spans] at hm
  exact Nat.le_trans hle (hplaced.span hm).1

/-- The rest of a text with changed declarations has the same tokens but for those declarations. -/
theorem Chain.weave (h : Chain s c log d) (ho : Over s c) (hs : s.chars = front ++ old)
    (hf : byteLen front = c.lastStop) (hs' : s'.chars = front' ++ new)
    (hu : ∀ p ∈ log, Changed s p.spec (change p.spec))
    (he : Edit.Spliced c.lastStop old (log.flatMap fun p => (change p.spec).edits o) new)
    (R : TypeSpec → TypeSpec → Prop)
    (hR : ∀ p ∈ log, ∀ t', Renders s' o p.spec (change p.spec) t' → R p.spec t') :
    ∃ ts, Fills [] (byteLen front') new ts ∧ Weave s' R log c.ahead ts ∧ Alike old new := by
  induction h generalizing front front' old new with
  | @nil c d seg hp =>
      obtain rfl := he.nil_inv
      obtain ⟨front₀, rest, hs₀, hl, htile⟩ := ho.split
      obtain rfl : rest = new := by
        rw [← dropBytes_of_append hs₀, ← dropBytes_of_append hs, hl, hf]
      refine ⟨c.ahead.map (moved c.lastStop (byteLen front')), ?_, .done (map_lexeme_moved _ _ _),
        rfl, rfl, Iff.rfl⟩
      exact htile.fills.move _ (fun t _ _ ht => ht) fun c _ => ⟨rfl, rfl, Iff.rfl⟩
  | @cons c d p log seg hc hp h ih =>
      obtain ⟨hup, hu⟩ := List.forall_mem_cons.mp hu
      obtain ⟨hRp, hR⟩ := List.forall_mem_cons.mp hR
      obtain ⟨_, hpass⟩ := hp.passes
      have hrest := ho.passes (hc.trans hpass)
      obtain ⟨_, hr⟩ := hp.read
      rw [List.flatMap_cons] at he
      obtain ⟨mid, rest, mid', rest', rfl, rfl, hmid, he, hcarry⟩ := hp.carried ho hc hs hf hs' hup
        (h.edits_le hrest (read_shut hr) hu) he hRp
      have hcut : s.chars = front ++ mid ++ rest := by rw [hs, List.append_assoc]
      have hcut' : s'.chars = front' ++ mid' ++ rest' := by rw [hs', List.append_assoc]
      obtain ⟨ts, hfills, hweave, halike⟩ :=
        ih hrest hcut (by rw [byteLen_append, hf, hmid]) hcut' hu he hR
      obtain ⟨hall, gap, us, hgap, hmids, hagain⟩ := hcarry ts hweave.head halike
      refine ⟨gap ++ (us ++ ts), ?_, hc.ahead ▸ .spec hgap hagain hweave, hall⟩
      rw [byteLen_append] at hfills
      rw [← List.append_assoc]
      exact Fills.append (by rwa [List.append_nil]) hfills

variable {cs : List Char} {ts us : List TypeSpec}

/-- Declarations that follow one another are in order. -/
theorem inOrder_eq (hp : us.Perm ts) (hplaced : ∀ t ∈ us, t.Placed cs)
    (horder : us.Pairwise fun a b => a.commentSpan.stop ≤ b.docSpan.start) : inOrder ts = us := by
  have hstart : us.Pairwise fun a b => a.tySpan.start < b.tySpan.start :=
    horder.imp_of_mem fun {a b} ha hb h =>
      calc a.tySpan.start < a.tySpan.stop := (hplaced a ha).ty
        _ ≤ a.commentSpan.start := (hplaced a ha).ty_comment
        _ ≤ a.commentSpan.stop := (hplaced a ha).comment
        _ ≤ b.docSpan.start := h
        _ ≤ b.docSpan.stop := (hplaced b hb).doc
        _ ≤ b.tySpan.start := (hplaced b hb).doc_ty
  have hsame : ∀ ⦃a⦄, a ∈ us → ∀ ⦃b⦄, b ∈ us → a.before b → b.before a → a = b := by
    refine List.Pairwise.forall_of_forall_of_flip (fun _ _ _ _ => rfl) ?_ ?_
    all_goals
      refine hstart.imp fun {a b} h hab hba => ?_
      simp only [before, decide_eq_true_eq] at hab hba
      omega
  have hsorted : us.Pairwise fun a b => a.before b :=
    hstart.imp fun h => decide_eq_true (Nat.le_of_lt h)
  exact ((inOrder_perm ts).trans hp.symm).eq_of_pairwise
    (fun a b ha hb => hsame (hp.mem_iff.mpr ((inOrder_perm ts).mem_iff.mp ha)) hb)
    (List.pairwise_mergeSort before_trans before_total ts) hsorted

end TypeSpec

/-! ## Files -/

namespace SourceFile

open Cursor Token TypeSpec

/-- A package clause is ahead. -/
structure Clause (c : Cursor) : Prop where
  kind : c.skipTrivia.kind = .ident
  keyword : c.skipTrivia.token.text = "package"
  name : c.skipTrivia.next.kind = .ident

namespace Clause

variable {c : Cursor}

/-- The place behind a package clause. -/
theorem passes (h : Clause c) : ∃ seg, c.Passes seg c.skipTrivia.next.next := by
  obtain ⟨lead, hlead, -⟩ := passes_skipTrivia c
  exact ⟨_, hlead.trans ((passes_next (by rw [h.kind]; decide)).trans
    (passes_next (by rw [h.name]; decide)))⟩

theorem shut (h : Clause c) : Shut c.skipTrivia.next.next.before := by
  have hk : c.skipTrivia.next.token.kind = .ident := h.name
  rw [(passes_next (by rw [h.name]; decide)).before]
  exact .token (by rw [hk]; decide) (by rw [hk]; decide)

/-- A package clause is read again in front of declarations that are. -/
theorem again {s s' : SourceText} {R : TypeSpec → TypeSpec → Prop} {log : List Place}
    {c' e : Cursor} (h : Clause c) (hc : Chain s c.skipTrivia.next.next log e)
    (hm : Mates s' R log c c') :
    Clause c' ∧ c'.skipTrivia.next.token.text = c.skipTrivia.next.token.text ∧
      Mates s' R log c.skipTrivia.next.next c'.skipTrivia.next.next := by
  have hne : c.skipTrivia.kind ≠ .eof := by rw [h.kind]; decide
  have hnen : c.skipTrivia.next.kind ≠ .eof := by rw [h.name]; decide
  have hskip := hm.skipTrivia (.before ((passes_next hne).trans (passes_next hnen)) hc)
  have hnext := hskip.next hne (.before (passes_next hnen) hc)
  exact ⟨⟨hskip.token.1.trans h.kind, hskip.token.2.trans h.keyword, hnext.token.1.trans h.name⟩,
    hnext.token.2, hnext.next hnen hc⟩

end Clause

variable {info : FileInfo} {path : String} {chars : List Char} {f : SourceFile}

theorem read_iff : read info path chars = .ok f ↔ ∃ init e, Tile 0 chars init ∧
    ∃ c : Cursor, c = ⟨[], init, byteLen chars⟩ ∧ Clause c ∧ f.path = path ∧
      f.package = c.skipTrivia.next.token.text ∧ f.text = { chars, info } ∧
      Block.ReadsRest { chars, info } false { span := ⟨0, byteLen chars⟩ }
        c.skipTrivia.next.next f.root e := by
  have hstart (init : List Token) :
      ofTokens (init ++ [⟨.eof, 0 + byteLen chars, ""⟩]) (byteLen chars) =
        ⟨[], init, byteLen chars⟩ := by
    rw [ofTokens, List.dropLast_concat]
  constructor
  · intro h
    unfold read at h
    split at h
    · cases h
    · rename_i tokens htokens
      obtain ⟨init, rfl, htile⟩ := tokensFrom_eq_ok.mp htokens
      unfold readTokens at h
      dsimp only at h
      rw [hstart] at h
      split at h
      · rename_i hk
        obtain ⟨⟨name, d, hd⟩, hname, h⟩ := bind_eq_ok.mp h
        obtain ⟨⟨root, e, he⟩, hroot, h⟩ := bind_eq_ok.mp h
        cases h
        obtain ⟨hkind, hnext⟩ := expect_eq_next hname
        obtain ⟨hpackage, hword⟩ := hk
        dsimp only at hnext
        subst hnext
        obtain ⟨hpass, -⟩ := expect_eq_ok hname
        have hne : (Cursor.skipTrivia ⟨[], init, byteLen chars⟩).next.kind ≠ .eof := by
          rw [hkind]
          decide
        have htoken : name = _ :=
          (List.cons.inj (hpass.ahead.symm.trans (passes_next hne).ahead)).1
        exact ⟨init, e, htile, _, rfl, ⟨hpackage, hword, hkind⟩, rfl, congrArg Token.text htoken,
          rfl, he, hroot⟩
      · cases h
  · rintro ⟨init, e, htile, c, rfl, ⟨hpackage, hword, hname⟩, rfl, hpkg, htext, he, hroot⟩
    obtain ⟨hlt, hname⟩ := expect_of_kind (s := { chars, info }) hname (by decide) "package name"
    have htokens : tokenize chars = .ok (init ++ [⟨.eof, 0 + byteLen chars, ""⟩]) :=
      tokensFrom_eq_ok.mpr ⟨init, rfl, htile⟩
    obtain ⟨path, package, text, root⟩ := f
    dsimp only at *
    subst hpkg htext
    unfold read
    rw [htokens]
    dsimp only
    unfold readTokens
    dsimp only
    rw [hstart, if_pos ⟨hpackage, hword⟩]
    exact bind_eq_ok.mpr ⟨_, hname, bind_eq_ok.mpr ⟨_, hroot, rfl⟩⟩

/-- How a file was read, and where its declarations stand. -/
theorem read_walks (h : read info path chars = .ok f) :
    ∃ c e log, f.text = { chars, info } ∧ Over { chars, info } c ∧ c.before = [] ∧ Clause c ∧
      f.package = c.skipTrivia.next.token.text ∧
      Block.Walks { chars, info } false { span := ⟨0, byteLen chars⟩ } c.skipTrivia.next.next f.root
        e log ∧
      (log.map Place.spec).Perm f.specs := by
  obtain ⟨init, e, htile, c, rfl, hclause, -, hpackage, htext, hroot⟩ := read_iff.mp h
  obtain ⟨log, hwalks⟩ := hroot.walks (.inl hclause.shut)
  refine ⟨⟨[], init, byteLen chars⟩, e, log, htext, htile, rfl, hclause, hpackage, hwalks, ?_⟩
  have hnone : Block.allSpecs { span := ⟨0, byteLen chars⟩ } = [] := by
    rw [Block.allSpecs_eq]
    rfl
  have hperm := hwalks.perm.symm
  rwa [hnone, List.nil_append] at hperm

theorem specs_nodup (h : read info path chars = .ok f) : f.specs.Nodup := by
  obtain ⟨-, hplaced, hapart⟩ := read_apart h
  refine hapart.imp_of_mem fun {a b} ha hb hab heq => ?_
  subst heq
  have hlt := (hplaced a ha).lt
  rcases hab with hab | hab <;> omega

/-- Changed declarations, in the order of the text. -/
theorem inOrder_change {s : SourceText} {change : TypeSpec → TypeSpec} {log : List Place}
    {c d : Cursor} (hc : Chain s c log d) (ho : Over s c) (hshut : Shut c.before)
    (hp : (log.map Place.spec).Perm f.specs)
    (hu : ∀ t ∈ f.specs, (change t).spans = t.spans) :
    inOrder (f.specs.map change) = log.map fun p => change p.spec := by
  obtain ⟨q, hrow, -⟩ := hc.row ho (past_of_shut hshut)
  have hmem : ∀ t ∈ log.map Place.spec, (change t).spans = t.spans := fun t ht =>
    hu t (hp.mem_iff.mp ht)
  have hmap : (log.map fun p => change p.spec) = (log.map Place.spec).map change := by
    rw [List.map_map]
    rfl
  rw [hmap]
  have hplaced : ∀ t ∈ (log.map Place.spec).map change, t.Placed s.chars := by
    intro t ht
    obtain ⟨u, hu, rfl⟩ := List.mem_map.mp ht
    exact (hrow.placed u hu).1.of_spans (hmem u hu)
  refine inOrder_eq (hp.map change) hplaced ?_
  · refine List.pairwise_map.mpr (hrow.order.imp_of_mem fun {a b} ha hb hab => ?_)
    obtain ⟨-, -, hcomment⟩ : _ ∧ _ ∧ (change a).commentSpan = a.commentSpan := by
      simpa [spans] using hmem a ha
    obtain ⟨hdoc, -⟩ : (change b).docSpan = b.docSpan ∧ _ := by
      simpa [spans] using hmem b hb
    rwa [hcomment, hdoc]

theorem exists_map {α : Type} {xs ys : List α} (hd : xs.Nodup) (hl : xs.length = ys.length) :
    ∃ change : α → α, ys = xs.map change := by
  classical
  induction xs generalizing ys with
  | nil => exact ⟨id, List.length_eq_zero_iff.mp hl.symm⟩
  | cons x xs ih =>
      obtain ⟨hx, hd⟩ := List.nodup_cons.mp hd
      cases ys with
      | nil => cases hl
      | cons y ys =>
          obtain ⟨change, rfl⟩ := ih hd (Nat.succ.inj hl)
          refine ⟨Function.update change x y, ?_⟩
          rw [List.map_cons, Function.update_self]
          congr 1
          refine List.map_congr_left fun z hz => ?_
          rw [Function.update_of_ne]
          rintro rfl
          exact hx hz

/-- A file with changed declarations is printed as a text that reads as the same file but for those
declarations, which read as they are written. -/
theorem print_reads (h : read info path chars = .ok f) {ts : List TypeSpec}
    (hs : List.Forall₂ (Changed f.text) f.specs ts) (o : PrintOptions) (info' : FileInfo)
    (path' : String) :
    ∃ f' change, read info' path' ((f.withSpecs ts).print o).toList = .ok f' ∧
      f'.package = f.package ∧ ts = f.specs.map change ∧
      Block.Rel (fun t t' => t ∈ f.specs ∧ Renders f'.text o t (change t) t') f.root f'.root := by
  obtain ⟨change, rfl⟩ := exists_map (specs_nodup h) hs.length_eq
  have hu : ∀ t ∈ f.specs, Changed f.text t (change t) := by
    simpa [List.forall₂_map_right_iff, List.forall₂_same] using hs
  obtain ⟨-, -, -, hspliced⟩ := print_spliced h (hs.imp fun _ _ h => h.spans) o
  obtain ⟨c, e, log, htext, ho, hbefore, hclause, hpackage, hwalks, hperm⟩ := read_walks h
  rw [htext] at hu
  let s' : SourceText := ⟨((f.withSpecs (f.specs.map change)).print o).toList, info'⟩
  let R : TypeSpec → TypeSpec → Prop := fun t t' => t ∈ f.specs ∧ Renders s' o t (change t) t'
  have hmem : ∀ p ∈ log, p.spec ∈ f.specs := fun p hp =>
    hperm.mem_iff.mp (List.mem_map_of_mem hp)
  have hstart : c.lastStop = 0 := by rw [lastStop, hbefore]; rfl
  obtain ⟨seg, hpass⟩ := hclause.passes
  rw [inOrder_change hwalks.chain (ho.passes hpass) hclause.shut hperm fun t ht => (hu t ht).spans,
    List.flatMap_map, ← hstart] at hspliced
  have hnil (cs : List Char) : cs = [] ++ cs := rfl
  obtain ⟨us, hfills, hweave, -⟩ := (Chain.before hpass hwalks.chain).weave ho (hnil chars)
    hstart.symm (hnil s'.chars) (fun p hp => hu p.spec (hmem p hp)) hspliced R
    (fun p hp _ ht' => ⟨hmem p hp, ht'⟩)
  have htile : Tile 0 s'.chars us := by
    have := hfills.tile (.nil _)
    rwa [List.append_nil, List.append_nil] at this
  let c' : Cursor := ⟨[], us, byteLen s'.chars⟩
  have hmates : Mates s' R log c c' := ⟨hweave, by rw [isFree, isFree, hbefore]⟩
  obtain ⟨hclause', hname, hmates⟩ := hclause.again hwalks.chain hmates
  obtain ⟨root', e', log', hwalks', hrel, -⟩ := hwalks.again (.nil (.refl e)) (.inl hclause'.shut)
    (by rwa [List.append_nil]) (.empty _ ⟨0, byteLen s'.chars⟩)
  exact ⟨⟨path', _, s', root'⟩, change,
    read_iff.mpr ⟨us, e', htile, _, rfl, hclause', rfl, rfl, rfl, hwalks'.reads⟩,
    hname.trans hpackage.symm, rfl, hrel⟩

end SourceFile

end StructLayout
