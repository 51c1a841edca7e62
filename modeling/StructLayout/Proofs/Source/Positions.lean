import StructLayout.Proofs.Source.Blocks

/-!
Where the declarations of files are: each has a position of its own in its file, and no two files
of a set have a position in common.
-/

namespace StructLayout

/-! ## Declarations in their file -/

namespace Cursor

variable {s : SourceText} {c d : Cursor} {seg : List Token}

theorem Passes.token_eq {t : Token} {ts : List Token} (h : c.Passes (t :: ts) d) : c.token = t := by
  rw [token, peek, h.ahead, List.cons_append, List.getElem?_cons_zero, Option.getD_some]

theorem Over.start_le (h : Over s c) (hp : c.Passes seg d) (hc : c.kind ≠ .eof)
    (hd : d.kind ≠ .eof) : c.token.start ≤ d.token.start := by
  cases seg with
  | nil =>
    have he : c.token = d.token := by
      rw [Cursor.token, Cursor.token, peek, peek, hp.ahead, hp.stop, List.nil_append]
    exact Nat.le_of_eq (congrArg Token.start he)
  | cons t ts =>
    have hlast := h.stop_le hc hp (List.cons_ne_nil t ts)
    have hlt := (h.token hc).2.1
    have hle := ((h.passes hp).token hd).1
    omega

end Cursor

theorem SourceText.declStart_le (s : SourceText) (offset : Nat) : s.declStart offset ≤ offset := by
  unfold declStart
  dsimp only
  split
  · exact Nat.sub_le _ _
  · exact Nat.le_refl _

namespace TypeSpec

open Cursor

variable {s : SourceText} {P : TypeSpec → Prop}

/-- The name of a declaration stands between its docs and its type. -/
def Named (s : SourceText) (t : TypeSpec) : Prop :=
  ∃ n, t.pos = s.info.pos n ∧ t.docSpan.stop ≤ n ∧ n < t.tySpan.start

/-- `P` holds of every declaration that is read in a text. -/
def OfRead (s : SourceText) (P : TypeSpec → Prop) : Prop :=
  ∀ {anchor c : Cursor} {seg t} {d : c.After}, Over s anchor → anchor.kind ≠ .eof →
    anchor.Passes seg c → read s anchor c = .ok (t, d) → P t

theorem read_passes {anchor c : Cursor} {t : TypeSpec} {d : c.After}
    (h : read s anchor c = .ok (t, d)) : ∃ seg, c.Passes seg d.1 := by
  obtain ⟨name, f, g, head, comments, hhead, -, ⟨ty, hty, -⟩, -, hcomments, -⟩ := read_eq_ok h
  exact ⟨_, hhead.trans (hty.trans hcomments)⟩

theorem named_of_read (s : SourceText) : OfRead s (Named s) := by
  intro anchor c seg t d ho hk hc h
  obtain ⟨name, f, g, head, comments, hhead, hname, ⟨ty, hty, htypes, -⟩, -, -, -, -, hpos, -,
    htySpan, -, hdocSpan⟩ := read_eq_ok h
  have hck : c.kind ≠ .eof := by
    rw [kind, hhead.token_eq, hname]
    decide
  have hfk : f.kind ≠ .eof := by
    intro he
    have := htypes.headKind
    rw [← kind_eq, he] at this
    simp at this
  have hoc := ho.passes hc
  have hstart := hhead.token_eq ▸ ho.start_le hc hk hck
  have hstop := hoc.stop_le hck hhead (List.cons_ne_nil _ _)
  have hlt := (hoc.token hck).2.1
  have hle := ((hoc.passes hhead).token hfk).1
  rw [hhead.token_eq] at hstop hlt
  refine ⟨name.start, hpos, ?_, ?_⟩
  · rw [hdocSpan]
    exact Nat.le_trans (s.declStart_le _) hstart
  · rw [htySpan]
    exact Nat.lt_of_lt_of_le hlt (Nat.le_trans hstop hle)

theorem readGroup_forall {c : Cursor} {ts : List TypeSpec} {d : c.From} (hP : OfRead s P)
    (ho : Over s c) (h : readGroup s c = .ok (ts, d)) :
    (∃ seg, c.Passes seg d.1) ∧ ∀ t ∈ ts, P t := by
  obtain ⟨n, hn⟩ : ∃ n, c.ahead.length < n := ⟨_, Nat.lt_succ_self _⟩
  induction n generalizing c ts d with
  | zero => exact absurd hn (Nat.not_lt_zero _)
  | succ n ih =>
      obtain ⟨seg, hseg, -⟩ := skipTrivia_kinds c
      have hle : c.skipTrivia.ahead.length ≤ c.ahead.length := c.skip_le _
      unfold readGroup at h
      dsimp only at h
      split at h
      · rename_i hk
        cases h
        exact ⟨⟨_, hseg.trans (passes_next (by rw [hk]; decide))⟩, List.forall_mem_nil _⟩
      · cases h
      · rename_i hk
        obtain ⟨⟨t, f, hf⟩, ht, h⟩ := bind_eq_ok.mp h
        obtain ⟨⟨ts, g, hg⟩, hts, h⟩ := bind_eq_ok.mp h
        cases h
        obtain ⟨seg', hpass⟩ := read_passes ht
        have ho' := ho.passes hseg
        obtain ⟨⟨seg'', hpass'⟩, hall⟩ := ih (ho'.passes hpass) hts
          (Nat.lt_of_lt_of_le hf (Nat.le_trans hle (Nat.le_of_lt_succ hn)))
        exact ⟨⟨_, (hseg.trans hpass).trans hpass'⟩,
          List.forall_mem_cons.mpr ⟨hP ho' hk (.refl _) ht, hall⟩⟩

theorem readDecl_forall {c : Cursor} {ts : List TypeSpec} {d : c.next.From} (hP : OfRead s P)
    (ho : Over s c) (hk : c.kind ≠ .eof) (h : readDecl s c = .ok (ts, d)) :
    (∃ seg, c.Passes seg d.1) ∧ ∀ t ∈ ts, P t := by
  have hnext := passes_next hk
  unfold readDecl at h
  split at h
  · rename_i hparen
    obtain ⟨⟨ts, e, he⟩, hts, h⟩ := bind_eq_ok.mp h
    cases h
    have hopen := hnext.trans (passes_next (c := c.next) (by rw [hparen]; decide))
    obtain ⟨⟨seg, hpass⟩, hall⟩ := readGroup_forall hP (ho.passes hopen) hts
    exact ⟨⟨_, hopen.trans hpass⟩, hall⟩
  · obtain ⟨⟨t, e⟩, ht, h⟩ := bind_eq_ok.mp h
    cases h
    obtain ⟨seg, hpass⟩ := read_passes ht
    exact ⟨⟨_, hnext.trans hpass⟩, List.forall_mem_singleton.mpr (hP ho hk hnext ht)⟩

/-- A byte between the docs and the type of a declaration is in its span and in the text. -/
theorem Placed.around {cs : List Char} {t : TypeSpec} {n : Nat} (h : t.Placed cs)
    (hd : t.docSpan.stop ≤ n) (ht : n < t.tySpan.start) :
    t.docSpan.start ≤ n ∧ n < t.commentSpan.stop ∧ n < Text.byteLen cs := by
  have hty := (h.boundary t.tySpan (by simp [spans])).1.le
  have := h.doc
  have := h.ty
  have := h.ty_comment
  have := h.comment
  omega

end TypeSpec

namespace Block

open Cursor

variable {s : SourceText} {P : TypeSpec → Prop}

theorem forall_addSpecs {b : Block} {ts : List TypeSpec} (hb : ∀ t ∈ b.allSpecs, P t)
    (ht : ∀ t ∈ ts, P t) : ∀ t ∈ ({ b with specs := b.specs ++ ts } : Block).allSpecs, P t := by
  rw [allSpecs_eq, List.forall_mem_append] at hb ⊢
  exact ⟨List.forall_mem_append.mpr ⟨hb.1, ht⟩, hb.2⟩

theorem forall_addBlock {b child : Block} (hb : ∀ t ∈ b.allSpecs, P t)
    (hc : ∀ t ∈ child.allSpecs, P t) :
    ∀ t ∈ ({ b with blocks := b.blocks ++ [child] } : Block).allSpecs, P t := by
  rw [allSpecs_eq, List.forall_mem_append] at hb ⊢
  refine ⟨hb.1, ?_⟩
  rw [allSpecsIn_append, List.forall_mem_append, allSpecsIn, allSpecsIn, List.append_nil]
  exact ⟨hb.2, hc⟩

/-- Whatever holds of the declarations that are read holds of all declarations of a block. -/
theorem Reads.forall {nested : Bool} {b b' : Block} {c d : Cursor} (h : Reads s nested b c b' d)
    (hP : TypeSpec.OfRead s P) (ho : Over s c) (hb : ∀ t ∈ b.allSpecs, P t) :
    (∃ seg, c.Passes seg d) ∧ ∀ t ∈ b'.allSpecs, P t := by
  -- what is left to read behind a part of the block
  have more {b' : Block} {c d e : Cursor} {seg : List Token} (hc : c.Passes seg d)
      (h : (∃ seg, d.Passes seg e) ∧ ∀ t ∈ b'.allSpecs, P t) :
      (∃ seg, c.Passes seg e) ∧ ∀ t ∈ b'.allSpecs, P t := by
    obtain ⟨⟨seg', hpass⟩, hall⟩ := h
    exact ⟨⟨_, hc.trans hpass⟩, hall⟩
  induction h with
  | finish => exact ⟨⟨[], .refl _⟩, hb⟩
  | close hk => exact ⟨⟨_, passes_next (by rw [hk]; decide)⟩, by rwa [allSpecs_eq] at hb ⊢⟩
  | nest hk _ _ ihchild ih =>
      have hnext := passes_next (by rw [hk]; decide)
      obtain ⟨⟨seg, hpass⟩, hchild⟩ := ihchild (ho.passes hnext) (List.forall_mem_nil _)
      have hpass := hnext.trans hpass
      exact more hpass (ih (ho.passes hpass) (forall_addBlock hb hchild))
  | types hk hr _ ih =>
      obtain ⟨⟨seg, hpass⟩, ht⟩ := TypeSpec.readDecl_forall hP ho (by rw [hk]; decide) hr
      exact more hpass (ih (ho.passes hpass) (forall_addSpecs hb ht))
  | consts hk _ hr _ ih =>
      obtain ⟨seg, hpass⟩ := ConstSpec.readDecl_passes hk hr
      exact more hpass (ih (ho.passes hpass) (by rwa [allSpecs_eq] at hb ⊢))
  | literal hk hr _ ih =>
      obtain ⟨seg, last, hpass, -⟩ := skipBalanced_eq_ok hr
      have hpass := (passes_next (by rw [hk]; decide)).trans hpass
      exact more hpass (ih (ho.passes hpass) hb)
  | other he _ _ _ ih =>
      have hnext := passes_next he
      exact more hnext (ih (ho.passes hnext) hb)

end Block

namespace SourceFile

open Cursor Token

/-- Whatever holds of the declarations that are read holds of all declarations of a file. -/
theorem specs_forall {info : FileInfo} {path : String} {chars : List Char} {f : SourceFile}
    {P : TypeSpec → Prop} (hP : TypeSpec.OfRead { chars, info } P)
    (h : read info path chars = .ok f) : f.text = { chars, info } ∧ ∀ t ∈ f.specs, P t := by
  obtain ⟨htext, init, clause, name, d, e, -, htile, hpass, -, -, hreads⟩ := read_eq_ok h
  rw [htext] at hreads
  have ho : Over { chars, info } d := Over.passes (c := ⟨[], init, Text.byteLen chars⟩) htile hpass
  exact ⟨htext, (hreads.forall hP ho (List.forall_mem_nil _)).2⟩

/-- Each declaration of a file has its name in the file. -/
theorem specs_named {info : FileInfo} {path : String} {chars : List Char} {f : SourceFile}
    (h : read info path chars = .ok f) :
    f.text.info = info ∧ ∀ t ∈ f.specs, t.Named f.text := by
  obtain ⟨htext, hnamed⟩ := specs_forall (TypeSpec.named_of_read _) h
  rw [htext]
  exact ⟨rfl, hnamed⟩

end SourceFile

/-! ## Files in their set -/

namespace FileInfo

variable {f : FileInfo} {p q : Nat}

theorem contains_iff : f.contains p = true ↔ f.base ≤ p ∧ p ≤ f.base + f.size := by
  simp [contains]

theorem pos_ofText {name : String} {base n : Nat} {text : List Char} (h : n < Text.byteLen text) :
    (ofText name base text).pos n = base + n := by
  show base + min n (Text.byteLen text) = base + n
  rw [Nat.min_eq_left (Nat.le_of_lt h)]

theorem contains_pos (f : FileInfo) (n : Nat) : f.contains (f.pos n) = true := by
  rw [contains_iff, pos]
  omega

/-- Line and column tell the bytes of a file apart. -/
theorem lineColumn_inj {m n : Nat} (h : f.lineColumn m = f.lineColumn n) : m = n := by
  have last_le (o : Nat) : (f.lineStarts.takeWhile (· ≤ o)).getLast?.getD 0 ≤ o := by
    cases hl : (f.lineStarts.takeWhile (· ≤ o)).getLast? with
    | none => exact Nat.zero_le o
    | some start =>
      simpa using List.all_eq_true.mp List.all_takeWhile start (List.mem_of_getLast? hl)
  obtain ⟨hlen, hcol⟩ := Prod.mk.inj h
  have hstarts : f.lineStarts.takeWhile (· ≤ m) = f.lineStarts.takeWhile (· ≤ n) := by
    rw [List.prefix_iff_eq_take.mp (List.takeWhile_prefix (l := f.lineStarts) (· ≤ m)), hlen,
      ← List.prefix_iff_eq_take.mp (List.takeWhile_prefix (l := f.lineStarts) (· ≤ n))]
  have hm := last_le m
  have hn := last_le n
  rw [hstarts] at hm hcol
  omega

theorem position_inj (hp : f.contains p = true) (hq : f.contains q = true)
    (hl : (f.position p).line = (f.position q).line)
    (hc : (f.position p).column = (f.position q).column) : p = q := by
  have := lineColumn_inj (Prod.ext hl hc)
  rw [contains_iff] at hp hq
  unfold offset at this
  omega

end FileInfo

namespace FileSet

/-- The files of a set follow one another, with a position between them. -/
structure Ordered (fs : FileSet) : Prop where
  next : 0 < fs.next
  base : ∀ f ∈ fs.files, 0 < f.base
  stop : ∀ f ∈ fs.files, f.base + f.size < fs.next
  order : fs.files.Pairwise fun a b => a.base + a.size < b.base

theorem ordered_startingAt (base : Nat) : (startingAt base).Ordered where
  next := Nat.lt_of_lt_of_le Nat.one_pos (Nat.le_max_right base 1)
  base := List.forall_mem_nil _
  stop := List.forall_mem_nil _
  order := .nil

variable {fs : FileSet}

theorem Ordered.add (h : fs.Ordered) (name : String) (text : List Char) :
    (fs.add name text).Ordered where
  next := Nat.succ_pos _
  base := List.forall_mem_append.mpr ⟨h.base, List.forall_mem_singleton.mpr h.next⟩
  stop := List.forall_mem_append.mpr
    ⟨fun f hf => by have := h.stop f hf; show _ < fs.next + _ + 1; omega,
      List.forall_mem_singleton.mpr (Nat.lt_succ_self _)⟩
  order := List.pairwise_append.mpr ⟨h.order, List.pairwise_singleton _ _,
    fun f hf g hg => by rw [List.mem_singleton.mp hg]; exact h.stop f hf⟩

theorem mem_of_file? {f : FileInfo} {p : Nat} (h : fs.file? p = some f) : f ∈ fs.files := by
  unfold file? at h
  split at h
  · cases h
  · have hl := List.mem_of_getLast? (Option.filter_eq_some_iff.mp h).1
    exact (List.takeWhile_sublist _).subset hl

/-- A position is found in the file that it belongs to. -/
theorem Ordered.file?_eq {f : FileInfo} {p : Nat} (h : fs.Ordered) (hf : f ∈ fs.files)
    (hp : f.contains p = true) : fs.file? p = some f := by
  obtain ⟨hb, hs⟩ := FileInfo.contains_iff.mp hp
  have hpos := h.base f hf
  obtain ⟨front, back, hfs⟩ := List.append_of_mem hf
  have hord := h.order
  rw [hfs] at hord
  obtain ⟨-, hback, hfront⟩ := List.pairwise_append.mp hord
  have htake : fs.files.takeWhile (fun f => f.base ≤ p) = front ++ [f] := by
    rw [hfs, List.takeWhile_append_of_pos]
    · rw [List.takeWhile_cons_of_pos (by simpa using hb)]
      cases back with
      | nil => rfl
      | cons g back =>
        have := (List.pairwise_cons.mp hback).1 g List.mem_cons_self
        rw [List.takeWhile_cons_of_neg (by simp; omega)]
    · intro g hg
      have := hfront g hg f List.mem_cons_self
      simp
      omega
  rw [file?, if_neg (by omega), htake, List.getLast?_concat, Option.filter_some, if_pos hp]

end FileSet

namespace SourceFile

/-- The declarations of a file are at different positions. -/
theorem specs_pos_nodup {name path : String} {base : Nat} {chars : List Char} {f : SourceFile}
    (h : read (.ofText name base chars) path chars = .ok f) :
    (f.specs.map TypeSpec.pos).Nodup := by
  obtain ⟨-, hplaced, hapart⟩ := read_apart h
  obtain ⟨hinfo, hnamed⟩ := specs_named h
  rw [List.nodup_iff_pairwise_ne, List.pairwise_map]
  refine List.Pairwise.imp_of_mem (fun {a b} ha hb hab => ?_) hapart
  obtain ⟨m, hm, hma, hma'⟩ := hnamed a ha
  obtain ⟨n, hn, hnb, hnb'⟩ := hnamed b hb
  obtain ⟨hda, hma⟩ := (hplaced a ha).around hma hma'
  obtain ⟨hdb, hnb⟩ := (hplaced b hb).around hnb hnb'
  have hne : m ≠ n := by
    rcases hab with hab | hab <;> omega
  rw [hm, hn, hinfo, FileInfo.pos_ofText hma.2, FileInfo.pos_ofText hnb.2]
  omega

/-- Reading files into a set adds one file to the set for each, which holds its declarations. -/
theorem readAll_eq_ok {fs fs' : FileSet} {sources : List (String × List Char)}
    {files : List SourceFile} (ho : fs.Ordered) (h : readAll fs sources = .ok (fs', files)) :
    fs'.Ordered ∧ fs.files ⊆ fs'.files ∧
      fs'.files.map FileInfo.name = fs.files.map FileInfo.name ++ sources.map Prod.fst ∧
      ∀ f ∈ files, f.text.info ∈ fs'.files ∧ f.text.info.name ∈ sources.map Prod.fst ∧
        ∀ t ∈ f.specs, f.text.info.contains t.pos = true := by
  induction sources generalizing fs files with
  | nil =>
    cases h
    exact ⟨ho, List.Subset.refl _, by simp, List.forall_mem_nil _⟩
  | cons source sources ih =>
    obtain ⟨path, chars⟩ := source
    unfold readAll at h
    obtain ⟨f, hf, h⟩ := bind_eq_ok.mp h
    obtain ⟨⟨fs₁, fs₂⟩, hr, h⟩ := bind_eq_ok.mp h
    cases h
    obtain ⟨ho', hsub, hnames, hfiles⟩ := ih (ho.add path chars) hr
    obtain ⟨hinfo, hnamed⟩ := specs_named hf
    refine ⟨ho', List.Subset.trans (List.subset_append_left _ _) hsub, ?_,
      List.forall_mem_cons.mpr ⟨⟨?_, ?_, fun t ht => ?_⟩, fun g hg => ?_⟩⟩
    · rw [hnames]
      simp [FileSet.add, FileSet.nextFile, FileInfo.ofText]
    · rw [hinfo]
      exact hsub (List.mem_append_right _ (List.mem_singleton.mpr rfl))
    · rw [hinfo]
      exact List.mem_cons_self
    · obtain ⟨n, hn, -⟩ := hnamed t ht
      rw [hn]
      exact FileInfo.contains_pos _ n
    · obtain ⟨h₁, h₂, h₃⟩ := hfiles g hg
      exact ⟨h₁, List.mem_cons_of_mem _ h₂, h₃⟩

/-- The declarations of all files of a set are at different positions. -/
theorem readAll_pos_nodup {fs fs' : FileSet} {sources : List (String × List Char)}
    {files : List SourceFile} (h : readAll fs sources = .ok (fs', files)) :
    ((files.flatMap specs).map TypeSpec.pos).Nodup ∧
      ∀ p ∈ (files.flatMap specs).map TypeSpec.pos, fs.next ≤ p := by
  induction sources generalizing fs files with
  | nil =>
    cases h
    exact ⟨List.nodup_nil, List.forall_mem_nil _⟩
  | cons source sources ih =>
    obtain ⟨path, chars⟩ := source
    unfold readAll at h
    obtain ⟨f, hf, h⟩ := bind_eq_ok.mp h
    obtain ⟨⟨fs₁, rest⟩, hr, h⟩ := bind_eq_ok.mp h
    cases h
    obtain ⟨hnodup, hle⟩ := ih hr
    obtain ⟨hinfo, hnamed⟩ := specs_named hf
    obtain ⟨hchars, -, -⟩ := read_apart hf
    have hown : ∀ p ∈ f.specs.map TypeSpec.pos,
        fs.next ≤ p ∧ p < (fs.add path chars).next := by
      refine List.forall_mem_map.mpr fun t ht => ?_
      obtain ⟨n, hn, -⟩ := hnamed t ht
      have := FileInfo.contains_iff.mp (FileInfo.contains_pos (fs.nextFile path chars) n)
      rw [hn, hinfo]
      exact ⟨this.1, Nat.lt_succ_of_le this.2⟩
    rw [List.flatMap_cons, List.map_append]
    refine ⟨List.nodup_append.mpr ⟨specs_pos_nodup hf, hnodup, fun p hp q hq => ?_⟩,
      List.forall_mem_append.mpr ⟨fun p hp => (hown p hp).1, fun p hp => ?_⟩⟩
    · exact Nat.ne_of_lt (Nat.lt_of_lt_of_le (hown p hp).2 (hle q hq))
    · refine Nat.le_trans ?_ (hle p hp)
      show fs.next ≤ fs.next + _ + 1
      omega

end SourceFile

end StructLayout
