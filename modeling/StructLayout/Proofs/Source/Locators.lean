import Mathlib
import StructLayout.Proofs.Source.Identities
import StructLayout.Proofs.Source.LineStarts

/-!
Positions and the files that they belong to, over the file sets of a locator. Sets that follow one
another share no position, each position of a file leads to its byte, line and column, and the
identities of positions tell them apart in the order of their lines.
-/

namespace StructLayout

open Text

namespace FileSet

variable {fs : FileSet} {p : Nat}

def addAll (fs : FileSet) (sources : List (String × List Char)) : FileSet :=
  sources.foldl (fun fs source => fs.add source.1 source.2) fs

theorem file?_eq_none (h : ∀ f ∈ fs.files, f.contains p = false) : fs.file? p = none := by
  cases hf : fs.file? p with
  | none => rfl
  | some f =>
    have hcontains : f.contains p = true := by
      unfold file? at hf
      split at hf
      · cases hf
      · exact (Option.filter_eq_some_iff.mp hf).2
    rw [h f (mem_of_file? hf)] at hcontains
    cases hcontains

/-- What is added to a set stands behind what it has, file by file. -/
theorem Ordered.addAll (h : fs.Ordered) (sources : List (String × List Char)) :
    (fs.addAll sources).Ordered ∧ fs.next ≤ (fs.addAll sources).next ∧
      ∃ new, (fs.addAll sources).files = fs.files ++ new ∧ (∀ f ∈ new, fs.next ≤ f.base) ∧
        List.Forall₂ (fun f source => f = .ofText source.1 f.base source.2) new sources := by
  induction sources generalizing fs with
  | nil => exact ⟨h, Nat.le_refl _, [], (List.append_nil _).symm, List.forall_mem_nil _, .nil⟩
  | cons source sources ih =>
    obtain ⟨ho, hnext, new, hfiles, hbase, hnew⟩ := ih (h.add source.1 source.2)
    have hadd : fs.next ≤ (fs.add source.1 source.2).next :=
      Nat.le_trans (Nat.le_add_right _ _) (Nat.le_add_right _ 1)
    refine ⟨ho, Nat.le_trans hadd hnext, fs.nextFile source.1 source.2 :: new, ?_, ?_, .cons rfl hnew⟩
    · rw [FileSet.addAll, List.foldl_cons]
      exact hfiles.trans (List.append_assoc _ [_] new)
    · exact List.forall_mem_cons.mpr ⟨Nat.le_refl _, fun f hf => Nat.le_trans hadd (hbase f hf)⟩

/-- Sets of files, the first from a position on, and each other one from where the one in front of
it ends. -/
def chain (next : Nat) : List (List (String × List Char)) → List FileSet
  | [] => []
  | sources :: rest =>
    let fs := (startingAt next).addAll sources
    fs :: chain fs.next rest

/-- Sets with the files of `sources` that stand one behind another from a position on. -/
structure Chained (next : Nat) (sets : List FileSet) (sources : List (List (String × List Char))) :
    Prop where
  ordered : ∀ fs ∈ sets, fs.Ordered
  base : ∀ f ∈ sets.flatMap files, next ≤ f.base
  order : (sets.flatMap files).Pairwise fun f g => f.base + f.size < g.base
  texts : List.Forall₂ (fun fs sources =>
    List.Forall₂ (fun f source => f = .ofText source.1 f.base source.2) fs.files sources) sets sources

theorem chained_chain (next : Nat) (sources : List (List (String × List Char))) :
    Chained next (chain next sources) sources := by
  induction sources generalizing next with
  | nil => exact ⟨List.forall_mem_nil _, List.forall_mem_nil _, .nil, .nil⟩
  | cons own rest ih =>
    obtain ⟨ho, hnext, new, hfiles, hbase, hnew⟩ := (ordered_startingAt next).addAll own
    have hfiles : ((startingAt next).addAll own).files = new := hfiles
    have hstart : next ≤ (startingAt next).next := Nat.le_max_left next 1
    have hih := ih ((startingAt next).addAll own).next
    rw [chain]
    refine ⟨List.forall_mem_cons.mpr ⟨ho, hih.ordered⟩, ?_, ?_, .cons ?_ hih.texts⟩
    · rw [List.flatMap_cons]
      refine List.forall_mem_append.mpr ⟨fun f hf => ?_, fun f hf => ?_⟩
      · exact Nat.le_trans hstart (hbase f (hfiles ▸ hf))
      · exact Nat.le_trans (Nat.le_trans hstart hnext) (hih.base f hf)
    · rw [List.flatMap_cons]
      exact List.pairwise_append.mpr ⟨ho.order, hih.order,
        fun f hf g hg => Nat.lt_of_lt_of_le (ho.stop f hf) (hih.base g hg)⟩
    · rw [hfiles]
      exact hnew

end FileSet

/-- No position is in both files. -/
def FileInfo.Apart (f g : FileInfo) : Prop :=
  ∀ p, f.contains p = true → g.contains p = false

theorem FileInfo.apart_of_lt {f g : FileInfo} (h : f.base + f.size < g.base) : f.Apart g := by
  refine fun p hp => Bool.eq_false_iff.mpr fun hg => ?_
  have := contains_iff.mp hp
  have := contains_iff.mp hg
  omega

theorem FileInfo.Apart.symm {f g : FileInfo} (h : f.Apart g) : g.Apart f := fun p hg =>
  Bool.eq_false_iff.mpr fun hf => by rw [h p hf] at hg; cases hg

theorem FileSet.Ordered.apart {fs : FileSet} (h : fs.Ordered) :
    fs.files.Pairwise FileInfo.Apart :=
  h.order.imp FileInfo.apart_of_lt

namespace Locator

variable {l : Locator} {f : FileInfo} {p : Nat}

def sets (l : Locator) : List FileSet :=
  l.root :: l.children.map Prod.snd

def files (l : Locator) : List FileInfo :=
  l.sets.flatMap FileSet.files

theorem resolve?_eq_findSome? (l : Locator) (p : Nat) :
    l.resolve? p = l.sets.findSome? (·.position? p) := by
  rw [resolve?, sets, List.findSome?_cons, List.findSome?_map]
  cases l.root.position? p <;> rfl

theorem findSome?_position? {sets : List FileSet} (ho : ∀ fs ∈ sets, fs.Ordered)
    (ha : (sets.flatMap FileSet.files).Pairwise FileInfo.Apart)
    (hf : f ∈ sets.flatMap FileSet.files) (hp : f.contains p = true) :
    sets.findSome? (·.position? p) = some (f.position p) := by
  induction sets with
  | nil => cases hf
  | cons fs sets ih =>
    obtain ⟨hfs, hsets⟩ := List.forall_mem_cons.mp ho
    rw [List.flatMap_cons] at ha hf
    obtain ⟨-, ha, hcross⟩ := List.pairwise_append.mp ha
    rw [List.findSome?_cons, FileSet.position?]
    -- The first set answers for its own files only; for those of a later set it has no answer.
    rcases List.mem_append.mp hf with hf | hf
    · rw [hfs.file?_eq hf hp]
      rfl
    · have hnone : fs.file? p = none := FileSet.file?_eq_none fun g hg =>
        Bool.eq_false_iff.mpr fun hgp => by rw [hcross g hg f hf p hgp] at hp; cases hp
      rw [hnone]
      exact ih hsets ha hf

/-- A position leads to the file that it is in, whichever set that is of. -/
theorem resolve?_of_mem (ho : ∀ fs ∈ l.sets, fs.Ordered) (ha : l.files.Pairwise FileInfo.Apart)
    (hf : f ∈ l.files) (hp : f.contains p = true) : l.resolve? p = some (f.position p) := by
  rw [resolve?_eq_findSome?]
  exact findSome?_position? ho ha hf hp

theorem resolve?_eq_none (h : ∀ f ∈ l.files, f.contains p = false) : l.resolve? p = none := by
  rw [resolve?_eq_findSome?, List.findSome?_eq_none_iff]
  intro fs hfs
  rw [FileSet.position?, FileSet.file?_eq_none fun f hf => h f (List.mem_flatMap.mpr ⟨fs, hfs, hf⟩)]
  rfl

/-! ## Sets that follow one another -/

def attachAll (l : Locator) (attached : List (String × FileSet)) : Locator :=
  attached.foldl (fun l c => l.attach c.1 c.2) l

theorem attach_of_not_mem {location : String} (fs : FileSet)
    (h : location ∉ l.children.map Prod.fst) :
    l.attach location fs = { l with children := l.children ++ [(location, fs)] } := by
  refine if_neg ?_
  rw [List.any_eq_true]
  rintro ⟨c, hc, he⟩
  exact h (List.mem_map.mpr ⟨c, hc, eq_of_beq he⟩)

theorem attachAll_eq {attached : List (String × FileSet)}
    (hn : ((l.children ++ attached).map Prod.fst).Nodup) :
    l.attachAll attached = { l with children := l.children ++ attached } := by
  induction attached generalizing l with
  | nil => rw [List.append_nil]; rfl
  | cons c attached ih =>
    rw [List.append_cons] at hn ⊢
    have hl : c.1 ∉ l.children.map Prod.fst := by
      rw [List.map_append, List.map_append] at hn
      exact fun hm => List.disjoint_of_nodup_append (List.nodup_append.mp hn).1 hm
        (List.mem_singleton.mpr rfl)
    rw [attachAll, List.foldl_cons, attach_of_not_mem c.2 hl]
    exact ih hn

theorem filter_contains (ha : l.files.Pairwise FileInfo.Apart) (hf : f ∈ l.files)
    (hp : f.contains p = true) : l.files.filter (·.contains p) = [f] := by
  obtain ⟨front, back, he⟩ := List.append_of_mem hf
  rw [he] at ha ⊢
  obtain ⟨-, hback, hfront⟩ := List.pairwise_append.mp ha
  have hnone (g : FileInfo) (hg : g ∈ front) : ¬ g.contains p = true := fun hgp => by
    rw [hfront g hg f List.mem_cons_self p hgp] at hp
    cases hp
  have hnone' (g : FileInfo) (hg : g ∈ back) : ¬ g.contains p = true := fun hgp => by
    rw [(List.pairwise_cons.mp hback).1 g hg p hp] at hgp
    cases hgp
  rw [List.filter_append, List.filter_cons, if_pos hp, List.filter_eq_nil_iff.mpr hnone,
    List.filter_eq_nil_iff.mpr hnone', List.nil_append]

/-- A byte of a file, or the end of its text, is in no other file, and is found by its position at
its line and column. -/
structure Locates (l : Locator) (f : FileInfo) (name : String) (text : List Char) (o : Nat) :
    Prop where
  alone : l.files.filter (·.contains (f.base + o)) = [f]
  pos : f.pos o = f.base + o
  offset : f.offset (f.pos o) = o
  place : ∃ start, StartsLine (bytes text) start o ∧ l.resolve? (f.base + o) =
    some ⟨name, o, 1 + ((bytes text).take o).count newline, o - start + 1⟩

theorem locates_of_mem (ho : ∀ fs ∈ l.sets, fs.Ordered) (ha : l.files.Pairwise FileInfo.Apart)
    (hf : f ∈ l.files) {name : String} {text : List Char} (htext : f = .ofText name f.base text)
    {o : Nat} (hle : o ≤ byteLen text) : l.Locates f name text o := by
  have hsize : f.size = byteLen text := by rw [htext]; rfl
  have hname : f.name = name := by rw [htext]; rfl
  have hpos : f.pos o = f.base + o := by rw [FileInfo.pos, hsize, Nat.min_eq_left hle]
  have hoffset : f.offset (f.base + o) = o := by
    rw [FileInfo.offset, Nat.add_sub_cancel_left, hsize, Nat.min_eq_left hle]
  have hin : f.contains (f.base + o) = true := hpos ▸ f.contains_pos o
  refine ⟨filter_contains ha hf hin, hpos, hpos ▸ hoffset, ?_⟩
  obtain ⟨start, hstart, hline⟩ := FileInfo.lineColumn_ofText name f.base text o
  have hline : f.lineColumn o = _ := (congrArg (·.lineColumn o) htext).trans hline
  refine ⟨start, hstart, ?_⟩
  rw [resolve?_of_mem ho ha hf hin, FileInfo.position, hoffset, hname, hline]

/-- Whatever files are added to sets that follow one another, each byte of each of them is found at
its own line and column and nowhere else; a position that is in no file leads nowhere, as zero
does. -/
theorem attachAll_locates {base : Nat} {sources : List (List (String × List Char))}
    {root : FileSet} {inner : List FileSet} {attached : List (String × FileSet)}
    (hchain : FileSet.chain base sources = root :: inner)
    (hinner : (attached.map Prod.snd).Perm inner) (hn : (attached.map Prod.fst).Nodup) :
    let l := (ofRoot root).attachAll attached
    List.Forall₂ (fun fs sources =>
        List.Forall₂ (fun f source => f = .ofText source.1 f.base source.2 ∧
          ∀ o ≤ byteLen source.2, l.Locates f source.1 source.2 o) fs.files sources)
      (root :: inner) sources ∧
    ∀ p, (p = 0 ∨ ∀ f ∈ l.files, f.contains p = false) →
      l.identity p = .none ∧ l.location p = "" ∧ l.file p = "" := by
  intro l
  obtain ⟨ho, -, horder, htexts⟩ := hchain ▸ FileSet.chained_chain base sources
  -- The order in which sets are attached is free: what counts is that no two files overlap.
  have hl : l = ⟨root, attached⟩ := attachAll_eq hn
  have hsets : l.sets.Perm (root :: inner) := by
    rw [hl]
    exact hinner.cons _
  have hfiles : l.files.Perm ((root :: inner).flatMap FileSet.files) := hsets.flatMap_right _
  have ho : ∀ fs ∈ l.sets, fs.Ordered := fun fs hfs => ho fs (hsets.subset hfs)
  have ha : l.files.Pairwise FileInfo.Apart :=
    (hfiles.pairwise_iff FileInfo.Apart.symm).mpr (horder.imp FileInfo.apart_of_lt)
  refine ⟨?_, fun p hp => ?_⟩
  · refine List.Forall₂.imp ?_ (List.forall₂_and_left (p := (· ∈ root :: inner)) _ _ |>.mpr
      ⟨fun _ hfs => hfs, htexts⟩)
    rintro fs sources ⟨hfs, htexts⟩
    refine List.Forall₂.imp ?_ (List.forall₂_and_left (p := (· ∈ fs.files)) _ _ |>.mpr
      ⟨fun _ hf => hf, htexts⟩)
    rintro f source ⟨hf, htext⟩
    have hf : f ∈ l.files := hfiles.mem_iff.mpr (List.mem_flatMap.mpr ⟨fs, hfs, hf⟩)
    exact ⟨htext, fun o hle => locates_of_mem ho ha hf htext hle⟩
  · have hnone : l.resolve? p = none := by
      refine resolve?_eq_none (hp.elim (fun hp f hf => ?_) id)
      obtain ⟨fs, hfs, hf⟩ := List.mem_flatMap.mp hf
      have := (ho fs hfs).base f hf
      refine Bool.eq_false_iff.mpr fun hc => ?_
      have := (FileInfo.contains_iff.mp hc).1
      omega
    rw [identity, location, file, hnone]
    exact ⟨rfl, rfl, rfl⟩

/-- A file with a character of two bytes and an empty one, and two sets behind them that are
attached the other way round. -/
theorem attachAll_locates_nested :
    let a : FileInfo := ⟨"/p/a.go", 7, 4, [0, 2]⟩
    let b : FileInfo := ⟨"/p/b.go", 12, 0, [0]⟩
    let c : FileInfo := ⟨"/p/s/c.go", 13, 1, [0, 1]⟩
    let d : FileInfo := ⟨"/p/t/d.go", 15, 0, [0]⟩
    let attached : List (String × FileSet) := [("/p/t", ⟨16, [d]⟩), ("/p/s", ⟨15, [c]⟩)]
    let l := (ofRoot ⟨13, [a, b]⟩).attachAll attached
    (attached.map Prod.fst).Nodup ∧
      FileSet.chain 7 [[("/p/a.go", "x\né".toList), ("/p/b.go", [])],
        [("/p/s/c.go", "\n".toList)], [("/p/t/d.go", [])]] =
        [⟨13, [a, b]⟩, ⟨15, [c]⟩, ⟨16, [d]⟩] ∧
      l.Locates a "/p/a.go" "x\né".toList 3 ∧ l.Locates b "/p/b.go" [] 0 ∧
      l.Locates c "/p/s/c.go" "\n".toList 1 ∧ l.Locates d "/p/t/d.go" [] 0 ∧
      l.identity 0 = .none ∧ l.location 6 = "" ∧ l.file 16 = "" := by
  intro a b c d attached l
  have hn : (attached.map Prod.fst).Nodup := by decide
  have hinner : (attached.map Prod.snd).Perm [⟨15, [c]⟩, ⟨16, [d]⟩] := .swap _ _ _
  have hchain : FileSet.chain 7 [[("/p/a.go", "x\né".toList), ("/p/b.go", [])],
      [("/p/s/c.go", "\n".toList)], [("/p/t/d.go", [])]] =
      [⟨13, [a, b]⟩, ⟨15, [c]⟩, ⟨16, [d]⟩] := by decide +kernel
  obtain ⟨hall, hnone⟩ := attachAll_locates hchain hinner hn
  obtain _ | ⟨⟨⟩ | ⟨ha, ⟨⟩ | ⟨hb, -⟩⟩, _ | ⟨⟨⟩ | ⟨hc, -⟩, _ | ⟨⟨⟩ | ⟨hd, -⟩, -⟩⟩⟩ := hall
  refine ⟨hn, hchain, ha.2 3 (by decide), hb.2 0 (by decide), hc.2 1 (by decide),
    hd.2 0 (by decide), (hnone 0 (.inl rfl)).1, (hnone 6 (.inr ?_)).2.1, (hnone 16 (.inr ?_)).2.2⟩
  all_goals
    change ∀ f ∈ [a, b, d, c], _
    decide

/-! ## Identities of positions -/

/-- The texts that stand for the positions in files. -/
def places (l : Locator) : List String :=
  l.files.flatMap fun f => (List.range (f.size + 1)).map fun n => (f.position (f.base + n)).place

theorem place_mem_places (hf : f ∈ l.files) (hp : f.contains p = true) :
    (f.position p).place ∈ l.places := by
  obtain ⟨hle, hlt⟩ := FileInfo.contains_iff.mp hp
  obtain ⟨n, rfl⟩ := Nat.exists_eq_add_of_le hle
  exact List.mem_flatMap.mpr
    ⟨f, hf, List.mem_map.mpr ⟨n, List.mem_range.mpr (by omega), rfl⟩⟩

theorem identity_of_mem (ho : ∀ fs ∈ l.sets, fs.Ordered) (ha : l.files.Pairwise FileInfo.Apart)
    (hf : f ∈ l.files) (hn : f.name ≠ "") (hp : f.contains p = true) :
    l.identity p = .ofPlace (f.position p).file (f.position p).line (f.position p).column :=
  identity_of_resolve? (resolve?_of_mem ho ha hf hp) hn

/-- Where files have names of their own and no two digests of their places collide, positions have
identities of their own, and those of one file are in the order of its lines. -/
theorem identities_apart
    (hbuilt : ∀ fs ∈ l.sets, ∃ base sources, fs = (FileSet.startingAt base).addAll sources)
    (hsets : l.sets.Pairwise fun a b => ∀ f ∈ a.files, ∀ g ∈ b.files, f.Apart g)
    (hnames : (l.files.map FileInfo.name).Nodup) (hnamed : "" ∉ l.files.map FileInfo.name)
    (hsha : Sha1.CollisionFree l.places) (hwords : l.Worded) :
    (∀ f ∈ l.files, ∀ g ∈ l.files, ∀ p q, f.contains p = true → g.contains q = true →
      (l.identity p = l.identity q ↔ p = q)) ∧
    ∀ f ∈ l.files, ∀ p q, f.contains p = true → f.contains q = true →
      (f.position p).line < (f.position q).line →
        (l.identity p).compare (l.identity q) = .lt := by
  have ho : ∀ fs ∈ l.sets, fs.Ordered := by
    intro fs hfs
    obtain ⟨base, sources, rfl⟩ := hbuilt fs hfs
    exact ((FileSet.ordered_startingAt base).addAll sources).1
  have ha : l.files.Pairwise FileInfo.Apart :=
    List.pairwise_flatMap.mpr ⟨fun fs hfs => (ho fs hfs).apart, hsets⟩
  have identity {f : FileInfo} {p : Nat} (hf : f ∈ l.files) (hp : f.contains p = true) :=
    identity_of_mem ho ha hf (fun he => hnamed (he ▸ List.mem_map_of_mem hf)) hp
  refine ⟨fun f hf g hg p q hp hq => ⟨fun h => ?_, congrArg l.identity⟩,
    fun f hf p q hp hq hlt => ?_⟩
  · -- From the digest back to the place, and from the place to its file and the byte in it.
    rw [identity hf hp, identity hg hq] at h
    obtain ⟨hfile, hline, hcolumn⟩ := Position.place_inj
      (hsha _ (place_mem_places hf hp) _ (place_mem_places hg hq) (Identity.ofPlace_inj h))
    obtain rfl : f = g := List.inj_on_of_nodup_map hnames hf hg hfile
    exact FileInfo.position_inj hp hq hline hcolumn
  · have line {p : Nat} (hp : f.contains p = true) :
        (l.identity p).line? = some (f.position p).line := by
      rw [identity hf hp]
      exact Identity.line?_ofPlace (hwords.line_lt (resolve?_of_mem ho ha hf hp))
    rw [Identity.compare, line hp, line hq]
    dsimp only
    rw [Nat.compare_eq_lt.mpr hlt]
    rfl

/-- The name of one file is the other's with a line and a column. -/
theorem identities_apart_alike :
    let l : Locator := ⟨⟨3, [⟨"a", 1, 1, [0, 1]⟩]⟩, [("b", ⟨4, [⟨"a/1:1", 3, 0, [0]⟩]⟩)]⟩
    Sha1.CollisionFree l.places ∧ l.identity 1 ≠ l.identity 2 ∧ l.identity 1 ≠ l.identity 3 ∧
      (l.identity 1).compare (l.identity 2) = .lt := by
  intro l
  have hdigests : (l.places.map Sha1.digest).Nodup := by decide +kernel
  have hsha : Sha1.CollisionFree l.places :=
    fun _ ha _ hb => List.inj_on_of_nodup_map hdigests ha hb
  have hbuilt : ∀ fs ∈ l.sets, ∃ base sources, fs = (FileSet.startingAt base).addAll sources :=
    List.forall_mem_cons.mpr ⟨⟨1, [("a", ['\n'])], rfl⟩,
      List.forall_mem_singleton.mpr ⟨3, [("a/1:1", [])], rfl⟩⟩
  have hsets : l.sets.Pairwise fun a b => ∀ f ∈ a.files, ∀ g ∈ b.files, f.Apart g := by
    refine List.pairwise_pair.mpr fun f hf g hg => FileInfo.apart_of_lt ?_
    rw [List.mem_singleton.mp hf, List.mem_singleton.mp hg]
    decide
  have hwords : ∀ fs ∈ l.sets, ∀ f ∈ fs.files, f.lineStarts.length < wordBound := by
    decide +kernel
  obtain ⟨hinj, hord⟩ := identities_apart hbuilt hsets (by decide) (by decide) hsha hwords
  have ha : ⟨"a", 1, 1, [0, 1]⟩ ∈ l.files := List.mem_cons_self
  have hb : ⟨"a/1:1", 3, 0, [0]⟩ ∈ l.files := List.mem_cons_of_mem _ (List.mem_singleton_self _)
  exact ⟨hsha, (hinj _ ha _ ha 1 2 (by decide) (by decide)).not.mpr (by decide),
    (hinj _ ha _ hb 1 3 (by decide) (by decide)).not.mpr (by decide),
    hord _ ha 1 2 (by decide) (by decide) (by decide)⟩

end Locator

end StructLayout
