import Mathlib.Data.List.Nodup
import StructLayout.Locator
import StructLayout.Proofs.Numeral
import StructLayout.Proofs.Source.Positions

/-!
Identities tell the declarations of a package apart, as far as digests do, and those of places are
in one order.
-/

namespace StructLayout

/-- No two of the texts have one digest. -/
def Sha1.CollisionFree (texts : List String) : Prop :=
  ∀ a ∈ texts, ∀ b ∈ texts, digest a = digest b → a = b

/-- The text that stands for a place in an identity. -/
def Position.place (p : Position) : String :=
  s!"{p.file}/{p.line}:{p.column}"

/-- The texts whose digests tell declarations apart. -/
def declaredPlaces (files : List SourceFile) : List String :=
  files.flatMap fun f => f.specs.map fun t => (f.text.info.position t.pos).place

/-- A place can be read back from its text, from the end. -/
theorem Position.place_inj {p q : Position} (h : p.place = q.place) :
    p.file = q.file ∧ p.line = q.line ∧ p.column = q.column := by
  have hl (p : Position) : p.place.toList =
      (p.file.toList ++ '/' :: (toString p.line).toList) ++ ':' :: (toString p.column).toList := by
    rw [place]
    simp only [String.toList_append, List.append_assoc]
    rfl
  have ht := congrArg String.toList h
  rw [hl, hl] at ht
  obtain ⟨hhead, hcolumn⟩ := append_cons_inj_right (not_mem_toString (by decide) _)
    (not_mem_toString (by decide) _) ht
  obtain ⟨hfile, hline⟩ := append_cons_inj_right (not_mem_toString (by decide) _)
    (not_mem_toString (by decide) _) hhead
  exact ⟨String.toList_injective hfile, toString_inj hline, toString_inj hcolumn⟩

/-- Identities of places are the same only if the digests in them are. -/
theorem Identity.ofPlace_inj {p q : Position}
    (h : ofPlace p.file p.line p.column = ofPlace q.file q.line q.column) :
    Sha1.digest p.place = Sha1.digest q.place := by
  have hl (p : Position) : (ofPlace p.file p.line p.column).text.toList =
      (toString p.line).toList ++ '-' :: (Sha1.digest p.place).toList := by
    simp [ofPlace, Position.place]
  have ht := congrArg (fun id => id.text.toList) h
  rw [hl, hl] at ht
  exact String.toList_injective (append_cons_inj_left (not_mem_toString (by decide) _)
    (not_mem_toString (by decide) _) ht).2

/-! ## The order of identities -/

namespace Identity

theorem eq_of_compare {a b : Identity} (h : a.compare b = .eq) : a = b := by
  have htext : Ord.compare a.text b.text = .eq := by
    unfold compare at h
    split at h
    · exact (Ordering.then_eq_eq.mp (Ordering.then_eq_eq.mp h).2).2
    · exact h
  exact congrArg Identity.mk (Std.LawfulEqOrd.eq_of_compare htext)

theorem compare_self (a : Identity) : a.compare a = .eq := by
  unfold compare
  split
  · rename_i m n hm hn
    cases hm.symm.trans hn
    simp
  · exact Std.ReflOrd.compare_self

/-- An identity is empty, or a line can be read from its front. -/
def Lined (id : Identity) : Prop :=
  id.text = "" ∨ id.line?.isSome

theorem line?_of_text {id : Identity} {line : Nat} (hl : line < Text.wordBound)
    (h : id.text.toList.takeWhile (· != '-') = (toString line).toList) : id.line? = some line := by
  rw [line?, h, toList_toString]
  exact Text.readNat_toDigits hl

theorem takeWhile_toString (line : Nat) (cs : List Char) :
    ((toString line).toList ++ cs).takeWhile (· != '-') =
      (toString line).toList ++ cs.takeWhile (· != '-') := by
  refine List.takeWhile_append_of_pos fun c hc => ?_
  rw [bne_iff_ne]
  rintro rfl
  exact not_mem_toString (by decide) line hc

theorem lined_ofLine {line : Nat} (h : line < Text.wordBound) : (ofLine line).Lined := by
  refine .inr (Option.isSome_iff_exists.mpr ⟨line, line?_of_text h ?_⟩)
  simpa [ofLine] using takeWhile_toString line []

theorem line?_ofPlace {file : String} {line column : Nat} (h : line < Text.wordBound) :
    (ofPlace file line column).line? = some line := by
  refine line?_of_text h ?_
  have htext : (ofPlace file line column).text.toList = (toString line).toList ++
      '-' :: (Sha1.digest s!"{file}/{line}:{column}").toList := by
    simp [ofPlace]
  rw [htext, takeWhile_toString, List.takeWhile_cons_of_neg (by simp), List.append_nil]

theorem lined_ofPlace {file : String} {line column : Nat} (h : line < Text.wordBound) :
    (ofPlace file line column).Lined :=
  .inr (Option.isSome_iff_exists.mpr ⟨line, line?_ofPlace h⟩)

/-- Identities by line, by what follows and as texts, those without a line first. -/
def order : Identity → Identity → Ordering :=
  compareLex (compareOn line?) (compareLex (compareOn suffix) (compareOn text))

instance : Std.TransCmp order :=
  inferInstanceAs (Std.TransCmp (compareLex _ _))

theorem eq_of_order {a b : Identity} (h : order a b = .eq) : a = b := by
  have htext := (compareLex_eq_eq.mp (compareLex_eq_eq.mp h).2).2
  exact congrArg Identity.mk (Std.LawfulEqOrd.eq_of_compare htext)

theorem compare_empty {s : String} (h : s ≠ "") : Ord.compare "" s = .lt := by
  have hlt : "" < s := by
    show "".toList < s.toList
    cases hs : s.toList with
    | nil => exact absurd (String.toList_injective hs) h
    | cons c cs => exact List.nil_lt_cons c cs
  exact if_pos hlt

theorem Lined.text_eq {id : Identity} (h : id.Lined) (hn : id.line? = Option.none) :
    id.text = "" := by
  refine h.resolve_right fun hs => ?_
  rw [hn] at hs
  cases hs

theorem text_ne {id : Identity} {line : Nat} (h : id.line? = some line) : id.text ≠ "" := by
  intro ht
  rw [line?, ht] at h
  cases h

/-- Identities that have a line or are empty are compared in one order. -/
theorem compare_eq_order {a b : Identity} (ha : a.Lined) (hb : b.Lined) :
    a.compare b = order a b := by
  unfold compare order compareLex compareOn
  cases hla : a.line? with
  | none =>
    have hta := ha.text_eq hla
    cases hlb : b.line? with
    | none =>
      obtain rfl : a = b := congrArg Identity.mk (hta.trans (hb.text_eq hlb).symm)
      simp
    | some n =>
      rw [hta]
      exact compare_empty (text_ne hlb)
  | some m =>
    cases hlb : b.line? with
    | none =>
      rw [hb.text_eq hlb]
      exact Std.OrientedCmp.gt_of_lt (compare_empty (text_ne hla))
    | some n => rfl

end Identity

namespace Locator

variable {l : Locator} {f : FileInfo} {p q : Nat}

theorem resolve?_eq (h : l.root.Ordered) (hf : f ∈ l.root.files) (hp : f.contains p = true) :
    l.resolve? p = some (f.position p) := by
  rw [resolve?, FileSet.position?, h.file?_eq hf hp]
  rfl

theorem identity_of_resolve? {place : Position} (h : l.resolve? p = some place)
    (hn : place.file ≠ "") : l.identity p = .ofPlace place.file place.line place.column := by
  have hne : ¬ place.file.isEmpty = true := by
    rw [String.isEmpty_iff]
    exact hn
  rw [identity, h]
  exact if_neg hne

theorem identity_eq (h : l.root.Ordered) (hf : f ∈ l.root.files) (hn : f.name ≠ "")
    (hp : f.contains p = true) :
    l.identity p = .ofPlace (f.position p).file (f.position p).line (f.position p).column :=
  identity_of_resolve? (l.resolve?_eq h hf hp) hn

/-- Declarations of files with names of their own have identities of their own, if no two digests
of their places collide. -/
theorem identity_inj {base : Nat} {sources : List (String × List Char)} {fs : FileSet}
    {files : List SourceFile} (hr : SourceFile.readAll (.startingAt base) sources = .ok (fs, files))
    (hnames : (sources.map Prod.fst).Nodup) (hnamed : "" ∉ sources.map Prod.fst)
    (hroot : l.root = fs) (hsha : Sha1.CollisionFree (declaredPlaces files))
    (hp : p ∈ files.flatMap fun f => f.specs.map TypeSpec.pos)
    (hq : q ∈ files.flatMap fun f => f.specs.map TypeSpec.pos)
    (h : l.identity p = l.identity q) : p = q := by
  obtain ⟨ho, -, hall, hfiles⟩ := SourceFile.readAll_eq_ok (FileSet.ordered_startingAt base) hr
  have hall : fs.files.map FileInfo.name = sources.map Prod.fst := hall
  obtain ⟨f, hf, hp⟩ := List.mem_flatMap.mp hp
  obtain ⟨t, ht, rfl⟩ := List.mem_map.mp hp
  obtain ⟨g, hg, hq⟩ := List.mem_flatMap.mp hq
  obtain ⟨u, hu, rfl⟩ := List.mem_map.mp hq
  obtain ⟨hfi, hfn, hft⟩ := hfiles f hf
  obtain ⟨hgi, hgn, hgu⟩ := hfiles g hg
  have hplace {f : SourceFile} {t : TypeSpec} (hf : f ∈ files) (ht : t ∈ f.specs) :
      (f.text.info.position t.pos).place ∈ declaredPlaces files :=
    List.mem_flatMap.mpr ⟨f, hf, List.mem_map_of_mem ht⟩
  subst hroot
  rw [l.identity_eq ho hfi (fun he => hnamed (he ▸ hfn)) (hft t ht),
    l.identity_eq ho hgi (fun he => hnamed (he ▸ hgn)) (hgu u hu)] at h
  obtain ⟨hfile, hline, hcolumn⟩ := Position.place_inj
    (hsha _ (hplace hf ht) _ (hplace hg hu) (Identity.ofPlace_inj h))
  have hsame : f.text.info = g.text.info :=
    List.inj_on_of_nodup_map (hall ▸ hnames) hfi hgi hfile
  rw [hsame] at hline hcolumn hft
  exact FileInfo.position_inj (hft t ht) (hgu u hu) hline hcolumn

/-- The lines of a file can be counted in words. -/
def Worded (l : Locator) : Prop :=
  ∀ fs ∈ l.root :: l.children.map Prod.snd, ∀ f ∈ fs.files, f.lineStarts.length < Text.wordBound

theorem Worded.line_lt {pos : Nat} {p : Position} (h : l.Worded) (hp : l.resolve? pos = some p) :
    p.line < Text.wordBound := by
  obtain ⟨fs, hfs, hp⟩ : ∃ fs ∈ l.root :: l.children.map Prod.snd, fs.position? pos = some p := by
    rcases Option.or_eq_some_iff.mp hp with hp | ⟨-, hp⟩
    · exact ⟨l.root, List.mem_cons_self, hp⟩
    · obtain ⟨c, hc, hp⟩ := List.exists_of_findSome?_eq_some hp
      exact ⟨c.2, List.mem_cons_of_mem _ (List.mem_map_of_mem hc), hp⟩
  obtain ⟨f, hf, rfl⟩ := Option.map_eq_some_iff.mp hp
  exact Nat.lt_of_le_of_lt (List.takeWhile_sublist _).length_le
    (h fs hfs f (FileSet.mem_of_file? hf))

theorem Worded.lined (h : l.Worded) (pos : Nat) : (l.identity pos).Lined := by
  unfold identity
  split
  · exact .inl rfl
  · rename_i p hp
    split
    · exact Identity.lined_ofLine (h.line_lt hp)
    · exact Identity.lined_ofPlace (h.line_lt hp)

end Locator

end StructLayout
