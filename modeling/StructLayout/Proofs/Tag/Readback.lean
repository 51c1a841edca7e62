import StructLayout.Proofs.Tag.Annotations

/-!
Annotations that are written and read again. They come back, but for one: a lone dash. It is read
from a value that shows a dash and nothing else if separators stand around the dash, and is written
without them, which says that there is no annotation.
-/

namespace StructLayout.Annotation

open Text

variable {a : Annotation} {names : List String} {value cs : List Char}

/-- A character that neither is blank nor separates the parts of an annotation. -/
def isSolid (c : Char) : Bool :=
  !(isBlank c || c == ',' || c == ';')

/-- What a text shows: it without blanks and separators. -/
def solid (cs : List Char) : List Char :=
  cs.filter isSolid

/-! ## What is cut off -/

section

variable {p : Char → Bool} (hp : ∀ c, p c = true → isSolid c = false)

include hp

theorem solid_dropWhile (cs : List Char) : solid (cs.dropWhile p) = solid cs := by
  induction cs with
  | nil => rfl
  | cons c cs ih =>
    by_cases hc : p c = true
    · rw [List.dropWhile_cons_of_pos hc, ih, solid, solid,
        List.filter_cons_of_neg (by simp [hp c hc])]
    · rw [List.dropWhile_cons_of_neg hc]

/-- Nothing that shows is cut off at the ends. -/
theorem solid_trimmed (cs : List Char) :
    solid ((cs.dropWhile p).reverse.dropWhile p).reverse = solid cs := by
  have hreverse (cs : List Char) : solid cs.reverse = (solid cs).reverse := List.filter_reverse
  rw [hreverse, solid_dropWhile hp, hreverse, List.reverse_reverse, solid_dropWhile hp]

/-- The pieces between separators show together what the text shows. -/
theorem solid_split (cs : List Char) : (split p cs).flatMap solid = solid cs := by
  induction cs with
  | nil => rfl
  | cons c cs ih =>
    rw [split]
    split
    · rename_i hc
      rw [List.flatMap_cons, ih, solid, solid, solid, List.filter_cons_of_neg (by simp [hp c hc])]
      rfl
    · split
      · rename_i hnil
        exact absurd hnil (split_ne_nil p cs)
      · rename_i piece pieces hs
        rw [hs, List.flatMap_cons] at ih
        rw [List.flatMap_cons]
        unfold solid at ih ⊢
        rw [List.filter_cons, List.filter_cons, ← ih]
        split <;> rfl

end

theorem isSolid_blank (c : Char) (h : isBlank c = true) : isSolid c = false := by
  simp [isSolid, h]

theorem isSolid_comma (c : Char) (h : (c == ',') = true) : isSolid c = false := by
  rw [eq_of_beq h]
  rfl

theorem isSolid_semicolon (c : Char) (h : (c == ';') = true) : isSolid c = false := by
  rw [eq_of_beq h]
  rfl

/-- A list of strategies shows what its text shows. -/
theorem solid_parseList (cs : List Char) :
    (parseList cs).flatMap (fun name => solid name.toList) = solid cs := by
  have hfilter (pieces : List (List Char)) :
      (pieces.filter fun s => !s.isEmpty).flatMap solid = pieces.flatMap solid := by
    induction pieces with
    | nil => rfl
    | cons piece pieces ih =>
      cases piece with
      | nil => exact ih
      | cons c piece => exact congrArg (solid (c :: piece) ++ ·) ih
  have htrim (cs : List Char) : solid (trim cs) = solid cs := solid_trimmed isSolid_blank cs
  rw [parseList, List.flatMap_map]
  simp only [String.toList_ofList]
  rw [hfilter, List.flatMap_map]
  simp only [htrim]
  exact solid_split isSolid_comma cs

/-! ## Names that show one dash -/

/-- Both ends of a name show. -/
theorem Listable.shows (h : Listable cs) {c : Char}
    (hc : cs.head? = some c ∨ cs.getLast? = some c) : isSolid c = true := by
  have hmem : c ∈ cs := hc.elim List.mem_of_head? List.mem_of_getLast?
  have hblank : isBlank c = false := hc.elim (h.starts c) (h.stops c)
  have hcomma : c ≠ ',' := fun he => h.comma (he ▸ hmem)
  have hsemicolon : c ≠ ';' := fun he => h.semicolon (he ▸ hmem)
  simp [isSolid, hblank, hcomma, hsemicolon]

theorem Listable.solid_ne_nil (h : Listable cs) : solid cs ≠ [] := by
  obtain ⟨c, cs, rfl⟩ := List.exists_cons_of_ne_nil h.ne_nil
  rw [solid, List.filter_cons_of_pos (h.shows (.inl rfl))]
  exact List.cons_ne_nil _ _

/-- A name that shows one character has no other. -/
theorem Listable.eq_of_solid (h : Listable cs) {c : Char} (hs : solid cs = [c]) : cs = [c] := by
  obtain ⟨d, cs, rfl⟩ := List.exists_cons_of_ne_nil h.ne_nil
  rw [solid, List.filter_cons_of_pos (h.shows (.inl rfl))] at hs
  obtain ⟨rfl, hrest⟩ := List.cons.inj hs
  cases hl : cs.getLast? with
  | none => rw [List.getLast?_eq_none_iff.mp hl]
  | some e =>
    have he : (d :: cs).getLast? = some e := by
      rw [List.getLast?_cons, hl]
      rfl
    exact absurd (h.shows (.inr he)) (List.filter_eq_nil_iff.mp hrest e (List.mem_of_getLast? hl))

theorem solid_names_eq_dash (hall : ∀ name ∈ names, Listable name.toList) :
    names.flatMap (fun name => solid name.toList) = ['-'] ↔ names = ["-"] := by
  constructor
  · intro h
    cases names with
    | nil => cases h
    | cons name names =>
      obtain ⟨hname, hnames⟩ := List.forall_mem_cons.mp hall
      rw [List.flatMap_cons] at h
      obtain ⟨c, cs, hc⟩ := List.exists_cons_of_ne_nil hname.solid_ne_nil
      rw [hc] at h
      obtain ⟨rfl, hrest⟩ := List.cons.inj h
      obtain ⟨rfl, hnil⟩ := List.append_eq_nil_iff.mp hrest
      have hdash : name = "-" := String.toList_inj.mp (hname.eq_of_solid hc)
      cases names with
      | nil => rw [hdash]
      | cons next names =>
        have hnext := (List.forall_mem_cons.mp hnames).1
        exact absurd (List.append_eq_nil_iff.mp hnil).1 hnext.solid_ne_nil
  · rintro rfl
    rfl

/-! ## Reading again -/

/-- A lone dash is read from the values that show one dash. -/
theorem solid_of_parse (h : parse value = .ok (some a)) :
    solid value = ['-'] ↔ a = ⟨none, ["-"]⟩ := by
  have htrim : solid (trimSemicolons (trim value)) = solid value :=
    (solid_trimmed isSolid_semicolon _).trans (solid_trimmed isSolid_blank _)
  have hlegible := legible_of_parse h
  rw [← htrim, ← solid_split isSolid_semicolon]
  rcases parse_eq_some h with ⟨list, hs, -, rfl⟩ | ⟨name, list, hs, -, -, rfl⟩
  · rw [hs, List.flatMap_singleton, ← solid_parseList, solid_names_eq_dash hlegible.listable]
    simp
  · refine iff_of_false (fun hd => ?_) (by simp)
    -- the group starts with a letter
    rw [hs] at hd
    cases hd

/-- What is read from a value is read again from what it is written as, unless the value shows one
dash and nothing else; then it is written as a dash, which holds no annotation. -/
theorem parse_display (h : parse value = .ok (some a)) :
    parse a.render.toList = .ok (if solid value = ['-'] then none else some a) := by
  split
  · rename_i hdash
    rw [(solid_of_parse h).mp hdash]
    rfl
  · rename_i hdash
    exact (legible_of_parse h).parse_render fun he => hdash ((solid_of_parse h).mpr he)

theorem parse_display_grouped :
    let value := " ;group: hot ; memory_pack ,, fields - by hand ,;".toList
    let a : Annotation := ⟨some " hot ", ["memory_pack", "fields - by hand"]⟩
    parse value = .ok (some a) ∧ a.render = "group: hot ;memory_pack,fields - by hand" ∧
      parse a.render.toList = .ok (some a) := by
  intro value a
  have h : parse value = .ok (some a) := by decide
  exact ⟨h, by decide, parse_display h⟩

/-- A dash in front of a semicolon is read as a strategy, and is no annotation once it is written. -/
theorem display_dash :
    parse "-;".toList = .ok (some ⟨none, ["-"]⟩) ∧
      (⟨none, ["-"]⟩ : Annotation).render = "-" ∧ parse "-".toList = .ok none := by
  decide

end StructLayout.Annotation
