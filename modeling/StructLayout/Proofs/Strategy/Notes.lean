import Mathlib
import StructLayout.Proofs.Layout.Extents
import StructLayout.Proofs.Strategy.Replays

/-!
Generated notes in docs and comments. A note takes the place of the first one of its kind and of all
others, and touches no line that is not of its kind. So notes of several kinds do not disturb one
another, a pipe that writes notes changes nothing a second time, and all other lines are kept.
-/

namespace StructLayout

theorem Text.occursIn_append {pattern : List Char} (before behind : List Char) :
    Text.occursIn pattern (before ++ (pattern ++ behind)) = true := by
  induction before with
  | nil =>
    cases hp : pattern ++ behind with
    | nil => simp_all [Text.occursIn]
    | cons c cs =>
      have hprefix : pattern.isPrefixOf (c :: cs) = true :=
        List.isPrefixOf_iff_prefix.mpr ⟨behind, hp⟩
      rw [List.nil_append, Text.occursIn, hprefix, Bool.true_or]
  | cons c before ih => rw [List.cons_append, Text.occursIn, ih, Bool.or_true]

namespace Note

variable {start other note line : String} {lines : List String}

/-! ## Kinds of notes -/

/-- What the notes of the three kinds begin with. -/
def starts : List String :=
  [fieldStart, structStart, curatedStart]

/-- A generated line of any kind. -/
def isNote (line : String) : Bool :=
  starts.any fun start => isGenerated start line

/-- The lines that are not generated. -/
def others (lines : List String) : List String :=
  lines.filter fun line => !isNote line

theorem isGenerated_append (start middle : String) :
    isGenerated start (start ++ middle ++ stamp) = true := by
  have hprefix : start.toList <+: (start ++ middle ++ stamp).toList := by
    rw [String.append_assoc, String.toList_append]
    exact List.prefix_append _ _
  have hstamped : isStamped (start ++ middle ++ stamp) = true := by
    rw [isStamped, String.toList_append]
    simpa using Text.occursIn_append (start ++ middle).toList []
  rw [isGenerated, List.isPrefixOf_iff_prefix.mpr hprefix, hstamped, Bool.and_self]

theorem isGenerated_ofField (f : Field) : isGenerated fieldStart (ofField f) = true := by
  have htext : ofField f = fieldStart ++ (" " ++ toString f.size ++ " bytes; field align: " ++
      toString f.align ++ " bytes; - ") ++ stamp := by
    simp only [ofField, String.append_assoc]
    rfl
  rw [htext]
  exact isGenerated_append _ _

theorem isGenerated_ofStruct (st : Struct) : isGenerated structStart (ofStruct st) = true := by
  have htext : ofStruct st = structStart ++ (" " ++ toString st.fieldsSize ++
      " bytes; struct align: " ++ toString st.align ++ " bytes; struct aligned size: " ++
      toString st.size ++ " bytes; - ") ++ stamp := by
    simp only [ofStruct, String.append_assoc]
    rfl
  rw [htext]
  exact isGenerated_append _ _

theorem isGenerated_curated : isGenerated curatedStart curated = true :=
  isGenerated_append curatedStart " - "

/-- A line is of one kind at most. -/
theorem eq_of_isGenerated (hs : start ∈ starts) (ho : other ∈ starts)
    (h : isGenerated start line = true) (h' : isGenerated other line = true) : start = other := by
  have hp := List.isPrefixOf_iff_prefix.mp (Bool.and_eq_true_iff.mp h).1
  have hp' := List.isPrefixOf_iff_prefix.mp (Bool.and_eq_true_iff.mp h').1
  have hall : ∀ a ∈ starts, ∀ b ∈ starts, a.toList <+: b.toList → a = b := by decide
  -- of two starts of one line, the longer one begins with the shorter one
  rcases List.prefix_or_prefix_of_prefix hp hp' with hpre | hpre
  · exact hall start hs other ho hpre
  · exact (hall other ho start hs hpre).symm

theorem isNote_of_isGenerated (hs : start ∈ starts) (h : isGenerated start line = true) :
    isNote line = true :=
  List.any_eq_true.mpr ⟨start, hs, h⟩

/-! ## One note -/

/-- Lines that are not of the kind stay, the note itself apart. -/
theorem filter_renew {p : String → Bool} (hn : p note = false)
    (hp : ∀ line, p line = true → isGenerated start line = false) (lines : List String) :
    (renew start note lines).filter p = lines.filter p := by
  have hkeep : (fun line => p line && !isGenerated start line) = p := by
    funext line
    cases hl : p line with
    | false => rfl
    | true => rw [hp line hl]; rfl
  have hsplit : lines.filter p = (lines.takeWhile fun line => !isGenerated start line).filter p ++
      (lines.dropWhile fun line => !isGenerated start line).filter p := by
    rw [← List.filter_append, List.takeWhile_append_dropWhile]
  rw [renew, List.filter_append, List.filter_cons_of_neg (by simp [hn]), List.filter_filter, hkeep,
    hsplit]

/-- A note is there, and is the only line of its kind. -/
def Alone (start note : String) (lines : List String) : Prop :=
  lines.filter (isGenerated start) = [note]

theorem alone_renew (hn : isGenerated start note = true) (lines : List String) :
    Alone start note (renew start note lines) := by
  have hbefore : (lines.takeWhile fun line => !isGenerated start line).filter (isGenerated start) =
      [] := by
    refine List.filter_eq_nil_iff.mpr fun line hl => ?_
    have := List.all_eq_true.mp List.all_takeWhile line hl
    simpa using this
  rw [Alone, renew, List.filter_append, hbefore, List.filter_cons_of_pos hn, List.filter_filter]
  simp

namespace Alone

theorem renew_eq (h : Alone start note lines) : renew start note lines = lines := by
  obtain ⟨before, behind, rfl, hbefore, hn, hbehind⟩ := List.filter_eq_cons_iff.mp h
  have hkept : ∀ line ∈ before, (!isGenerated start line) = true := by simpa using hbefore
  have hrest : behind.filter (fun line => !isGenerated start line) = behind :=
    List.filter_eq_self.mpr (by simpa using List.filter_eq_nil_iff.mp hbehind)
  have htake : (note :: behind).takeWhile (fun line => !isGenerated start line) = [] :=
    List.takeWhile_cons_of_neg (by simp [hn])
  have hdrop : (note :: behind).dropWhile (fun line => !isGenerated start line) = note :: behind :=
    List.dropWhile_cons_of_neg (by simp [hn])
  rw [renew, List.takeWhile_append_of_pos hkept, List.dropWhile_append_of_pos hkept, htake, hdrop,
    List.filter_cons_of_neg (by simp [hn]), hrest, List.append_nil]

theorem renew {wanted : String} (h : Alone other wanted lines) (hs : start ∈ starts)
    (ho : other ∈ starts) (hne : other ≠ start) (hn : isGenerated start note = true) :
    Alone other wanted (renew start note lines) := by
  refine (filter_renew ?_ (fun line hl => ?_) lines).trans h
  · exact Bool.eq_false_iff.mpr fun hg => hne (eq_of_isGenerated ho hs hg hn)
  · exact Bool.eq_false_iff.mpr fun hg => hne (eq_of_isGenerated ho hs hl hg)

end Alone

theorem others_renew (hs : start ∈ starts) (hn : isGenerated start note = true)
    (lines : List String) : others (renew start note lines) = others lines := by
  refine filter_renew ?_ (fun line hl => ?_) lines
  · rw [isNote_of_isGenerated hs hn]
    rfl
  · refine Bool.eq_false_iff.mpr fun h => ?_
    rw [isNote_of_isGenerated hs h] at hl
    cases hl

end Note

/-! ## The notes of fields and structures -/

def Field.notes (place : NotePlace) (f : Field) : List String :=
  match place with
  | .doc => f.doc
  | .comment => f.comment

def Struct.notes (place : NotePlace) (st : Struct) : List String :=
  match place with
  | .doc => st.doc
  | .comment => st.comment

section

variable (place other : NotePlace) (change : List String → List String)

theorem Field.notes_onNotes (f : Field) : (f.onNotes place change).notes other =
    if other = place then change (f.notes other) else f.notes other := by
  cases place <;> cases other <;> rfl

theorem Struct.notes_onNotes (st : Struct) : (st.onNotes place change).notes other =
    if other = place then change (st.notes other) else st.notes other := by
  cases place <;> cases other <;> rfl

end

theorem Field.onNotes_eq_self {place : NotePlace} {change : List String → List String} {f : Field}
    (h : change (f.notes place) = f.notes place) : f.onNotes place change = f := by
  cases place with
  | doc => exact congrArg (fun doc => { f with doc }) h
  | comment => exact congrArg (fun comment => { f with comment }) h

theorem Struct.onNotes_eq_self {place : NotePlace} {change : List String → List String}
    {st : Struct} (h : change (st.notes place) = st.notes place) : st.onNotes place change = st := by
  cases place with
  | doc => exact congrArg (fun doc => { st with doc }) h
  | comment => exact congrArg (fun comment => { st with comment }) h

open Note

/-- Nothing but generated lines has changed in a field. -/
structure Field.Renoted (f g : Field) : Prop where
  rest : g = { f with doc := g.doc, comment := g.comment }
  others : ∀ place, Note.others (g.notes place) = Note.others (f.notes place)

/-- Nothing but generated lines has changed in a structure and in its fields. -/
structure Struct.Renoted (st out : Struct) : Prop where
  name : out.name = st.name
  others : ∀ place, Note.others (out.notes place) = Note.others (st.notes place)
  fields : List.Forall₂ Field.Renoted st.fields out.fields

namespace Field

theorem Renoted.refl (f : Field) : f.Renoted f :=
  ⟨rfl, fun _ => rfl⟩

theorem Renoted.trans {f g h : Field} (hg : f.Renoted g) (hh : g.Renoted h) : f.Renoted h where
  rest := by rw [hh.rest, hg.rest]
  others place := (hh.others place).trans (hg.others place)

variable {start note : String} {f : Field}

theorem renoted_onNotes (hs : start ∈ starts) (hn : isGenerated start note = true)
    (place : NotePlace) : f.Renoted (f.onNotes place (renew start note)) where
  rest := by cases place <;> rfl
  others other := by
    rw [notes_onNotes]
    split
    · exact others_renew hs hn _
    · rfl

theorem alone_onNotes {place seen : NotePlace} (hn : isGenerated start note = true)
    (h : seen = place ∨ Alone start note (f.notes seen)) :
    Alone start note ((f.onNotes place (renew start note)).notes seen) := by
  rw [notes_onNotes]
  split
  · exact alone_renew hn _
  · exact h.resolve_left ‹_›

end Field

namespace Struct

variable {start other note : String} {st out : Struct}

theorem Renoted.refl (st : Struct) : st.Renoted st :=
  ⟨rfl, fun _ => rfl, List.forall₂_same.mpr fun f _ => .refl f⟩

theorem Renoted.trans {a b c : Struct} (hb : a.Renoted b) (hc : b.Renoted c) : a.Renoted c where
  name := hc.name.trans hb.name
  others place := (hc.others place).trans (hb.others place)
  fields := forall₂_trans (fun hg hh => hg.trans hh) hb.fields hc.fields

/-- Notes have no size, so that what they say stays true. -/
theorem Renoted.ofStruct_eq (h : st.Renoted out) : ofStruct out = ofStruct st := by
  have hextents : out.fields.map Field.extent = st.fields.map Field.extent := by
    have hfields := h.fields
    generalize st.fields = fs, out.fields = gs at hfields
    induction hfields with
    | nil => rfl
    | cons hf _ ih => rw [List.map_cons, List.map_cons, ih, hf.rest]; rfl
  have hsizes (st : Struct) : st.fieldsSize = total ((st.fields.map Field.extent).map Extent.size) := by
    rw [List.map_map]
    rfl
  rw [ofStruct, ofStruct, hsizes, hsizes st, hextents, align_congr hextents, size_congr hextents]

theorem renoted_onNotes (hs : start ∈ starts) (hn : isGenerated start note = true)
    (place : NotePlace) (st : Struct) : st.Renoted (st.onNotes place (renew start note)) where
  name := by cases place <;> rfl
  others other := by
    rw [notes_onNotes]
    split
    · exact others_renew hs hn _
    · rfl
  fields := by cases place <;> exact List.forall₂_same.mpr fun f _ => .refl f

variable {place seen : NotePlace} {wanted : String}

theorem alone_onNotes (hn : isGenerated start note = true)
    (h : seen = place ∨ Alone start note (st.notes seen)) :
    Alone start note ((st.onNotes place (renew start note)).notes seen) := by
  rw [notes_onNotes]
  split
  · exact alone_renew hn _
  · exact h.resolve_left ‹_›

theorem alone_onNotes_of_ne (hs : start ∈ starts) (ho : other ∈ starts) (hne : other ≠ start)
    (hn : isGenerated start note = true) (h : Alone other wanted (st.notes seen)) :
    Alone other wanted ((st.onNotes place (renew start note)).notes seen) := by
  rw [notes_onNotes]
  split
  · exact h.renew hs ho hne hn
  · exact h

end Struct

/-! ## Strategies that write notes -/

namespace Transform

/-- The transforms that write notes. -/
def writesNotes : Transform → Bool
  | .annotateFields _ | .annotate _ | .markCurated _ => true
  | _ => false

/-- The note that a transform writes is there, and is the only one of its kind in its place. -/
def Noted : Transform → Struct → Prop
  | .annotateFields place, st => ∀ f ∈ st.fields, Alone fieldStart (ofField f) (f.notes place)
  | .annotate place, st => Alone structStart (ofStruct st) (st.notes place)
  | .markCurated place, st => Alone curatedStart curated (st.notes place)
  | _, _ => False

variable {t u : Transform} {ts : List Transform} {st : Struct}

theorem fieldStart_mem : fieldStart ∈ starts := by decide

theorem structStart_mem : structStart ∈ starts := by decide

theorem curatedStart_mem : curatedStart ∈ starts := by decide

theorem renoted_apply (h : t.writesNotes = true) (st : Struct) : st.Renoted (t.apply st) := by
  cases t with
  | annotateFields place =>
    refine ⟨rfl, fun _ => by cases place <;> rfl, ?_⟩
    refine List.forall₂_map_right_iff.mpr (List.forall₂_same.mpr fun f _ => ?_)
    exact Field.renoted_onNotes fieldStart_mem (isGenerated_ofField f) place
  | annotate place => exact Struct.renoted_onNotes structStart_mem (isGenerated_ofStruct st) place st
  | markCurated place => exact Struct.renoted_onNotes curatedStart_mem isGenerated_curated place st
  | _ => cases h

theorem Noted.apply_eq (h : t.Noted st) : t.apply st = st := by
  cases t with
  | annotateFields place =>
    have hfields : st.fields.map (fun f => f.onNotes place (renew fieldStart (ofField f))) =
        st.fields := by
      refine (List.map_congr_left fun f hf => ?_).trans (List.map_id st.fields)
      exact Field.onNotes_eq_self (h f hf).renew_eq
    exact congrArg (fun fields => { st with fields }) hfields
  | annotate place => exact Struct.onNotes_eq_self (Alone.renew_eq h)
  | markCurated place => exact Struct.onNotes_eq_self (Alone.renew_eq h)
  | _ => cases h

/-- A note is there once it has been written, and stays whatever other notes are written. -/
theorem noted_apply (hu : u.writesNotes = true) (h : t = u ∨ t.Noted st) : t.Noted (u.apply st) := by
  -- only a transform of the same constructor writes notes of the kind of `t`
  cases t with
  | annotateFields place =>
    cases u with
    | annotateFields other =>
      intro g hg
      obtain ⟨f, hf, rfl⟩ := List.mem_map.mp hg
      have hnote : ofField (f.onNotes other (renew fieldStart (ofField f))) = ofField f := by
        cases other <;> rfl
      rw [hnote]
      exact Field.alone_onNotes (isGenerated_ofField f) (h.imp annotateFields.inj (· f hf))
    | annotate other => cases other <;> exact h.resolve_left (by rintro ⟨⟩)
    | markCurated other => cases other <;> exact h.resolve_left (by rintro ⟨⟩)
    | _ => cases hu
  | annotate place =>
    rw [Noted, (renoted_apply hu st).ofStruct_eq]
    cases u with
    | annotateFields other => cases place <;> exact h.resolve_left (by rintro ⟨⟩)
    | annotate other =>
      exact Struct.alone_onNotes (isGenerated_ofStruct st) (h.imp_left annotate.inj)
    | markCurated other =>
      exact Struct.alone_onNotes_of_ne curatedStart_mem structStart_mem (by decide)
        isGenerated_curated (h.resolve_left (by rintro ⟨⟩))
    | _ => cases hu
  | markCurated place =>
    cases u with
    | annotateFields other => cases place <;> exact h.resolve_left (by rintro ⟨⟩)
    | annotate other =>
      exact Struct.alone_onNotes_of_ne structStart_mem curatedStart_mem (by decide)
        (isGenerated_ofStruct st) (h.resolve_left (by rintro ⟨⟩))
    | markCurated other => exact Struct.alone_onNotes isGenerated_curated (h.imp_left markCurated.inj)
    | _ => cases hu
  | _ =>
    rcases h with rfl | h
    · cases hu
    · cases h

theorem applyAll_noted (hts : ∀ u ∈ ts, u.writesNotes = true) (h : t ∈ ts ∨ t.Noted st) :
    t.Noted (applyAll ts st) := by
  induction ts generalizing st with
  | nil => exact h.resolve_left List.not_mem_nil
  | cons u ts ih =>
    obtain ⟨hu, hts⟩ := List.forall_mem_cons.mp hts
    refine ih hts ?_
    rcases h with h | h
    · exact (List.mem_cons.mp h).symm.imp_right fun he => noted_apply hu (.inl he)
    · exact .inr (noted_apply hu (.inr h))

theorem applyAll_eq_self (h : ∀ t ∈ ts, t.Noted st) : applyAll ts st = st := by
  induction ts with
  | nil => rfl
  | cons t ts ih =>
    obtain ⟨ht, hts⟩ := List.forall_mem_cons.mp h
    rw [applyAll_cons, ht.apply_eq, ih hts]

theorem renoted_applyAll (hts : ∀ u ∈ ts, u.writesNotes = true) (st : Struct) :
    st.Renoted (applyAll ts st) := by
  induction ts generalizing st with
  | nil => exact .refl st
  | cons u ts ih =>
    obtain ⟨hu, hts⟩ := List.forall_mem_cons.mp hts
    exact (renoted_apply hu st).trans (ih hts _)

end Transform

/-! ## Pipes -/

/-- The strategies that write notes. -/
def noteStrategies : List (String × Transform) :=
  [("fields_annotate_doc", .annotateFields .doc), ("fields_annotate_comment", .annotateFields .comment),
    ("struct_annotate_doc", .annotate .doc), ("struct_annotate_comment", .annotate .comment),
    ("struct_stamp_doc", .markCurated .doc), ("struct_stamp_comment", .markCurated .comment)]

theorem Registry.transform_note (r : Registry) (recorded : List String) :
    ∀ e ∈ noteStrategies, r.transform recorded e.1 = .ok e.2 := by
  simp only [noteStrategies, List.forall_mem_cons]
  exact ⟨rfl, rfl, rfl, rfl, rfl, rfl, List.forall_mem_nil _⟩

/-- The transforms of such names, each of which is there. -/
theorem Registry.exists_notes (r : Registry) (recorded : List String) {names : List String}
    (h : ∀ name ∈ names, name ∈ noteStrategies.map Prod.fst) :
    ∃ ts, names.mapM (r.transform recorded) = .ok ts ∧ (∀ t ∈ ts, t.writesNotes = true) ∧
      ∀ e ∈ noteStrategies, e.1 ∈ names → e.2 ∈ ts := by
  have hexists : ∃ ts, names.mapM (r.transform recorded) = .ok ts := by
    refine exists_mapM.mpr fun name hname => ?_
    obtain ⟨e, he, rfl⟩ := List.mem_map.mp (h name hname)
    exact ⟨e.2, r.transform_note recorded e he⟩
  obtain ⟨ts, hts⟩ := hexists
  have hall := forall₂_of_mapM hts
  refine ⟨ts, hts, fun t ht => ?_, fun e he hname => ?_⟩
  · have hwrites : ∀ e ∈ noteStrategies, e.2.writesNotes = true := by decide
    obtain ⟨name, hname, hok⟩ := mem_of_forall₂ hall ht
    obtain ⟨e, he, rfl⟩ := List.mem_map.mp (h name hname)
    cases hok.symm.trans (r.transform_note recorded e he)
    exact hwrites e he
  · have hback : List.Forall₂ (fun t name => r.transform recorded name = .ok t) ts names :=
      List.Forall₂.flip hall
    obtain ⟨t, ht, hok⟩ := mem_of_forall₂ hback hname
    cases hok.symm.trans (r.transform_note recorded e he)
    exact ht

/-- However many notes a pipe writes, and in whatever order, it writes none a second time. Each one is
the only line of its kind in its place, and all lines that are not generated are kept in order. -/
theorem Pipe.apply_notes (r : Registry) (st : Struct) {names : List String}
    (h : ∀ name ∈ names, name ∈ noteStrategies.map Prod.fst) :
    ∃ p out, r.pipe names = .ok p ∧ p.apply none st = .ok out ∧ p.apply none out = .ok out ∧
      st.Renoted out ∧ ∀ e ∈ noteStrategies, e.1 ∈ names → e.2.Noted out := by
  obtain ⟨ts, hts, hwrites, hmem⟩ := r.exists_notes (Registry.recorded names) h
  have hreplay : replayName ∉ names := fun hm => absurd (h _ hm) (by decide)
  have hpipe : r.pipe names = .ok (ts.map .transform) := by
    rw [Registry.pipe_eq hreplay, Registry.transforms, hts]
    rfl
  have hnoted : ∀ t ∈ ts, t.Noted (Transform.applyAll ts st) := fun t ht =>
    Transform.applyAll_noted hwrites (.inl ht)
  refine ⟨_, _, hpipe, Pipe.apply_transforms ts st, ?_, Transform.renoted_applyAll hwrites st, ?_⟩
  · rw [Pipe.apply_transforms, Transform.applyAll_eq_self hnoted]
  · exact fun e he hname => hnoted e.2 (hmem e he hname)

/-- Old notes of several kinds, a line with the stamp and one with the start of a note alone. -/
def Struct.scribbled : Struct where
  name := "S"
  doc := ["// struct size: 3 - layout-curator", "// S", "// struct has been auto curated - layout-curator",
    "// by layout-curator", "// struct size: 5 - layout-curator", "// struct size: ?"]
  fields := [{ name := "a", size := 8, align := 8, comment := ["// field size: ?"] }]

theorem Pipe.apply_notes_scribbled :
    let names := ["struct_stamp_doc", "struct_annotate_doc", "fields_annotate_comment",
      "struct_stamp_doc"]
    (∀ name ∈ names, name ∈ noteStrategies.map Prod.fst) ∧
      ∃ p out, Registry.amd64.pipe names = .ok p ∧ p.apply none .scribbled = .ok out ∧
        out.doc = ["// struct size: 8 bytes; struct align: 8 bytes; " ++
          "struct aligned size: 8 bytes; - layout-curator", "// S",
          "// struct has been auto curated - layout-curator", "// by layout-curator",
          "// struct size: ?"] ∧
        p.apply none out = .ok out ∧ Struct.scribbled.Renoted out ∧
        ∀ e ∈ noteStrategies, e.1 ∈ names → e.2.Noted out := by
  intro names
  have h : ∀ name ∈ names, name ∈ noteStrategies.map Prod.fst := by decide
  obtain ⟨p, out, hp, hout, hagain, hkept, hnoted⟩ := Pipe.apply_notes .amd64 .scribbled h
  refine ⟨h, p, out, hp, hout, ?_, hagain, hkept, hnoted⟩
  have hpipe : Registry.amd64.pipe names = .ok ([.markCurated .doc, .annotate .doc,
      .annotateFields .comment, .markCurated .doc].map .transform) := rfl
  cases hpipe.symm.trans hp
  cases (Pipe.apply_transforms _ _).symm.trans hout
  cbv

end StructLayout
