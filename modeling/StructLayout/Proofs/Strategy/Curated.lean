import Mathlib
import StructLayout.Proofs.Strategy.Packing
import StructLayout.Proofs.Strategy.Replays

/-!
Curating what has been curated. Filtering takes out the paddings that a pipe has added, whatever they
are for, and leaves the fields in the order that the pipe has put them in. So a pipe that filters
paddings, sorts and then adds paddings does not change its own result.
-/

namespace StructLayout

/-! ## Orders -/

namespace SortKey

theorem le_trans (key : SortKey) (a b c : Field) (hab : key.le a b) (hbc : key.le b c) :
    key.le a c := by
  cases key with
  | nameLexicographical | typeLexicographical =>
    simp only [le, decide_eq_true_eq] at *
    exact String.le_trans hab hbc
  | nameLength | typeLength =>
    simp only [le, decide_eq_true_eq] at *
    exact Nat.le_trans hab hbc
  | embedded | exported =>
    simp only [le, Bool.or_eq_true, Bool.not_eq_true'] at *
    grind

theorem le_total (key : SortKey) (a b : Field) : key.le a b || key.le b a := by
  cases key with
  | nameLexicographical | typeLexicographical =>
    simp only [le, Bool.or_eq_true, decide_eq_true_eq]
    exact String.le_total _ _
  | nameLength | typeLength =>
    simp only [le, Bool.or_eq_true, decide_eq_true_eq]
    exact Nat.le_total _ _
  | embedded | exported =>
    simp only [le, Bool.or_eq_true, Bool.not_eq_true']
    grind

end SortKey

theorem Struct.sortBy_sortBy (key : SortKey) (ascending : Bool) (st : Struct) :
    (st.sortBy key ascending).sortBy key ascending = st.sortBy key ascending := by
  refine congrArg (fun fields => { st with fields }) (List.mergeSort_of_pairwise ?_)
  refine List.pairwise_mergeSort ?_ ?_ st.fields
  · cases ascending with
    | true => exact key.le_trans
    | false => exact fun a b c hab hbc => key.le_trans c b a hbc hab
  · cases ascending with
    | true => exact key.le_total
    | false => exact fun a b => key.le_total b a

namespace Transform

/-- The transforms that put the fields in an order, or leave them in theirs. -/
def orders : Transform → Bool
  | .pack | .ignore | .sortBy .. => true
  | _ => false

variable {t : Transform}

theorem perm_apply (h : t.orders = true) (st : Struct) : (t.apply st).fields.Perm st.fields := by
  cases t with
  | pack => exact st.pack_perm
  | sortBy key ascending => exact List.mergeSort_perm _ _
  | ignore => exact .refl _
  | _ => cases h

theorem apply_apply (h : t.orders = true) (st : Struct) : t.apply (t.apply st) = t.apply st := by
  cases t with
  | pack => exact st.pack_pack
  | sortBy key ascending => exact st.sortBy_sortBy key ascending
  | ignore => rfl
  | _ => cases h

end Transform

/-! ## Structures without paddings -/

/-- What a filter for paddings makes of a structure. -/
def Struct.unpadded (st : Struct) : Struct :=
  { st with fields := realFields st.fields }

theorem Struct.unpadded_eq_self {st : Struct} (h : ∀ f ∈ st.fields, f.isPadding = false) :
    st.unpadded = st := by
  have hall : realFields st.fields = st.fields :=
    List.filter_eq_self.mpr fun f hf => by rw [h f hf]; rfl
  rw [unpadded, hall]

namespace Transform

variable {t : Transform} {ts : List Transform}

theorem unpadded_orders (h : t.orders = true) (st : Struct) :
    (t.apply st.unpadded).unpadded = t.apply st.unpadded := by
  refine Struct.unpadded_eq_self fun f hf => ?_
  have hreal : f ∈ realFields st.fields := (perm_apply h st.unpadded).mem_iff.mp hf
  simpa using (List.mem_filter.mp hreal).2

theorem unpadded_apply (h : t.addsPaddings = true) (st : Struct) :
    (t.apply st).unpadded = st.unpadded := by
  have hrest : t.apply st = { st with fields := (t.apply st).fields } := by
    cases t with
    | padGaps system =>
      simp only [apply, Struct.padGaps]
      split <;> rfl
    | falseSharing line => rfl
    | cacheRounding line => rfl
    | separate size top =>
      simp only [apply, Struct.separate]
      split <;> rfl
    | _ => cases h
  rw [Struct.unpadded, realFields_apply h, hrest, Struct.unpadded]

theorem unpadded_applyAll (h : ∀ t ∈ ts, t.addsPaddings = true) (st : Struct) :
    (applyAll ts st).unpadded = st.unpadded := by
  induction ts generalizing st with
  | nil => rfl
  | cons t ts ih =>
    obtain ⟨ht, hts⟩ := List.forall_mem_cons.mp h
    exact (ih hts _).trans (unpadded_apply ht st)

/-- Without the paddings that have been added, a result is the sorted structure that they have been
added to. -/
theorem applyAll_curated (ht : t.orders = true) (hts : ∀ u ∈ ts, u.addsPaddings = true)
    (st : Struct) : applyAll (.filter .pads :: t :: ts) (applyAll (.filter .pads :: t :: ts) st) =
      applyAll (.filter .pads :: t :: ts) st := by
  -- the second filter takes out what the first run has added, and nothing else
  have hback : (applyAll ts (t.apply st.unpadded)).unpadded = t.apply st.unpadded :=
    (unpadded_applyAll hts _).trans (unpadded_orders ht st)
  show applyAll ts (t.apply (applyAll ts (t.apply st.unpadded)).unpadded) =
    applyAll ts (t.apply st.unpadded)
  rw [hback, apply_apply ht]

end Transform

/-! ## Pipes -/

/-- The names of the strategies that put the fields in an order, and of the one that leaves them. -/
def orderNames : List String :=
  ["memory_pack", "ignore", "name_lexicographical_ascending", "name_lexicographical_descending",
    "type_lexicographical_ascending", "type_lexicographical_descending", "name_length_ascending",
    "name_length_descending", "type_length_ascending", "type_length_descending",
    "embedded_ascending", "embedded_descending", "exported_ascending", "exported_descending"]

/-- What the names of the strategies begin with that add paddings. -/
def paddingStarts : List String :=
  ["explicit_paddings_", "false_sharing_", "cache_rounding_", "separate_padding_"]

def isPaddingName (name : String) : Bool :=
  paddingStarts.any fun start => start.toList.isPrefixOf name.toList

theorem isPaddingName_replayName : isPaddingName replayName = false := by
  cbv

namespace Registry

variable {r : Registry} {name : String}

theorem exists_orders (r : Registry) (recorded : List String) (hn : name ∈ orderNames) :
    ∃ t, r.transform recorded name = .ok t ∧ t.orders = true := by
  have hall : orderNames.all fun name =>
      (r.transform recorded name).toOption.any Transform.orders := rfl
  obtain ⟨t, ht, ho⟩ := (Option.any_eq_true _ _).mp (List.all_eq_true.mp hall name hn)
  refine ⟨t, ?_, ho⟩
  cases h : r.transform recorded name with
  | error e => rw [h] at ht; cases ht
  | ok u => rw [h] at ht; cases ht; rfl

theorem addsPaddings_of_transform {recorded : List String} {t : Transform}
    (h : r.transform recorded name = .ok t) (hn : isPaddingName name = true) :
    t.addsPaddings = true := by
  have hforms : ∀ form ∈ sizedForms, ∀ n, (form.2 n).addsPaddings = true := by
    simp [sizedForms, Transform.addsPaddings]
  have hfixed : (r.fixed recorded).all fun e => !isPaddingName e.1 || e.2.addsPaddings := by
    cbv
  rcases transform_eq_ok h with hs | hm
  · obtain ⟨n, digits, -, form, hform, rfl, -⟩ := sized?_eq_some hs
    exact hforms form hform n
  · have := List.all_eq_true.mp hfixed _ hm
    simpa [hn] using this

/-- Names for paddings that each stand for a strategy stand for transforms that add paddings. -/
theorem exists_addsPaddings {names : List String} (recorded : List String)
    (h : ∀ name ∈ names, isPaddingName name = true ∧ ∃ p, r.pipe [name] = .ok p) :
    ∃ ts, names.mapM (r.transform recorded) = .ok ts ∧ ∀ t ∈ ts, t.addsPaddings = true := by
  have hexists : ∃ ts, names.mapM (r.transform recorded) = .ok ts := by
    refine exists_mapM.mpr fun name hname => ?_
    obtain ⟨hn, hpipe⟩ := h name hname
    refine (exists_pipe_singleton ?_ recorded).mp hpipe
    rintro rfl
    cases hn.symm.trans isPaddingName_replayName
  obtain ⟨ts, hts⟩ := hexists
  refine ⟨ts, hts, fun t ht => ?_⟩
  obtain ⟨name, hname, hok⟩ := mem_of_forall₂ (forall₂_of_mapM hts) ht
  exact addsPaddings_of_transform hok (h name hname).1

end Registry

/-- Filtering paddings, sorting the fields and adding paddings, of any kinds and as many as one likes,
leads to a structure that the same pipe leaves as it is. -/
theorem Pipe.apply_curated (r : Registry) (st : Struct) {order : String} {paddings : List String}
    (horder : order ∈ orderNames)
    (hpaddings : ∀ name ∈ paddings, isPaddingName name = true ∧ ∃ p, r.pipe [name] = .ok p) :
    ∃ p out, r.pipe ("filter_pads" :: order :: paddings) = .ok p ∧ p.apply none st = .ok out ∧
      p.apply none out = .ok out := by
  let names := "filter_pads" :: order :: paddings
  obtain ⟨t, ht, horders⟩ := r.exists_orders (Registry.recorded names) horder
  obtain ⟨ts, hts, hadds⟩ := Registry.exists_addsPaddings (Registry.recorded names) hpaddings
  have hfilter : r.transform (Registry.recorded names) "filter_pads" = .ok (.filter .pads) := rfl
  have htransforms : r.transforms names = .ok (.filter .pads :: t :: ts) := by
    rw [Registry.transforms, List.mapM_cons, List.mapM_cons, hfilter, ht, hts]
    rfl
  have hreplay : replayName ∉ names := by
    intro hm
    rcases List.mem_cons.mp hm with h | hm
    · exact absurd h (by decide)
    rcases List.mem_cons.mp hm with rfl | hm
    · exact absurd horder (by decide)
    · cases (hpaddings _ hm).1.symm.trans isPaddingName_replayName
  refine ⟨(.filter .pads :: t :: ts).map .transform, _, ?_, Pipe.apply_transforms _ st, ?_⟩
  · rw [Registry.pipe_eq hreplay, htransforms]
    rfl
  · rw [Pipe.apply_transforms, Transform.applyAll_curated horders hadds]

/-- Fields of one length of their names, an old padding, and a field without bytes. -/
def Struct.jumbled : Struct where
  name := "S"
  doc := ["// S"]
  fields := [{ name := "a", size := 1, align := 1 }, .pad 4, { name := "bc", size := 8, align := 8 },
    { name := "d", size := 4, align := 4 }, { name := "ef", align := 8 }]

theorem Pipe.apply_curated_jumbled :
    let paddings := ["explicit_paddings_type_natural", "false_sharing_bytes_5",
      "separate_padding_bytes_3_top", "cache_rounding_bytes_64"]
    "name_length_descending" ∈ orderNames ∧
      (∀ name ∈ paddings, isPaddingName name = true ∧ ∃ p, Registry.amd64.pipe [name] = .ok p) ∧
      ∃ p out, Registry.amd64.pipe ("filter_pads" :: "name_length_descending" :: paddings) = .ok p ∧
        p.apply none .jumbled = .ok out ∧
        out.fields.map Field.size = [3, 8, 2, 0, 1, 4, 3, 2, 4, 1, 36] ∧
        p.apply none out = .ok out := by
  intro paddings
  have horder : "name_length_descending" ∈ orderNames := by decide
  have hpaddings : ∀ name ∈ paddings,
      isPaddingName name = true ∧ ∃ p, Registry.amd64.pipe [name] = .ok p := by
    refine List.forall_mem_cons.mpr ⟨⟨by cbv, _, rfl⟩, List.forall_mem_cons.mpr
      ⟨⟨by cbv, _, rfl⟩, List.forall_mem_cons.mpr ⟨⟨by cbv, _, rfl⟩, List.forall_mem_singleton.mpr
        ⟨by cbv, _, rfl⟩⟩⟩⟩
  obtain ⟨p, out, hp, hout, hagain⟩ := Pipe.apply_curated .amd64 .jumbled horder hpaddings
  refine ⟨horder, hpaddings, p, out, hp, hout, ?_, hagain⟩
  have hsorted : (Struct.jumbled.unpadded.sortBy .nameLength false).fields =
      [{ name := "bc", size := 8, align := 8 }, { name := "ef", align := 8 },
        { name := "a", size := 1, align := 1 }, { name := "d", size := 4, align := 4 }] := by
    cbv
  have hts : Registry.amd64.pipe ("filter_pads" :: "name_length_descending" :: paddings) = .ok
      ([.filter .pads, .sortBy .nameLength false, .padGaps none, .falseSharing 5, .separate 3 true,
        .cacheRounding 64].map .transform) := rfl
  cases hts.symm.trans hp
  cases (Pipe.apply_transforms _ _).symm.trans hout
  show ((Transform.applyAll [.padGaps none, .falseSharing 5, .separate 3 true, .cacheRounding 64]
    { Struct.jumbled with
      fields := (Struct.jumbled.unpadded.sortBy .nameLength false).fields }).fields.map
        Field.size) = _
  rw [hsorted]
  decide

end StructLayout
