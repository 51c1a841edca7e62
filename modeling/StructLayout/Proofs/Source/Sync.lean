import Mathlib.Data.List.Sort
import StructLayout.Proofs.Sequence
import StructLayout.Source.Sync

/-!
Writing a structure back into its declaration. When names are distinct, the kept declarations stand
in the order of the structure, although no step compares a declaration with its field.
-/

namespace StructLayout

/-- Names without those of paddings. -/
def realNames (names : List String) : List String :=
  names.filter (· != padName)

/-- Distinct names stand in the order of the places where each is first found. -/
theorem realNames_pairwise {names : List String} (hn : (realNames names).Nodup) :
    (realNames names).Pairwise fun a b => names.idxOf a < names.idxOf b := by
  induction names with
  | nil => exact .nil
  | cons name names ih =>
      have step {a b : String} (ha : name ≠ a) (hb : name ≠ b)
          (hlt : names.idxOf a < names.idxOf b) :
          (name :: names).idxOf a < (name :: names).idxOf b := by
        rw [List.idxOf_cons_ne _ ha, List.idxOf_cons_ne _ hb]
        exact Nat.succ_lt_succ hlt
      unfold realNames at hn ⊢
      by_cases hp : name = padName
      · have hne : ∀ a ∈ realNames names, name ≠ a := by
          rintro a ha rfl
          exact absurd hp (bne_iff_ne.mp (List.mem_filter.mp ha).2)
        rw [List.filter_cons_of_neg (by simp [hp])] at hn ⊢
        exact (ih hn).imp_of_mem fun ha hb hlt => step (hne _ ha) (hne _ hb) hlt
      · rw [List.filter_cons_of_pos (by simp [hp])] at hn ⊢
        obtain ⟨hnotin, hn⟩ := List.nodup_cons.mp hn
        have hne : ∀ a ∈ realNames names, name ≠ a := by
          rintro a ha rfl
          exact hnotin ha
        refine List.pairwise_cons.mpr ⟨fun a ha => ?_, ?_⟩
        · rw [List.idxOf_cons_self, List.idxOf_cons_ne _ (hne a ha)]
          exact Nat.succ_pos _
        · exact (ih hn).imp_of_mem fun ha hb hlt => step (hne _ ha) (hne _ hb) hlt

def Struct.names (st : Struct) : List String :=
  st.fields.map Field.name

namespace FieldDecl

variable {structName : String} {st : Struct} {flat : List FieldDecl}

/-- Flat declarations have one name each. -/
theorem flatten_name {ds : List FieldDecl} (h : flatten structName ds = .ok flat) :
    ∀ d ∈ flat, d.name? = some d.nameOrEmpty := by
  induction ds generalizing flat with
  | nil => cases h; simp
  | cons d ds ih =>
      unfold flatten at h
      cases hr : flatten structName ds with
      | error e => rw [hr] at h; split at h <;> (try split at h) <;> cases h
      | ok rest =>
          rw [hr] at h
          split at h
          · split at h
            · cases h
            · rename_i hname
              cases h
              refine List.forall_mem_cons.mpr ⟨?_, ih hr⟩
              cases hd : d.name? with
              | none => exact absurd (by rw [hd]; rfl) hname
              | some name => simp [nameOrEmpty, hd]
          · cases h
            intro e he
            rcases List.mem_append.mp he with he | he
            · obtain ⟨i, hi, rfl⟩ := List.mem_mapIdx.mp he
              rfl
            · exact ih hr e he

/-! ## The order of the kept declarations -/

theorem isKept_iff {d : FieldDecl} :
    isKept st d = true ↔ d.nameOrEmpty ∈ realNames st.names := by
  simp [isKept, realNames, Struct.names, Struct.field?, List.find?_isSome, and_comm]

theorem rank_eq_idxOf {d : FieldDecl} (h : isKept st d = true) :
    d.rank st = st.names.idxOf d.nameOrEmpty := by
  have hm := (List.mem_filter.mp (isKept_iff.mp h)).1
  have hlt := List.idxOf_lt_length_of_mem hm
  have hi : st.fields.findIdx? (fun f => f.name == d.nameOrEmpty) =
      some (st.names.idxOf d.nameOrEmpty) := by
    have hfound : st.names.findIdx? (· == d.nameOrEmpty) = some (st.names.idxOf d.nameOrEmpty) :=
      List.findIdx?_eq_some_of_exists ⟨_, hm, beq_self_eq_true _⟩
    rwa [Struct.names, List.findIdx?_map] at hfound
  rw [rank, hi, Option.getD_some]

theorem arrange_perm (st : Struct) (ds : List FieldDecl) :
    (arrange st ds).Perm (ds.filter (isKept st)) :=
  List.mergeSort_perm _ _

theorem arrange_pairwise (st : Struct) (ds : List FieldDecl) :
    ((arrange st ds).map nameOrEmpty).Pairwise fun a b => st.names.idxOf a ≤ st.names.idxOf b := by
  have hs : (arrange st ds).Pairwise fun a b => a.rank st ≤ b.rank st := by
    refine (List.pairwise_mergeSort ?_ ?_ _).imp fun h => of_decide_eq_true h
    · intro a b c hab hbc
      exact decide_eq_true ((of_decide_eq_true hab).trans (of_decide_eq_true hbc))
    · intro a b
      simpa using Nat.le_total (a.rank st) (b.rank st)
  rw [List.pairwise_map]
  refine hs.imp_of_mem fun {a b} ha hb hle => ?_
  have hk : ∀ d ∈ arrange st ds, isKept st d = true := fun d hd =>
    (List.mem_filter.mp ((arrange_perm st ds).mem_iff.mp hd)).2
  rwa [rank_eq_idxOf (hk a ha), rank_eq_idxOf (hk b hb)] at hle

theorem arrange_nodup (hd : (realNames (flat.map nameOrEmpty)).Nodup) :
    ((arrange st flat).map nameOrEmpty).Nodup := by
  rw [((arrange_perm st flat).map nameOrEmpty).nodup_iff]
  refine hd.sublist ?_
  rw [realNames, List.filter_map]
  refine List.Sublist.map _ (List.monotone_filter_right _ fun d hd => ?_)
  exact (List.mem_filter.mp (isKept_iff.mp hd)).2

theorem arrange_subset : ∀ name ∈ (arrange st flat).map nameOrEmpty,
    name ∈ realNames st.names ∧ name ∈ flat.map nameOrEmpty := by
  intro name hn
  obtain ⟨d, hd, rfl⟩ := List.mem_map.mp hn
  obtain ⟨hd, hk⟩ := List.mem_filter.mp ((arrange_perm st flat).mem_iff.mp hd)
  exact ⟨isKept_iff.mp hk, List.mem_map_of_mem hd⟩

/-- If all fields are declared, the kept declarations have the names of the fields one by one. -/
theorem arrange_names (hd : (realNames (flat.map nameOrEmpty)).Nodup)
    (hs : (realNames st.names).Nodup)
    (hall : ∀ name ∈ realNames st.names, name ∈ flat.map nameOrEmpty) :
    (arrange st flat).map nameOrEmpty = realNames st.names := by
  have hperm : ((arrange st flat).map nameOrEmpty).Perm (realNames st.names) := by
    refine (List.perm_ext_iff_of_nodup (arrange_nodup hd) hs).mpr fun name => ?_
    refine ⟨fun h => (arrange_subset name h).1, fun h => ?_⟩
    obtain ⟨d, hd, rfl⟩ := List.mem_map.mp (hall name h)
    refine List.mem_map_of_mem ((arrange_perm st flat).mem_iff.mpr ?_)
    exact List.mem_filter.mpr ⟨hd, isKept_iff.mpr h⟩
  refine hperm.eq_of_pairwise ?_ (arrange_pairwise st flat)
    ((realNames_pairwise hs).imp fun h => Nat.le_of_lt h)
  intro a b ha _ hab hba
  have hm : a ∈ st.names := (List.mem_filter.mp (arrange_subset a ha).1).1
  exact (List.idxOf_inj hm).mp (Nat.le_antisymm hab hba)

/-! ## Declarations and fields in step -/

/-- The literal of a tag; an empty tag has none. -/
def tagLiteral (tag : String) : Option String :=
  if tag.isEmpty then none else some (String.ofList (Literal.quoteTag tag.toList))

/-- The declaration that a field gets. A padding has a new one, any other field the old one of its
name, of which the type stays as it is spelled. -/
def Synced (flat : List FieldDecl) (f : Field) (d : FieldDecl) : Prop :=
  if f.isPadding then
    d = { pad f.size with tag := tagLiteral f.tag, doc := f.doc, comment := f.comment }
  else
    ∃ old ∈ flat, old.name? = some f.name ∧
      d = { old with
        tag := tagLiteral f.tag
        doc := (old.doc.filter fun line => !isStamped line) ++ f.doc
        comment := (old.comment.filter fun line => !isStamped line) ++ f.comment }

/-- A padding with the type of one, or a field that some declaration declares. -/
def Fits (flat : List FieldDecl) (f : Field) : Prop :=
  if f.isPadding then isPadType f.typeName = true else ∃ d ∈ flat, d.name? = some f.name

/-- When the names agree one by one, every field is given the declaration of its name. -/
theorem place_ok {fs : List Field} {ds : List FieldDecl}
    (hp : ∀ f ∈ fs, f.isPadding = true → isPadType f.typeName = true)
    (hn : ds.map nameOrEmpty = realNames (fs.map Field.name))
    (hsub : ∀ d ∈ ds, d ∈ flat ∧ d.name? = some d.nameOrEmpty) :
    ∃ out, place structName fs ds = .ok out ∧
      List.Forall₂ (Synced flat) fs (out.zipWith take fs) ∧ out.length = fs.length := by
  induction fs generalizing ds with
  | nil => exact ⟨[], rfl, .nil, rfl⟩
  | cons f fs ih =>
      obtain ⟨hpf, hps⟩ := List.forall_mem_cons.mp hp
      by_cases hf : f.isPadding = true
      · have hname : realNames ((f :: fs).map Field.name) = realNames (fs.map Field.name) :=
          List.filter_cons_of_neg (by simpa [Field.isPadding] using hf)
        obtain ⟨out, ho, hall, hlen⟩ := ih hps (hn.trans hname) hsub
        refine ⟨pad f.size :: out, ?_, .cons ?_ hall, congrArg Nat.succ hlen⟩
        · unfold place
          rw [if_pos hf, if_pos (hpf hf), ho]
          rfl
        · simp [Synced, hf, take, syncNotes, tagLiteral, pad]
      · have hname : realNames ((f :: fs).map Field.name) =
            f.name :: realNames (fs.map Field.name) :=
          List.filter_cons_of_pos (by simpa [Field.isPadding] using hf)
        rw [hname] at hn
        cases ds with
        | nil => cases hn
        | cons d ds =>
            obtain ⟨hd, hn⟩ := List.cons.inj hn
            obtain ⟨⟨hmem, hdn⟩, hsub⟩ := List.forall_mem_cons.mp hsub
            obtain ⟨out, ho, hall, hlen⟩ := ih hps hn hsub
            refine ⟨d :: out, ?_, .cons ?_ hall, congrArg Nat.succ hlen⟩
            · unfold place
              rw [if_neg hf]
              simp only [ho]
              rfl
            · rw [Synced, if_neg hf]
              exact ⟨d, hmem, hd ▸ hdn, rfl⟩

/-- Fields are all placed only if every padding has the type of one. -/
theorem isPadType_of_place {fs : List Field} {ds out : List FieldDecl}
    (h : place structName fs ds = .ok out) (hlen : out.length = fs.length) :
    ∀ f ∈ fs, f.isPadding = true → isPadType f.typeName = true := by
  induction fs generalizing ds out with
  | nil => simp
  | cons f fs ih =>
      unfold place at h
      split at h
      · split at h
        · rename_i hpad
          cases hr : place structName fs ds with
          | error e => rw [hr] at h; cases h
          | ok rest =>
              rw [hr] at h
              cases h
              exact List.forall_mem_cons.mpr ⟨fun _ => hpad, ih hr (Nat.succ.inj hlen)⟩
        · cases h
      · rename_i hreal
        cases ds with
        | nil => cases h; cases hlen
        | cons d ds =>
            cases hr : place structName fs ds with
            | error e => simp only [hr] at h; cases h
            | ok rest =>
                simp only [hr] at h
                cases h
                exact List.forall_mem_cons.mpr ⟨fun hf => absurd hf hreal, ih hr (Nat.succ.inj hlen)⟩

theorem length_realNames (st : Struct) :
    (realNames st.names).length + st.paddings.length = st.fields.length := by
  have := (List.filter_append_perm Field.isPadding st.fields).length_eq
  simp only [realNames, Struct.names, Struct.paddings, List.filter_map, List.length_map,
    List.length_append] at this ⊢
  rw [Nat.add_comm, ← this]
  rfl

variable {ds out : List FieldDecl}

/-- What a sync is made of: all fields are placed, and no kept declaration is left over. -/
theorem sync_eq_ok (hf : flatten structName ds = .ok flat) :
    sync structName st ds = .ok out ↔
      ∃ placed, place structName st.fields (arrange st flat) = .ok placed ∧
        placed.length = st.fields.length ∧
        (arrange st flat).length + st.paddings.length = st.fields.length ∧
        out = placed.zipWith take st.fields := by
  unfold sync
  rw [hf]
  constructor
  · intro h
    obtain ⟨_, hflat, h⟩ := bind_eq_ok.mp h
    cases hflat
    obtain ⟨placed, hp, h⟩ := bind_eq_ok.mp h
    dsimp only at h
    split at h
    · cases h
    · rename_i hlen
      cases h
      exact ⟨placed, hp, by omega, by omega, rfl⟩
  · rintro ⟨placed, hp, hlen, hleft, rfl⟩
    refine bind_eq_ok.mpr ⟨flat, rfl, bind_eq_ok.mpr ⟨placed, hp, ?_⟩⟩
    dsimp only
    rw [if_neg (by omega)]
    rfl

theorem fits_iff (hf : flatten structName ds = .ok flat) :
    (∀ f ∈ st.fields, Fits flat f) ↔
      (∀ f ∈ st.fields, f.isPadding = true → isPadType f.typeName = true) ∧
        ∀ name ∈ realNames st.names, name ∈ flat.map nameOrEmpty := by
  have hname := flatten_name hf
  constructor
  · intro h
    refine ⟨fun f hm hp => by simpa [Fits, hp] using h f hm, fun name hn => ?_⟩
    obtain ⟨hn, hne⟩ := List.mem_filter.mp hn
    obtain ⟨f, hm, rfl⟩ := List.mem_map.mp hn
    have hfit := h f hm
    rw [Fits, if_neg (by simpa [Field.isPadding] using hne)] at hfit
    obtain ⟨d, hd, hdn⟩ := hfit
    exact List.mem_map.mpr ⟨d, hd, by rw [nameOrEmpty, hdn]; rfl⟩
  · rintro ⟨hp, hall⟩ f hm
    unfold Fits
    split
    · rename_i hpad
      exact hp f hm hpad
    · rename_i hreal
      have hn : f.name ∈ realNames st.names :=
        List.mem_filter.mpr ⟨List.mem_map_of_mem hm, by simpa [Field.isPadding] using hreal⟩
      obtain ⟨d, hd, hdn⟩ := List.mem_map.mp (hall _ hn)
      exact ⟨d, hd, hdn ▸ hname d hd⟩

/-- Declarations with distinct names can be synced exactly with the structures that fit, and then
every field gets the declaration it is owed. -/
theorem sync_iff (hf : flatten structName ds = .ok flat)
    (hd : (realNames (flat.map nameOrEmpty)).Nodup) (hs : (realNames st.names).Nodup) :
    ((∃ out, sync structName st ds = .ok out) ↔ ∀ f ∈ st.fields, Fits flat f) ∧
      ∀ out, sync structName st ds = .ok out → List.Forall₂ (Synced flat) st.fields out := by
  have hsub : ∀ d ∈ arrange st flat, d ∈ flat ∧ d.name? = some d.nameOrEmpty := by
    intro d hm
    have hm := (List.mem_filter.mp ((arrange_perm st flat).mem_iff.mp hm)).1
    exact ⟨hm, flatten_name hf d hm⟩
  have hfits : (∃ out, sync structName st ds = .ok out) → ∀ f ∈ st.fields, Fits flat f := by
    rintro ⟨out, h⟩
    obtain ⟨placed, hp, hlen, hleft, -⟩ := (sync_eq_ok hf).mp h
    refine (fits_iff hf).mpr ⟨isPadType_of_place hp hlen, fun name hn => ?_⟩
    have hcount := length_realNames st
    -- as many distinct kept names as real names, so none is missing
    have hperm : ((arrange st flat).map nameOrEmpty).Perm (realNames st.names) :=
      (List.subperm_of_subset (arrange_nodup hd) fun a ha => (arrange_subset a ha).1).perm_of_length_le
        (by rw [List.length_map]; omega)
    exact (arrange_subset name (hperm.mem_iff.mpr hn)).2
  have hplace : (∀ f ∈ st.fields, Fits flat f) → ∃ placed,
      place structName st.fields (arrange st flat) = .ok placed ∧
        List.Forall₂ (Synced flat) st.fields (placed.zipWith take st.fields) ∧
        placed.length = st.fields.length ∧
        (arrange st flat).length + st.paddings.length = st.fields.length := by
    intro h
    obtain ⟨hpad, hall⟩ := (fits_iff hf).mp h
    have hnames := arrange_names hd hs hall
    obtain ⟨placed, hp, hsynced, hlen⟩ := place_ok hpad hnames hsub
    refine ⟨placed, hp, hsynced, hlen, ?_⟩
    rw [← length_realNames st, ← hnames, List.length_map]
  refine ⟨⟨hfits, fun h => ?_⟩, fun out h => ?_⟩
  · obtain ⟨placed, hp, -, hlen, hleft⟩ := hplace h
    exact ⟨_, (sync_eq_ok hf).mpr ⟨placed, hp, hlen, hleft, rfl⟩⟩
  · obtain ⟨placed, hp, hsynced, -, -⟩ := hplace (hfits ⟨out, h⟩)
    obtain ⟨other, ho, -, -, rfl⟩ := (sync_eq_ok hf).mp h
    cases hp.symm.trans ho
    exact hsynced

end FieldDecl

namespace TypeSpec

variable {t : TypeSpec} {body : StructExpr} {st : Struct} {flat : List FieldDecl}

/-- A declaration after a sync: its own but for the fields, and doc and comment without the lines
that were generated before. -/
def synced (t : TypeSpec) (body : StructExpr) (st : Struct) (fields : List FieldDecl) : TypeSpec :=
  { t with
    ty := .struct { body with fields }
    doc := (t.doc.filter fun line => !isStamped line) ++ st.doc
    comment := (t.comment.filter fun line => !isStamped line) ++ st.comment
    modified := true }

theorem sync_eq_ok (hb : t.ty.struct? = some body) {out : TypeSpec} :
    t.sync st = .ok out ↔
      ∃ fields, FieldDecl.sync t.name st body.fields = .ok fields ∧
        out = t.synced body st fields := by
  have hty : t.ty = .struct body := by
    cases h : t.ty <;> simp_all [TypeExpr.struct?]
  unfold sync
  rw [hb]
  dsimp only
  rw [bind_eq_ok]
  refine exists_congr fun fields => and_congr_right fun _ => ?_
  rw [withFields, hty]
  exact ⟨fun h => by cases h; rfl, fun h => by rw [h]; rfl⟩

/-- A struct declaration with distinct field names is synced exactly with the structures whose
fields it declares, paddings apart, which only need the type of one. Then every field has the
declaration that it is owed, and nothing else changes but doc and comment. -/
theorem sync_ok_iff_fits (hb : t.ty.struct? = some body)
    (hf : FieldDecl.flatten t.name body.fields = .ok flat)
    (hd : (realNames (flat.map FieldDecl.nameOrEmpty)).Nodup) (hs : (realNames st.names).Nodup) :
    ((∃ out, t.sync st = .ok out) ↔ ∀ f ∈ st.fields, FieldDecl.Fits flat f) ∧
      ∀ out, t.sync st = .ok out →
        ∃ fields, List.Forall₂ (FieldDecl.Synced flat) st.fields fields ∧
          out = t.synced body st fields := by
  obtain ⟨hiff, hall⟩ := FieldDecl.sync_iff hf hd hs
  constructor
  · rw [← hiff]
    constructor
    · rintro ⟨out, h⟩
      obtain ⟨fields, h, -⟩ := (sync_eq_ok hb).mp h
      exact ⟨fields, h⟩
    · rintro ⟨fields, h⟩
      exact ⟨_, (sync_eq_ok hb).mpr ⟨fields, h, rfl⟩⟩
  · intro out h
    obtain ⟨fields, hfields, rfl⟩ := (sync_eq_ok hb).mp h
    exact ⟨fields, hall fields hfields, rfl⟩

end TypeSpec

/-! ## Two names in one declaration, an embedded field and a padding -/

def FieldDecl.int8 (names doc : List String) : FieldDecl :=
  { names, pos := 0, ty := .ref none "int8", tyText := "int8", doc }

def FieldDecl.reader : FieldDecl :=
  { names := [], pos := 0, ty := .pointer (.ref (some "io") "Reader"), tyText := "*io.Reader" }

def StructExpr.mixed : StructExpr where
  span := ⟨7, 60⟩
  fields := [.int8 ["x", "y"] ["// pair"], .pad 3, .reader, .int8 ["gone"] []]
  trailing := []
  closeIndent := ""
  fieldIndent := none

def TypeSpec.mixed : TypeSpec where
  name := "T"
  pos := 5
  isAlias := false
  isGeneric := false
  ty := .struct .mixed
  tySpan := ⟨7, 60⟩
  doc := []
  docSpan := ⟨0, 0⟩
  comment := ["// old - layout-curator"]
  commentSpan := ⟨60, 84⟩
  indent := ""

/-- Another order without one of the fields, and with a padding of another size. -/
def Struct.reordered : Struct where
  name := "T"
  fields := [{ name := "Reader", typeName := "*io.Reader", size := 8, align := 8, embedded := true },
    { name := "y", typeName := "int8", size := 1, align := 1, tag := "json:\"y\"" },
    { name := "_", typeName := "[6]byte", size := 6, align := 1 },
    { name := "x", typeName := "int8", size := 1, align := 1, comment := ["// last"] }]

theorem TypeSpec.sync_mixed_reordered :
    (∃ out, TypeSpec.mixed.sync .reordered = .ok out) ∧
      ∀ out, TypeSpec.mixed.sync .reordered = .ok out →
        ∃ fields, List.Forall₂ (FieldDecl.Synced [.int8 ["x"] ["// pair"], .int8 ["y"] [], .pad 3,
            .reader, .int8 ["gone"] []]) Struct.reordered.fields fields ∧
          out = TypeSpec.mixed.synced .mixed .reordered fields := by
  have hb : TypeSpec.mixed.ty.struct? = some .mixed := rfl
  have hf : FieldDecl.flatten TypeSpec.mixed.name StructExpr.mixed.fields =
      .ok [.int8 ["x"] ["// pair"], .int8 ["y"] [], .pad 3, .reader, .int8 ["gone"] []] := rfl
  have hs : (realNames Struct.reordered.names).Nodup := by decide
  obtain ⟨hiff, hall⟩ := TypeSpec.sync_ok_iff_fits hb hf (by decide) hs
  refine ⟨hiff.mpr ?_, hall⟩
  intro f hf
  simp only [Struct.reordered, List.mem_cons, List.not_mem_nil, or_false] at hf
  obtain rfl | rfl | rfl | rfl := hf
  · exact ⟨.reader, by simp, rfl⟩
  · exact ⟨.int8 ["y"] [], by simp, rfl⟩
  · exact (rfl : isPadType "[6]byte" = true)
  · exact ⟨.int8 ["x"] ["// pair"], by simp, rfl⟩

end StructLayout
