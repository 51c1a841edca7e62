import StructLayout.Proofs.Check.Cache
import StructLayout.Proofs.Layout.Extents
import StructLayout.Proofs.Source.Sync
import StructLayout.Proofs.Strategy.Paddings

/-!
A declaration that has been rewritten is resolved again: its fields have the types that they had,
and on the same platform the sizes and alignments of the structure that it was rewritten to, as far
as its paddings are bytes.
-/

namespace StructLayout

variable {pending : List Nat} {env : List Frame} {c c₁ c₂ : TypeCache}

/-! ## Resolving again -/

/-- What one cache has, another one has too. -/
def Within (old new : TypeCache) : Prop :=
  ∀ p ty, old.lookup p = some ty → new.lookup p = some ty

mutual

/-- An expression that has been resolved has the same type again, and nothing is left to resolve. -/
theorem resolveExpr_again {c c₁ : TypeCache} {ty : Ty} (hw : Within c₁ c₂) :
    (e : TypeExpr) → resolveExpr pending env c e = (.ok ty, c₁) →
      resolveExpr pending env c₂ e = (.ok ty, c₂)
  | .ref (some pkg) name, h => by
    unfold resolveExpr at h ⊢
    split at h <;> cases h
    · exact if_pos ‹_›
    · exact if_neg ‹_›
  | .ref none name, h => by
    unfold resolveExpr at h ⊢
    split at h
    · have hc := hw _ _ (lookup_of_resolveDecl h)
      unfold resolveDecl
      rw [hc]
    · split at h <;> cases h
      rfl
  | .pointer _, h | .slice _, h | .map _ _, h | .chan _, h | .func _, h | .interface _, h => by
    unfold resolveExpr at h ⊢
    cases h
    rfl
  | .generic _ _, h => by
    unfold resolveExpr at h
    cases h
  | .array len elem, h => by
    unfold resolveExpr at h ⊢
    split at h
    · cases h
    · obtain ⟨hok, rfl⟩ := Prod.mk.inj h
      obtain ⟨ty', hty, rfl⟩ := map_eq_ok.mp hok
      have := resolveExpr_again hw elem (Prod.ext hty rfl)
      simp only [this]
      rfl
  | .struct ⟨_, fields, _, _, _⟩, h => by
    unfold resolveExpr at h ⊢
    obtain ⟨hok, rfl⟩ := Prod.mk.inj h
    obtain ⟨fs, hfs, rfl⟩ := map_eq_ok.mp hok
    have := resolveFields_again hw fields (Prod.ext hfs rfl)
    simp only [this]
    rfl
termination_by e => sizeOf e

theorem resolveFields_again {c c₁ : TypeCache} {fs : List TyField} (hw : Within c₁ c₂) :
    (ds : List FieldDecl) → resolveFields pending env c ds = (.ok fs, c₁) →
      resolveFields pending env c₂ ds = (.ok fs, c₂)
  | [], h => by
    unfold resolveFields at h ⊢
    cases h
    rfl
  | d :: ds, h => by
    unfold resolveFields at h ⊢
    split at h
    · cases h
    · rename_i own c' hd
      obtain ⟨hok, rfl⟩ := Prod.mk.inj h
      obtain ⟨rest, hrest, rfl⟩ := map_eq_ok.mp hok
      have hw' : Within c' c₂ := fun p ty hp =>
        hw p ty ((resolveFields_grown pending env c' ds).kept p ty hp)
      have h₁ := resolveField_again hw' d hd
      have h₂ := resolveFields_again hw ds (Prod.ext hrest rfl)
      simp only [h₁, h₂]
      rfl
termination_by ds => sizeOf ds

theorem resolveField_again {c c₁ : TypeCache} {fs : List TyField} (hw : Within c₁ c₂) :
    (d : FieldDecl) → resolveField pending env c d = (.ok fs, c₁) →
      resolveField pending env c₂ d = (.ok fs, c₂)
  | ⟨names, pos, ty, tyText, tag, doc, comment⟩, h => by
    unfold resolveField at h ⊢
    obtain ⟨hok, rfl⟩ := Prod.mk.inj h
    obtain ⟨ty', hty, rfl⟩ := map_eq_ok.mp hok
    have := resolveExpr_again hw ty (Prod.ext hty rfl)
    simp only [this]
    rfl
termination_by d => sizeOf d

end

/-! ## Declarations of one field each -/

namespace FieldDecl

/-- Resolved again, the type of a declaration is that of a field with its name. -/
def Types (pending : List Nat) (env : List Frame) (c : TypeCache) (d : FieldDecl) (f : TyField) :
    Prop :=
  d.name? = some f.name ∧ resolveExpr pending env c d.ty = (.ok f.ty, c)

theorem resolveField_eq_ok {d : FieldDecl} {fs : List TyField}
    (h : resolveField pending env c d = (.ok fs, c₁)) :
    ∃ ty, resolveExpr pending env c d.ty = (.ok ty, c₁) ∧ fs = d.typed ty := by
  obtain ⟨names, pos, ty, tyText, tag, doc, comment⟩ := d
  rw [resolveField] at h
  obtain ⟨hok, rfl⟩ := Prod.mk.inj h
  obtain ⟨ty', hty, rfl⟩ := map_eq_ok.mp hok
  exact ⟨ty', Prod.ext hty rfl, rfl⟩

theorem resolveField_of_expr {d : FieldDecl} {ty : Ty}
    (h : resolveExpr pending env c d.ty = (.ok ty, c₁)) :
    resolveField pending env c d = (.ok (d.typed ty), c₁) := by
  obtain ⟨names, pos, ty', tyText, tag, doc, comment⟩ := d
  rw [resolveField, h]
  rfl

/-- A declaration with one name makes one field. -/
theorem typed_of_name? {d : FieldDecl} {name : String} (h : d.name? = some name) (ty : Ty) :
    ∃ f, d.typed ty = [f] ∧ f.name = name ∧ f.ty = ty := by
  unfold name? at h
  unfold typed isEmbedded
  split at h
  · rename_i hn
    rw [hn, h]
    exact ⟨_, rfl, rfl, rfl⟩
  · rename_i name' hn
    cases h
    rw [hn]
    exact ⟨_, rfl, rfl, rfl⟩
  · cases h

/-- Flat declarations and the fields of the type go together one by one. -/
theorem types_of_flatten {structName : String} {ds flat : List FieldDecl} {fs : List TyField}
    (hr : resolveFields pending env c ds = (.ok fs, c₁)) (hw : Within c₁ c₂)
    (hf : flatten structName ds = .ok flat) :
    List.Forall₂ (Types pending env c₂) flat fs := by
  induction ds generalizing c fs flat with
  | nil =>
    cases hf
    unfold resolveFields at hr
    cases hr
    exact .nil
  | cons d ds ih =>
    unfold resolveFields at hr
    split at hr
    · cases hr
    · rename_i own c' hd
      obtain ⟨hok, rfl⟩ := Prod.mk.inj hr
      obtain ⟨rest, hrest, rfl⟩ := map_eq_ok.mp hok
      obtain ⟨ty, hty, rfl⟩ := resolveField_eq_ok hd
      have hw' : Within c' c₂ := fun p ty hp =>
        hw p ty ((resolveFields_grown pending env c' ds).kept p ty hp)
      have hty := resolveExpr_again hw' d.ty hty
      have hrest : resolveFields pending env c' ds = (.ok rest, _) := Prod.ext hrest rfl
      unfold flatten at hf
      split at hf
      · rename_i he
        split at hf
        · cases hf
        · rename_i hname
          obtain ⟨more, hmore, rfl⟩ := map_eq_ok.mp hf
          have hnames : d.names = [] := List.isEmpty_iff.mp he
          have hd : d.name? = some (d.ty.embeddedName?.getD "") := by
            have hsome : d.name? = d.ty.embeddedName? := by rw [name?, hnames]
            rw [hsome] at hname ⊢
            cases hn : d.ty.embeddedName? with
            | none => exact absurd (by rw [hn]; rfl) hname
            | some name => rfl
          rw [typed, if_pos he]
          exact .cons ⟨hd, hty⟩ (ih hrest hmore)
      · rename_i he
        obtain ⟨more, hmore, rfl⟩ := map_eq_ok.mp hf
        rw [typed, if_neg he]
        refine List.rel_append ?_ (ih hrest hmore)
        rw [single, List.forall₂_iff_get]
        refine ⟨by simp, fun i hi hj => ?_⟩
        simp only [List.get_eq_getElem, List.getElem_mapIdx, List.getElem_map]
        exact ⟨rfl, hty⟩

end FieldDecl

/-! ## Rewritten declarations -/

namespace FieldDecl

variable {p : Platform} {flat ds : List FieldDecl} {fs : List TyField}

/-- The declaration of a padding makes a field of that many bytes. -/
theorem resolve_pad (hbyte : lookupType? "byte" env = none) {d : FieldDecl} {n : Nat}
    (hnames : d.names = [padName]) (hty : d.ty = padExpr n) :
    ∃ g, resolveField pending env c d = (.ok [g], c) ∧ (g.toField p none).extent = ⟨n, 1⟩ := by
  have hexpr : resolveExpr pending env c d.ty = (.ok (.array n (.basic .byte)), c) := by
    rw [hty, padExpr, resolveExpr]
    dsimp only [arrayLength]
    rw [resolveExpr, hbyte]
    rfl
  have hname : d.name? = some padName := by rw [name?, hnames]
  obtain ⟨g, hg, -, hgty⟩ := typed_of_name? hname (.array n (.basic .byte))
  refine ⟨g, by rw [resolveField_of_expr hexpr, hg], ?_⟩
  obtain ⟨hsize, halign⟩ := p.extent_bytes n
  rw [TyField.extent_toField, hgty, hsize, halign]
  rfl

theorem eq_of_name_eq (hn : (realNames (fs.map TyField.name)).Nodup) {f g : TyField} (hf : f ∈ fs)
    (hg : g ∈ fs) (h : f.name = g.name) (hreal : f.name ≠ padName) : f = g := by
  rw [realNames, List.filter_map] at hn
  refine List.inj_on_of_nodup_map hn (List.mem_filter.mpr ⟨hf, ?_⟩)
    (List.mem_filter.mpr ⟨hg, ?_⟩) h
  · exact bne_iff_ne.mpr hreal
  · exact bne_iff_ne.mpr (h ▸ hreal)

/-- The declaration that a field gets makes one field, of the same size and alignment. -/
theorem resolve_synced (htypes : List.Forall₂ (Types pending env c) flat fs)
    (hn : (realNames (fs.map TyField.name)).Nodup) (hbyte : lookupType? "byte" env = none)
    {f : Field} {d : FieldDecl} (hpad : f.isPadding = true → f.align = 1)
    (hreal : f.isPadding = false → ∃ g ∈ fs, (g.toField p none).signature = f.signature)
    (h : Synced flat f d) :
    ∃ g, resolveField pending env c d = (.ok [g], c) ∧ (g.toField p none).extent = f.extent := by
  unfold Synced at h
  split at h
  · rename_i hp
    rw [Field.extent, hpad hp]
    exact resolve_pad hbyte (by rw [h]; rfl) (by rw [h]; rfl)
  · rename_i hp
    have hp := Bool.eq_false_of_not_eq_true hp
    obtain ⟨old, hold, hname, hd⟩ := h
    obtain ⟨g₀, hg₀, hname₀, hexpr⟩ := mem_of_forall₂ htypes.flip hold
    obtain ⟨g, hg, hsig⟩ := hreal hp
    have hgname : g.name = f.name := congrArg Signature.name hsig
    obtain rfl : g = g₀ := by
      refine eq_of_name_eq hn hg hg₀ ?_ ?_
      · rw [hname] at hname₀
        rw [hgname, Option.some.inj hname₀]
      · rw [hgname]
        exact bne_iff_ne.mp (by simpa [Field.isPadding] using hp)
    have hdname : d.name? = some f.name := by rw [hd]; exact hname
    have hdty : d.ty = old.ty := by rw [hd]
    obtain ⟨g', hg', -, hty⟩ := typed_of_name? hdname g.ty
    refine ⟨g', by rw [resolveField_of_expr (hdty ▸ hexpr), hg'], ?_⟩
    rw [TyField.extent_toField, hty, ← TyField.extent_toField]
    exact Extent.mk.injEq .. ▸ ⟨congrArg Signature.size hsig, congrArg Signature.align hsig⟩

theorem resolveFields_of_synced (htypes : List.Forall₂ (Types pending env c) flat fs)
    (hn : (realNames (fs.map TyField.name)).Nodup) (hbyte : lookupType? "byte" env = none)
    {fields : List Field} (hpads : BytePads fields)
    (hreal : ∀ f ∈ fields, f.isPadding = false →
      ∃ g ∈ fs, (g.toField p none).signature = f.signature)
    (h : List.Forall₂ (Synced flat) fields ds) :
    ∃ gs, resolveFields pending env c ds = (.ok gs, c) ∧
      (gs.map (TyField.toField p none)).map Field.extent = fields.map Field.extent := by
  induction h with
  | nil => exact ⟨[], by rw [resolveFields], rfl⟩
  | @cons f d fields ds hd _ ih =>
    obtain ⟨hpad, hpads⟩ := List.forall_mem_cons.mp hpads
    obtain ⟨hown, hreal⟩ := List.forall_mem_cons.mp hreal
    obtain ⟨g, hg, he⟩ := resolve_synced htypes hn hbyte hpad hown hd
    obtain ⟨gs, hgs, hes⟩ := ih hpads hreal
    refine ⟨g :: gs, ?_, ?_⟩
    · rw [resolveFields, hg]
      dsimp only
      rw [hgs]
      rfl
    · rw [List.map_cons, List.map_cons, List.map_cons, he, hes]

end FieldDecl

theorem FieldDecl.names_of_types {flat : List FieldDecl} {fs : List TyField}
    (h : List.Forall₂ (Types pending env c) flat fs) :
    fs.map TyField.name = flat.map nameOrEmpty := by
  induction h with
  | nil => rfl
  | cons hd _ ih => rw [List.map_cons, List.map_cons, ih, nameOrEmpty, hd.1, Option.getD_some]

section

variable {p : Platform} {name : String} {fs : List TyField} {st : Struct}

theorem bytePads_plain (h : ∀ f ∈ fs, f.name = padName → p.typeAlign f.ty = 1) :
    BytePads (Struct.plain p name fs).fields := by
  intro f hf hp
  rw [Struct.plain_fields] at hf
  obtain ⟨g, hg, rfl⟩ := List.mem_map.mp hf
  have halign : (g.toField p none).align = max (p.typeAlign g.ty) 1 :=
    (Extent.mk.inj g.extent_toField).2
  rw [halign, h g hg (eq_of_beq hp)]
  rfl

/-- A real field has the signature of one that is there with the size of its type. -/
theorem field_of_signatures (h : st.signatures ≤ (Struct.plain p name fs).signatures) {f : Field}
    (hf : f ∈ st.fields) (hp : f.isPadding = false) :
    ∃ g ∈ fs, (g.toField p none).signature = f.signature := by
  obtain ⟨_, hplain, -, hs⟩ := mem_signatures.mp
    (Multiset.mem_of_le h (mem_signatures.mpr ⟨f, hf, hp, rfl⟩))
  rw [Struct.plain_fields] at hplain
  obtain ⟨g, hg, rfl⟩ := List.mem_map.mp hplain
  exact ⟨g, hg, hs⟩

theorem nodup_realNames_of_le {st origin : Struct} (h : st.signatures ≤ origin.signatures)
    (hn : (realNames origin.names).Nodup) : (realNames st.names).Nodup := by
  have hle := Multiset.map_le_map h (f := Signature.name)
  rw [Struct.signatures, Struct.signatures, map_name_signatures, map_name_signatures] at hle
  exact Multiset.coe_nodup.mp (Multiset.nodup_of_le hle (Multiset.coe_nodup.mpr hn))

end

namespace TypeSpec

variable {p : Platform} {t t' : TypeSpec} {body : StructExpr} {file : FileInfo} {ty : Ty}
  {fs : List TyField} {pipe : Pipe} {status : Option ContextError} {st : Struct}

/-- A struct declaration that is resolved for the first time. -/
theorem resolveDecl_eq_ok (hfresh : c.lookup t.pos = none) (halias : t.isAlias = false)
    (hbody : t.ty = .struct body) :
    resolveDecl pending env c ⟨t, file⟩ = (.ok ty, c₁) ↔
      t.isGeneric = false ∧ t.pos ∈ pending ∧ ∃ fs rest,
        resolveFields (pending.filter (· != t.pos)) env c body.fields = (.ok fs, rest) ∧
          ty = .named t.name t.pos (.struct fs) ∧ c₁ = (t.pos, ty) :: rest := by
  have hexpr : resolveExpr (pending.filter (· != t.pos)) env c t.ty =
      ((resolveFields (pending.filter (· != t.pos)) env c body.fields).1.map .struct,
        (resolveFields (pending.filter (· != t.pos)) env c body.fields).2) := by
    obtain ⟨span, fields, trailing, closeIndent, fieldIndent⟩ := body
    rw [hbody, resolveExpr]
  unfold resolveDecl
  dsimp only
  rw [hfresh, hexpr]
  generalize resolveFields (pending.filter (· != t.pos)) env c body.fields = r
  obtain ⟨e | fs, rest⟩ := r <;> cases t.isGeneric <;> by_cases hp : t.pos ∈ pending <;>
    simp [hp, halias, Except.map, Ty.underlying, eq_comm]
  rintro rfl
  rfl

/-- The declaration of a struct type, rewritten to a structure that a pipe has made of the type, and
resolved again beside the types that had been resolved before it. If names are distinct, `byte` is
the basic type and blank fields have alignment one, every field has the size and the alignment that
it has in the structure, and so has the structure as a whole. -/
theorem reload_extents (hfresh : c.lookup t.pos = none) (halias : t.isAlias = false)
    (hbody : t.ty = .struct body)
    (hload : resolveDecl pending env c ⟨t, file⟩ = (.ok ty, c₁)) (hfs : ty.fields? = some fs)
    (hnames : (realNames (fs.map TyField.name)).Nodup) (hpipe : ∀ r, .replay r ∉ pipe)
    (hst : pipe.apply status (.plain p t.name fs) = .ok st) (hsync : t.sync st = .ok t')
    (hbyte : lookupType? "byte" env = none)
    (hblank : ∀ f ∈ fs, f.name = padName → p.typeAlign f.ty = 1) :
    ∃ gs rest, c₁ = (t.pos, ty) :: rest ∧
      resolveDecl pending env rest ⟨t', file⟩ =
        (.ok (.named t.name t.pos (.struct gs)),
          (t.pos, .named t.name t.pos (.struct gs)) :: rest) ∧
      (Struct.plain p t.name gs).fields.map Field.extent = st.fields.map Field.extent ∧
      (Struct.plain p t.name gs).size = st.size ∧ (Struct.plain p t.name gs).align = st.align := by
  obtain ⟨hgeneric, hpos, fs', rest, hfields, rfl, rfl⟩ :=
    (resolveDecl_eq_ok hfresh halias hbody).mp hload
  obtain rfl : fs' = fs := by simpa [Ty.fields?, Ty.underlying] using hfs
  have hstruct : t.ty.struct? = some body := by rw [hbody]; rfl
  obtain ⟨ds, hds, rfl⟩ := (sync_eq_ok hstruct).mp hsync
  obtain ⟨flat, hflat, -⟩ := bind_eq_ok.mp hds
  have htypes := FieldDecl.types_of_flatten hfields (fun _ _ h => h) hflat
  obtain ⟨hle, hpads⟩ : st.signatures ≤ (Struct.plain p t.name fs').signatures ∧
      BytePads st.fields := by
    cases status with
    | some cause => cases hst
    | none =>
      exact ⟨(Pipe.run_signatures hst).2.1, Pipe.bytePads_run hpipe (bytePads_plain hblank) hst⟩
  have hdistinct : (realNames st.names).Nodup := by
    refine nodup_realNames_of_le hle ?_
    rwa [Struct.names, Struct.plain_fields, List.map_map]
  have hsynced := (FieldDecl.sync_iff hflat (FieldDecl.names_of_types htypes ▸ hnames) hdistinct).2
    ds hds
  obtain ⟨gs, hgs, he⟩ := FieldDecl.resolveFields_of_synced htypes hnames hbyte hpads
    (fun f hf hp => field_of_signatures hle hf hp) hsynced
  have hrest : rest.lookup t.pos = none := by
    have hg := resolveFields_grown (pending.filter (· != t.pos)) env c body.fields
    rw [hfields] at hg
    exact hg.lookup_eq_none hfresh
  have hextents : (Struct.plain p t.name gs).fields.map Field.extent =
      st.fields.map Field.extent := by
    rw [Struct.plain_fields, he]
  refine ⟨gs, rest, rfl, ?_, hextents, Struct.size_congr hextents, Struct.align_congr hextents⟩
  exact (resolveDecl_eq_ok (t := t.synced body st ds) hrest halias rfl).mpr
    ⟨hgeneric, hpos, gs, rest, hgs, rfl, rfl⟩

end TypeSpec

/-! ## A byte padding, and a slice that passes for one -/

def Platform.amd64 : Platform :=
  ⟨"gc", "amd64", ⟨8, 8⟩, []⟩

/-- Two fields of one byte with a blank one between them. -/
def StructExpr.spaced (blank : FieldDecl) : StructExpr where
  span := ⟨7, 60⟩
  fields := [.int8 ["a"] [], blank, .int8 ["b"] []]
  trailing := []
  closeIndent := ""
  fieldIndent := none

def TypeSpec.spaced (blank : FieldDecl) : TypeSpec :=
  { TypeSpec.mixed with ty := .struct (.spaced blank), comment := [] }

def FieldDecl.slicePad : FieldDecl :=
  { names := [padName], pos := 0, ty := .slice (.ref none "byte"), tyText := "[]byte" }

/-- The fields of the type, the blank one with a type of its own. -/
def spacedFields (blank : Ty) : List TyField :=
  let field := fun name ty => { name, ty, tag := "", embedded := false, exported := false }
  [field "a" (.basic .int8), field "_" blank, field "b" (.basic .int8)]

def spacedFile : FileInfo := ⟨"a.go", 0, 60, [0]⟩

theorem TypeSpec.reload_extents_spaced :
    let fs := spacedFields (.array 3 (.basic .byte))
    let ty : Ty := .named "T" 5 (.struct fs)
    ∃ st t', Pipe.apply [.transform .pack, .transform (.padGaps (some 8))] none
        (.plain .amd64 "T" fs) = .ok st ∧
      (spaced (.pad 3)).sync st = .ok t' ∧
      resolveDecl [5] [] [] ⟨spaced (.pad 3), spacedFile⟩ = (.ok ty, [(5, ty)]) ∧
      ∃ gs, resolveDecl [5] [] [] ⟨t', spacedFile⟩ =
          (.ok (.named "T" 5 (.struct gs)), [(5, .named "T" 5 (.struct gs))]) ∧
        (Struct.plain .amd64 "T" gs).fields.map Field.extent =
          [⟨3, 1⟩, ⟨1, 1⟩, ⟨1, 1⟩, ⟨3, 1⟩] ∧
        (Struct.plain .amd64 "T" gs).size = 8 := by
  intro fs ty
  let pipe : Pipe := [.transform .pack, .transform (.padGaps (some 8))]
  let field := fun name typeName size => ({ name, typeName, size, align := 1 } : Field)
  let st : Struct := { name := "T", fields := [field "_" "[3]byte" 3, field "a" "int8" 1,
    field "b" "int8" 1, field "_" "[3]byte" 3] }
  have hload : resolveDecl [5] [] [] ⟨spaced (.pad 3), spacedFile⟩ = (.ok ty, [(5, ty)]) := by cbv
  have hpack : Transform.pack.apply (.plain .amd64 "T" fs) =
      { name := "T",
        fields := [field "_" "[3]byte" 3, field "a" "int8" 1, field "b" "int8" 1] } := by
    cbv
  have hst : pipe.apply none (.plain .amd64 "T" fs) = .ok st := by
    change (Except.ok (Transform.apply _ (Transform.pack.apply _)) : Except StrategyError _) = _
    rw [hpack]
    decide +kernel
  let t' := (spaced (.pad 3)).synced (.spaced (.pad 3)) st
    [.pad 3, .int8 ["a"] [], .int8 ["b"] [], .pad 3]
  have hsync : (spaced (.pad 3)).sync st = .ok t' := by cbv
  have hpipe : ∀ r, .replay r ∉ pipe := by simp [pipe]
  have hblank : ∀ f ∈ fs, f.name = padName → Platform.amd64.typeAlign f.ty = 1 := by
    simp [fs, spacedFields, padName, Platform.amd64.extent_bytes 3]
  obtain ⟨gs, rest, hrest, hagain, hextents, hsize, -⟩ := reload_extents (p := .amd64) rfl rfl
    (by rfl) hload (by rfl) (by decide) hpipe hst hsync (by rfl) hblank
  obtain ⟨-, rfl⟩ := List.cons.inj hrest
  exact ⟨st, t', hst, hsync, hload, gs, hagain, hextents.trans (by decide),
    hsize.trans (by decide)⟩

/-- A blank slice of bytes passes for a padding, and is rewritten to an array of as many bytes as
the slice header has: a structure of forty bytes becomes one of twenty-six. -/
theorem TypeSpec.reload_slice :
    let fs := spacedFields (.slice "byte")
    let gs := spacedFields (.array 24 (.basic .byte))
    let st := Struct.plain .amd64 "T" fs
    let ty : Ty := .named "T" 5 (.struct fs)
    resolveDecl [5] [] [] ⟨spaced .slicePad, spacedFile⟩ = (.ok ty, [(5, ty)]) ∧
      Pipe.apply [.transform .ignore] none st = .ok st ∧
      (∃ t', (spaced .slicePad).sync st = .ok t' ∧
        resolveDecl [5] [] [] ⟨t', spacedFile⟩ =
          (.ok (.named "T" 5 (.struct gs)), [(5, .named "T" 5 (.struct gs))])) ∧
      st.size = 40 ∧ st.align = 8 ∧ (Struct.plain .amd64 "T" gs).size = 26 ∧
      (Struct.plain .amd64 "T" gs).align = 1 := by
  refine ⟨by cbv, by cbv, ⟨_, by cbv, by cbv⟩, by cbv, by cbv, by cbv, by cbv⟩

end StructLayout
