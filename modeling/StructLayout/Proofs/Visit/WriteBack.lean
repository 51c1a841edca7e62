import StructLayout.Proofs.Check.Recursion
import StructLayout.Proofs.Source.Identities
import StructLayout.Proofs.Source.Splice
import StructLayout.Proofs.Visit.Progress
import StructLayout.Reconcile
import StructLayout.Visit.Order

/-!
What a visit has curated is written back into the files that were visited: every structure to the
one declaration that it was made of.
-/

namespace StructLayout

/-! ## Results by identity -/

namespace Applied

/-- The structure of a successful outcome, with its identity. -/
def keyed? (a : Applied) : Option (Identity × Struct) :=
  a.curated?.map (a.id, ·)

theorem curated?_eq_some {a : Applied} {st : Struct} :
    a.curated? = some st ↔ a.result = .ok st := by
  unfold curated? Except.toOption
  cases a.result <;> simp

theorem keyed?_eq_some {a : Applied} {id : Identity} {st : Struct} :
    a.keyed? = some (id, st) ↔ a.id = id ∧ a.result = .ok st := by
  rw [keyed?, Option.map_eq_some_iff, ← curated?_eq_some]
  constructor
  · rintro ⟨_, hst, ⟨⟩⟩
    exact ⟨rfl, hst⟩
  · rintro ⟨rfl, hst⟩
    exact ⟨st, hst, rfl⟩

theorem sort_perm (outcomes : List Applied) : (sort outcomes).Perm outcomes :=
  List.mergeSort_perm _ _

theorem entries_sublist (outcomes : List Applied) :
    ((outcomes.filterMap keyed?).map Prod.fst).Sublist (outcomes.map id) := by
  induction outcomes with
  | nil => exact .slnil
  | cons a outcomes ih =>
    cases h : a.keyed? with
    | none =>
      rw [List.filterMap_cons_none h, List.map_cons]
      exact ih.cons _
    | some e =>
      obtain ⟨hid, -⟩ := keyed?_eq_some.mp h
      rw [List.filterMap_cons_some h, List.map_cons, List.map_cons, hid]
      exact ih.cons_cons _

theorem length_entries (outcomes : List Applied) :
    (outcomes.filterMap keyed?).length = (outcomes.filterMap curated?).length := by
  induction outcomes with
  | nil => rfl
  | cons a outcomes ih =>
    cases h : a.curated? with
    | none =>
      rw [List.filterMap_cons_none (by rw [keyed?, h]; rfl), List.filterMap_cons_none h, ih]
    | some st =>
      rw [List.filterMap_cons_some (by rw [keyed?, h]; rfl), List.filterMap_cons_some h,
        List.length_cons, List.length_cons, ih]

end Applied

namespace Results

open OrderedMap

variable {r : Results} {id : Identity} {location : String} {st : Struct} {outcomes : List Applied}

theorem string_eq_of_compare (a b : String) (h : compare a b = .eq) : a = b :=
  Std.LawfulEqOrd.eq_of_compare h

theorem push_sorted (hr : Sorted compare r) : Sorted compare (r.push id location st) :=
  hr.insert string_eq_of_compare

theorem push_entries (hr : Sorted compare r) (hid : id ∉ r.entries.map Prod.fst) :
    (r.push id location st).entries.Perm ((id, st) :: r.entries) := by
  refine update_perm string_eq_of_compare (fun _ => Std.ReflOrd.compare_self) hr fun ys hys => ?_
  exact insert_perm (fun _ _ => Identity.eq_of_compare) fun hm => hid (List.map_subset _ hys hm)

theorem foldl_entries (hr : Sorted compare r)
    (hn : (r.entries.map Prod.fst ++ outcomes.map Applied.id).Nodup) :
    Results.entries (outcomes.foldl
      (fun r a => (a.curated?.map (r.push a.id a.location)).getD r) r)
        |>.Perm (r.entries ++ outcomes.filterMap Applied.keyed?) := by
  induction outcomes generalizing r with
  | nil => simp
  | cons a outcomes ih =>
    rw [List.foldl_cons]
    cases h : a.curated? with
    | none =>
      rw [List.filterMap_cons_none (by rw [Applied.keyed?, h]; rfl)]
      exact ih hr (hn.sublist ((List.sublist_cons_self _ _).append_left _))
    | some st =>
      rw [List.filterMap_cons_some (by rw [Applied.keyed?, h]; rfl)]
      have hmid := (List.perm_middle (a := a.id)).nodup_iff.mp hn
      have hid : a.id ∉ r.entries.map Prod.fst :=
        fun hm => (List.nodup_cons.mp hmid).1 (List.mem_append_left _ hm)
      have hpush : (r.push a.id a.location st).entries.Perm ((a.id, st) :: r.entries) :=
        push_entries hr hid
      refine (ih (push_sorted hr) ?_).trans ?_
      · exact ((hpush.map Prod.fst).append_right _).nodup_iff.mpr hmid
      · exact (hpush.append_right _).trans List.perm_middle.symm

/-- The results of outcomes with different identities are their structures. -/
theorem flat_ofApplied (hn : (outcomes.map Applied.id).Nodup) :
    (ofApplied outcomes).flat.Perm (outcomes.filterMap Applied.keyed?) := by
  have hentries : (ofApplied outcomes).entries.Perm (outcomes.filterMap Applied.keyed?) :=
    foldl_entries .nil hn
  refine (ofList_perm (fun _ _ => Identity.eq_of_compare) ?_).trans hentries
  exact (hentries.map Prod.fst).nodup_iff.mpr (hn.sublist (Applied.entries_sublist outcomes))

end Results

/-! ## Reconciling -/

namespace FieldDecl

variable {name n : String} {st : Struct}

theorem flatten_ne_notStruct {ds : List FieldDecl} :
    flatten name ds ≠ .error (.notStruct n) := by
  intro h
  induction ds with
  | nil => cases h
  | cons d ds ih =>
    unfold flatten at h
    split at h
    · split at h
      · cases h
      · exact ih (map_eq_error h)
    · exact ih (map_eq_error h)

theorem place_ne_notStruct {fs : List Field} {ds : List FieldDecl} :
    place name fs ds ≠ .error (.notStruct n) := by
  intro h
  induction fs generalizing ds with
  | nil => cases h
  | cons f fs ih =>
    unfold place at h
    split at h
    · split at h
      · exact ih (map_eq_error h)
      · cases h
    · split at h
      · cases h
      · exact ih (map_eq_error h)

theorem sync_ne_notStruct {ds : List FieldDecl} : sync name st ds ≠ .error (.notStruct n) := by
  intro h
  unfold sync at h
  rcases bind_eq_error h with h | ⟨flat, -, h⟩
  · exact flatten_ne_notStruct h
  · rcases bind_eq_error h with h | ⟨placed, -, h⟩
    · exact place_ne_notStruct h
    · dsimp only at h
      split at h
      · cases h
      · cases h

end FieldDecl

theorem TypeSpec.sync_notStruct {t : TypeSpec} {st : Struct} {n : String}
    (h : t.sync st = .error (.notStruct n)) : t.ty.struct? = none ∧ t.name = n := by
  unfold sync at h
  split at h
  · rename_i hty
    cases h
    exact ⟨hty, rfl⟩
  · rcases bind_eq_error h with h | ⟨fields, -, h⟩
    · exact absurd h FieldDecl.sync_ne_notStruct
    · cases h

namespace Reconciler

variable {r : Reconciler} {t : TypeSpec} {ts us : List TypeSpec} {count : Nat}

theorem result?_eq_some (hn : (r.results.map Prod.fst).Nodup) {st : Struct} :
    r.result? t = some st ↔ (r.locator.identity t.pos, st) ∈ r.results := by
  rw [result?, OrderedMap.find?_eq_lookup (fun _ _ => Identity.eq_of_compare) Identity.compare_self]
  exact ⟨mem_of_lookup, lookup_of_mem hn⟩

/-- A declaration with a result is synced, any other one stays as it is. -/
def Writes (r : Reconciler) (t u : TypeSpec) : Prop :=
  match r.result? t with
  | none => u = t
  | some st => t.sync st = .ok u

theorem specs_eq_ok (h : r.specs ts = .ok (count, us)) :
    count = (ts.filter fun t => (r.result? t).isSome).length ∧ List.Forall₂ r.Writes ts us := by
  induction ts generalizing count us with
  | nil =>
    cases h
    exact ⟨rfl, .nil⟩
  | cons t ts ih =>
    unfold specs at h
    split at h
    · rename_i hr
      obtain ⟨⟨n, us⟩, hs, h⟩ := bind_eq_ok.mp h
      cases h
      obtain ⟨hcount, hall⟩ := ih hs
      refine ⟨?_, .cons (by rw [Writes, hr]) hall⟩
      rw [List.filter_cons_of_neg (by simp [hr]), hcount]
    · rename_i st hr
      obtain ⟨u, hu, h⟩ := bind_eq_ok.mp h
      obtain ⟨⟨n, us⟩, hs, h⟩ := bind_eq_ok.mp h
      cases h
      obtain ⟨hcount, hall⟩ := ih hs
      have hsync : t.sync st = .ok u := by
        cases hu' : t.sync st <;> rw [hu'] at hu <;> cases hu
        rfl
      refine ⟨?_, .cons (by rw [Writes, hr]; exact hsync) hall⟩
      rw [List.filter_cons_of_pos (by simp [hr]), List.length_cons, hcount]

theorem specs_eq_error {e : SyncError} (h : r.specs ts = .error (.sync e)) :
    ∃ t ∈ ts, ∃ st, r.result? t = some st ∧ t.sync st = .error e := by
  induction ts with
  | nil => cases h
  | cons t ts ih =>
    have later (h : r.specs ts = .error (.sync e)) :
        ∃ u ∈ t :: ts, ∃ st, r.result? u = some st ∧ u.sync st = .error e :=
      let ⟨u, hu, hst⟩ := ih h
      ⟨u, List.mem_cons_of_mem t hu, hst⟩
    unfold specs at h
    split at h
    · rcases bind_eq_error h with h | ⟨_, -, h⟩
      · exact later h
      · cases h
    · rename_i st hr
      rcases bind_eq_error h with h | ⟨u, -, h⟩
      · refine ⟨t, List.mem_cons_self, st, hr, ?_⟩
        cases hs : t.sync st <;> rw [hs] at h <;> cases h
        rfl
      · rcases bind_eq_error h with h | ⟨_, -, h⟩
        · exact later h
        · cases h

variable {status : SourceFile → Option ContextError} {fs gs : List SourceFile}

theorem files_eq_ok (h : r.files status fs = .ok (count, gs)) :
    count = ((fs.flatMap SourceFile.specs).filter fun t => (r.result? t).isSome).length ∧
      List.Forall₂ r.Writes (fs.flatMap SourceFile.specs) (gs.flatMap SourceFile.specs) := by
  induction fs generalizing count gs with
  | nil =>
    cases h
    exact ⟨rfl, .nil⟩
  | cons f fs ih =>
    unfold files at h
    split at h
    · cases h
    · obtain ⟨⟨own, us⟩, hown, h⟩ := bind_eq_ok.mp h
      obtain ⟨⟨others, gs⟩, hothers, h⟩ := bind_eq_ok.mp h
      cases h
      obtain ⟨hcount, hall⟩ := specs_eq_ok hown
      obtain ⟨hcount', hall'⟩ := ih hothers
      rw [List.flatMap_cons, List.flatMap_cons, List.filter_append, List.length_append, hcount,
        hcount', SourceFile.specs_withSpecs hall.length_eq.symm]
      exact ⟨rfl, List.rel_append hall hall'⟩

theorem files_eq_error {e : SyncError} (h : r.files status fs = .error (.sync e)) :
    ∃ t ∈ fs.flatMap SourceFile.specs, ∃ st, r.result? t = some st ∧ t.sync st = .error e := by
  induction fs with
  | nil => cases h
  | cons f fs ih =>
    rw [List.flatMap_cons]
    unfold files at h
    split at h
    · cases h
    · rcases bind_eq_error h with h | ⟨_, -, h⟩
      · obtain ⟨t, ht, hst⟩ := specs_eq_error h
        exact ⟨t, List.mem_append_left _ ht, hst⟩
      · rcases bind_eq_error h with h | ⟨_, -, h⟩
        · obtain ⟨t, ht, hst⟩ := ih h
          exact ⟨t, List.mem_append_right _ ht, hst⟩
        · cases h

end Reconciler

/-! ## What is curated -/

theorem Ty.underlying_underlying : (t : Ty) → t.underlying.underlying = t.underlying
  | .named _ _ u => by
    rw [underlying]
    exact u.underlying_underlying
  | .basic _ | .pointer _ | .slice _ | .map .. | .chan _ | .func _ | .interface _ | .array ..
  | .struct _ | .foreign _ => rfl

/-- A type with fields is spelled as a struct, or it is named. -/
theorem Denotes.struct_or_ref {env : List Frame} {e : TypeExpr} {ty : Ty} (h : Denotes env e ty)
    (hf : ty.fields?.isSome = true) : e.struct?.isSome = true ∨ ∃ name, e = .ref none name := by
  cases h with
  | plain hp =>
    unfold TypeExpr.plain? at hp
    split at hp <;> try cases hp
    all_goals try cases hf
    split at hf <;> cases hf
  | declared => exact .inr ⟨_, rfl⟩
  | predeclared => exact .inr ⟨_, rfl⟩
  | array => cases hf
  | struct => exact .inl rfl

theorem Site.Declares.struct_or_ref {x : Site} {o : TypeName} (h : x.Declares o)
    (ho : o.isStructDecl = true) :
    x.spec.ty.struct?.isSome = true ∨ ∃ name, x.spec.ty = .ref none name := by
  obtain ⟨-, halias, hd⟩ := h
  rw [TypeName.isStructDecl, Bool.and_eq_true, Bool.and_eq_true, Bool.not_eq_true', halias] at ho
  generalize o.ty = ty at hd ho
  cases hd with
  | @mk _ _ ty' _ he =>
    refine he.struct_or_ref ?_
    have hf := ho.2
    rw [Declared.declares, if_neg (by rw [ho.1.1]; decide), Ty.fields?, Ty.underlying,
      Ty.underlying_underlying] at hf
    exact hf

namespace Visit

variable {v : Setting} {root : Scope} {seen : List (Option ContextError)} {s : State}

/-- What writes the structures of some outcomes back. -/
def reconciler (l : Locator) (outcomes : List Applied) : Reconciler :=
  ⟨l, (Results.ofApplied (Applied.sort outcomes)).flat⟩

/-- A declaration becomes the structure that was curated for it, if there is one. -/
def WrittenBack (l : Locator) (outcomes : List Applied) (t u : TypeSpec) : Prop :=
  (∀ a ∈ outcomes, a.id = l.identity t.pos → ∀ st, a.result = .ok st → t.sync st = .ok u) ∧
    ((∀ a ∈ outcomes, a.id = l.identity t.pos → ∀ st, a.result ≠ .ok st) → u = t)

section

variable {l : Locator} {outcomes : List Applied} {t u : TypeSpec}

theorem results_reconciler (hn : (outcomes.map Applied.id).Nodup) :
    (reconciler l outcomes).results.Perm (outcomes.filterMap Applied.keyed?) := by
  have hsort := Applied.sort_perm outcomes
  refine (Results.flat_ofApplied ((hsort.map Applied.id).nodup_iff.mpr hn)).trans ?_
  exact hsort.filterMap Applied.keyed?

theorem keys_reconciler (hn : (outcomes.map Applied.id).Nodup) :
    ((reconciler l outcomes).results.map Prod.fst).Nodup :=
  ((results_reconciler hn).map Prod.fst).nodup_iff.mpr
    (hn.sublist (Applied.entries_sublist outcomes))

/-- A declaration has a result if its identity is that of a successful outcome. -/
theorem result?_reconciler (hn : (outcomes.map Applied.id).Nodup) {st : Struct} :
    (reconciler l outcomes).result? t = some st ↔
      ∃ a ∈ outcomes, a.id = l.identity t.pos ∧ a.result = .ok st := by
  rw [Reconciler.result?_eq_some (keys_reconciler hn), (results_reconciler hn).mem_iff,
    List.mem_filterMap]
  exact exists_congr fun a => and_congr_right fun _ => Applied.keyed?_eq_some

/-- The result of a declaration, where the outcomes are known. -/
theorem result?_of_map {known : List (Identity × Option Struct)} {st : Struct}
    (h : (outcomes.map fun a => (a.id, a.curated?)) = known) (hn : (known.map Prod.fst).Nodup)
    (ht : (l.identity t.pos, some st) ∈ known) : (reconciler l outcomes).result? t = some st := by
  subst h
  rw [List.map_map] at hn
  obtain ⟨a, ha, he⟩ := List.mem_map.mp ht
  obtain ⟨hid, hst⟩ := Prod.mk.inj he
  exact (result?_reconciler hn).mpr ⟨a, ha, hid, Applied.curated?_eq_some.mp hst⟩

theorem writtenBack_of_writes (hn : (outcomes.map Applied.id).Nodup)
    (h : (reconciler l outcomes).Writes t u) : WrittenBack l outcomes t u := by
  unfold Reconciler.Writes at h
  split at h
  · rename_i hr
    refine ⟨fun a ha hid st hst => ?_, fun _ => h⟩
    rw [(result?_reconciler hn).mpr ⟨a, ha, hid, hst⟩] at hr
    cases hr
  · rename_i st hr
    refine ⟨fun a ha hid st' hst => ?_, fun hnone => ?_⟩
    · rw [(result?_reconciler hn).mpr ⟨a, ha, hid, hst⟩] at hr
      cases hr
      exact h
    · obtain ⟨a, ha, hid, hst⟩ := (result?_reconciler hn).mp hr
      exact absurd hst (hnone a ha hid st)

/-- There are as many declarations with a result as results, if each outcome has a declaration and
no two declarations have one identity. -/
theorem length_results (hn : (outcomes.map Applied.id).Nodup) {specs : List TypeSpec}
    (hd : (specs.map fun t => l.identity t.pos).Nodup)
    (hall : ∀ a ∈ outcomes, ∃ t ∈ specs, l.identity t.pos = a.id) :
    (specs.filter fun t => ((reconciler l outcomes).result? t).isSome).length =
      (reconciler l outcomes).results.length := by
  have hperm : ((specs.filter fun t => ((reconciler l outcomes).result? t).isSome).map
      fun t => l.identity t.pos).Perm ((reconciler l outcomes).results.map Prod.fst) := by
    refine (List.perm_ext_iff_of_nodup ?_ (keys_reconciler hn)).mpr fun id => ?_
    · exact hd.sublist (List.filter_sublist.map _)
    · constructor
      · intro hid
        obtain ⟨t, ht, rfl⟩ := List.mem_map.mp hid
        obtain ⟨st, hst⟩ := Option.isSome_iff_exists.mp (List.mem_filter.mp ht).2
        exact List.mem_map_of_mem ((Reconciler.result?_eq_some (keys_reconciler hn)).mp hst)
      · intro hid
        obtain ⟨⟨id, st⟩, he, rfl⟩ := List.mem_map.mp hid
        obtain ⟨a, ha, hentry⟩ := List.mem_filterMap.mp ((results_reconciler hn).mem_iff.mp he)
        obtain ⟨rfl, hst⟩ := Applied.keyed?_eq_some.mp hentry
        obtain ⟨t, ht, hid⟩ := hall a ha
        refine List.mem_map.mpr ⟨t, List.mem_filter.mpr ⟨ht, ?_⟩, hid⟩
        rw [(result?_reconciler hn).mpr ⟨a, ha, hid.symm, hst⟩]
        rfl
  simpa using hperm.length_eq

end

/-- Every outcome of a visit is that of a declaration with its name and identity, which is spelled
as a struct or with the name of another type. -/
theorem declaration_of_outcome {files : List SourceFile} {name path : String} {a : Applied}
    (hpos : ((files.flatMap SourceFile.specs).map TypeSpec.pos).Nodup)
    (hcheck : (check files name path).1 = .ok root) (ha : v.IsOutcome root seen a) :
    ∃ t ∈ files.flatMap SourceFile.specs, v.identity t.pos = a.id ∧ t.name = a.origin.name ∧
      (t.ty.struct?.isSome = true ∨ ∃ other, t.ty = .ref none other) := by
  obtain ⟨o, ho, status, -, sizes, rfl⟩ := ha
  obtain ⟨hregion, hwants⟩ := Setting.mem_targets.mp ho
  obtain ⟨x, hx, hdeclares⟩ := check_declares hpos hcheck o (v.region_sub root hregion)
  have hstruct : o.isStructDecl = true := (Bool.and_eq_true _ _ ▸ hwants).1
  obtain ⟨hname, hpos⟩ := Prod.mk.inj hdeclares.key
  refine ⟨x.spec, (packageSites_perm files).subset (List.mem_map_of_mem hx), ?_, hname.symm,
    hdeclares.struct_or_ref hstruct⟩
  exact congrArg v.identity hpos.symm

/-- Writing the outcomes of a visit back into the files that were visited fails for want of a struct
only at a curated declaration that is spelled with the name of another type. If it succeeds, it has
synced as many declarations as there are results: those of the outcomes that succeeded, each of
them with its own structure. Every outcome belongs to exactly one declaration. -/
theorem write_back {base : Nat} {sources : List (String × List Char)} {fs : FileSet}
    {files : List SourceFile} {name path : String} {l : Locator} {backref : Bool}
    (hread : SourceFile.readAll (.startingAt base) sources = .ok (fs, files))
    (hnames : (sources.map Prod.fst).Nodup) (hnamed : "" ∉ sources.map Prod.fst)
    (hsha : Sha1.CollisionFree (declaredPlaces files))
    (hcheck : (check files name path).1 = .ok root) (hroot : l.root = fs)
    (hid : v.identity = l.identity) (h : Reaches v (.start backref root) seen s)
    (hend : s.tasks = []) (status : SourceFile → Option ContextError) :
    (∀ n, (reconciler l s.results).files status files = .error (.sync (.notStruct n)) →
      ∃ a ∈ s.results, (∃ st, a.result = .ok st) ∧ ∃ t ∈ files.flatMap SourceFile.specs,
        l.identity t.pos = a.id ∧ t.name = n ∧ ∃ other, t.ty = .ref none other) ∧
    (∀ count written, (reconciler l s.results).files status files = .ok (count, written) →
      count = (reconciler l s.results).results.length ∧
      count = (s.results.filterMap Applied.curated?).length ∧
      List.Forall₂ (WrittenBack l s.results) (files.flatMap SourceFile.specs)
        (written.flatMap SourceFile.specs)) ∧
    ∀ a ∈ s.results, ∃ t ∈ files.flatMap SourceFile.specs,
      l.identity t.pos = a.id ∧ t.name = a.origin.name ∧
      ∀ u ∈ files.flatMap SourceFile.specs, l.identity u.pos = a.id → u = t := by
  have hpos := (SourceFile.readAll_pos_nodup hread).1
  have hacc := accounted_of_reaches h
  have hn := (hacc.results_perm hend).nodup_iff.mpr hacc.nodup
  have hinj : ∀ t ∈ files.flatMap SourceFile.specs, ∀ u ∈ files.flatMap SourceFile.specs,
      l.identity t.pos = l.identity u.pos → t = u := by
    intro t ht u hu he
    refine List.inj_on_of_nodup_map hpos ht hu
      (l.identity_inj hread hnames hnamed hroot hsha ?_ ?_ he)
    · exact List.map_flatMap ▸ List.mem_map_of_mem ht
    · exact List.map_flatMap ▸ List.mem_map_of_mem hu
  have hdistinct : ((files.flatMap SourceFile.specs).map fun t => l.identity t.pos).Nodup :=
    (List.nodup_map_iff_inj_on (List.Nodup.of_map _ hpos)).mpr hinj
  have hdecl (a : Applied) (ha : a ∈ s.results) := hid ▸
    declaration_of_outcome hpos hcheck (hacc.outcomes a (.inr ha))
  refine ⟨fun n he => ?_, fun count written hw => ?_, fun a ha => ?_⟩
  · obtain ⟨t, ht, st, hst, hsync⟩ := Reconciler.files_eq_error he
    obtain ⟨hnone, hname⟩ := TypeSpec.sync_notStruct hsync
    obtain ⟨a, ha, hida, hok⟩ := (result?_reconciler hn).mp hst
    obtain ⟨u, hu, hidu, -, hspelled⟩ := hdecl a ha
    obtain rfl : u = t := hinj u hu t ht (hidu.trans hida)
    refine ⟨a, ha, ⟨st, hok⟩, u, hu, hidu, hname, hspelled.resolve_left ?_⟩
    rw [hnone]
    decide
  · obtain ⟨hcount, hall⟩ := Reconciler.files_eq_ok hw
    have hlen := length_results hn hdistinct fun a ha =>
      let ⟨t, ht, hidt, _⟩ := hdecl a ha
      ⟨t, ht, hidt⟩
    refine ⟨hcount.trans hlen, ?_, hall.imp fun _ _ => writtenBack_of_writes hn⟩
    rw [hcount, hlen, (results_reconciler hn).length_eq, Applied.length_entries]
  · obtain ⟨t, ht, hidt, hname, -⟩ := hdecl a ha
    exact ⟨t, ht, hidt, hname, fun u hu hidu => hinj u hu t ht (hidu.trans hidt.symm)⟩

/-! The package of `holderText`, visited to the end. -/

theorem collisionFree_lines : Sha1.CollisionFree ["a.go/2:6", "a.go/3:6"] := by
  have hd : Sha1.digest "a.go/2:6" ≠ Sha1.digest "a.go/3:6" := by decide +kernel
  simp [Sha1.CollisionFree, hd, hd.symm]

def heldThrough : List (Option ContextError × Nat) :=
  heldUp ++ List.replicate 9 (none, 0)

def byteStruct (name field typeName : String) : Struct where
  name := name
  fields := [{ name := field, typeName, size := 1, align := 1 }]

theorem write_back_held :
    SourceFile.readAll (.startingAt 1) [("a.go", holderText)] = .ok (holderFiles, [holderFile]) ∧
      (check [holderFile] "a" "").1 = .ok holderScope ∧
      Sha1.CollisionFree (declaredPlaces [holderFile]) ∧
      ∃ s, (State.start true holderScope).follow .held heldThrough = some s ∧ s.tasks = [] ∧
        (∃ written, (reconciler (.ofRoot holderFiles) s.results).files (fun _ => none)
            [holderFile] = .ok (2, written) ∧
          (s.results.filterMap Applied.curated?).length = 2 ∧
          List.Forall₂ (WrittenBack (.ofRoot holderFiles) s.results) holderFile.specs
            (written.flatMap SourceFile.specs)) ∧
        ∀ a ∈ s.results, ∃ t ∈ holderFile.specs,
          (Locator.ofRoot holderFiles).identity t.pos = a.id ∧ t.name = a.origin.name := by
  have hread : SourceFile.readAll (.startingAt 1) [("a.go", holderText)] =
      .ok (holderFiles, [holderFile]) := by cbv
  have hcheck : (check [holderFile] "a" "").1 = .ok holderScope := by cbv
  have hplaces : declaredPlaces [holderFile] = ["a.go/2:6", "a.go/3:6"] := by cbv
  have hsha : Sha1.CollisionFree (declaredPlaces [holderFile]) := hplaces ▸ collisionFree_lines
  let known := [((Locator.ofRoot holderFiles).identity 35, some (byteStruct "I" "b" "bool")),
    ((Locator.ofRoot holderFiles).identity 16, some (byteStruct "O" "i" "I"))]
  have hknown : (known.map Prod.fst).Nodup := by decide +kernel
  have hfollow : ((State.start true holderScope).follow .held heldThrough).map
      (fun s => (s.tasks.length, s.results.map fun a => (a.id, a.curated?))) =
      some (0, known) := by
    decide +kernel
  obtain ⟨s, hs, hw⟩ := Option.map_eq_some_iff.mp hfollow
  obtain ⟨hlen, hresults⟩ := Prod.mk.inj hw
  have hend := List.eq_nil_of_length_eq_zero hlen
  have hwritten : ∃ written, (reconciler (.ofRoot holderFiles) s.results).files (fun _ => none)
      [holderFile] = .ok (2, written) := by
    let o := holderSpec "O" 16 [⟨["i"], 25, .ref none "I", "I", none, [], []⟩] 17 28 10
    let i := holderSpec "I" 35 [⟨["b"], 44, .ref none "bool", "bool", none, [], []⟩] 36 50 29
    have ho : (reconciler (.ofRoot holderFiles) s.results).result? o =
        some (byteStruct "O" "i" "I") :=
      result?_of_map hresults hknown (.tail _ (.head _))
    have hi : (reconciler (.ofRoot holderFiles) s.results).result? i =
        some (byteStruct "I" "b" "bool") :=
      result?_of_map hresults hknown (.head _)
    have hso : o.sync (byteStruct "O" "i" "I") = .ok { o with modified := true } := by cbv
    have hsi : i.sync (byteStruct "I" "b" "bool") = .ok { i with modified := true } := by cbv
    have hspecs : holderFile.specs = [o, i] := rfl
    simp only [Reconciler.files, hspecs, Reconciler.specs, ho, hi, hso, hsi]
    exact ⟨_, rfl⟩
  obtain ⟨written, hwritten⟩ := hwritten
  obtain ⟨-, hok, hone⟩ := write_back (l := .ofRoot holderFiles) hread (by decide) (by decide) hsha
    hcheck rfl rfl (reaches_of_follow hs) hend fun _ => none
  obtain ⟨-, hcount, hall⟩ := hok 2 written hwritten
  refine ⟨hread, hcheck, hsha, s, hs, hend, ⟨written, hwritten, hcount.symm, hall⟩, fun a ha => ?_⟩
  obtain ⟨t, ht, hid, hname, -⟩ := hone a ha
  exact ⟨t, ht, hid, hname⟩

/-! A type that is declared with the name of a struct type is visited, too. -/

def renamedText : List Char :=
  "package a\ntype A struct\x7bb bool\x7d\ntype B A\n".toList

def renamedFiles : FileSet :=
  ⟨43, [⟨"a.go", 1, 41, [0, 10, 32, 41]⟩]⟩

def renamedFile : SourceFile where
  path := "a.go"
  package := "a"
  text := ⟨renamedText, ⟨"a.go", 1, 41, [0, 10, 32, 41]⟩⟩
  root :=
    { span := ⟨0, 41⟩
      specs := [holderSpec "A" 16 [⟨["b"], 25, .ref none "bool", "bool", none, [], []⟩] 17 31 10,
        { holderSpec "B" 38 [] 39 40 32 with ty := .ref none "A" }] }

def renamedScope : Scope :=
  let fields : List TyField := [⟨"b", .basic .bool, "", false, false⟩]
  { kind := .package "a" ""
    types := [("A", ⟨"A", 16, false, .named "A" 16 (.struct fields)⟩),
      ("B", ⟨"B", 38, false, .named "B" 38 (.struct fields)⟩)] }

def Setting.renamed : Setting :=
  { Setting.lines with identity := (Locator.ofRoot renamedFiles).identity }

theorem write_back_renamed :
    SourceFile.readAll (.startingAt 1) [("a.go", renamedText)] =
        .ok (renamedFiles, [renamedFile]) ∧
      (check [renamedFile] "a" "").1 = .ok renamedScope ∧
      Sha1.CollisionFree (declaredPlaces [renamedFile]) ∧
      ∃ s, (State.start true renamedScope).follow .renamed (List.replicate 14 (none, 0)) = some s ∧
        s.tasks = [] ∧ (∀ a ∈ s.results, ∃ st, a.result = .ok st) ∧
        (reconciler (.ofRoot renamedFiles) s.results).files (fun _ => none) [renamedFile] =
          .error (.sync (.notStruct "B")) := by
  have hread : SourceFile.readAll (.startingAt 1) [("a.go", renamedText)] =
      .ok (renamedFiles, [renamedFile]) := by cbv
  have hcheck : (check [renamedFile] "a" "").1 = .ok renamedScope := by cbv
  have hplaces : declaredPlaces [renamedFile] = ["a.go/2:6", "a.go/3:6"] := by cbv
  let known := [((Locator.ofRoot renamedFiles).identity 16, some (byteStruct "A" "b" "bool")),
    ((Locator.ofRoot renamedFiles).identity 38, some (byteStruct "B" "b" "bool"))]
  have hknown : (known.map Prod.fst).Nodup := by decide +kernel
  have hfollow : ((State.start true renamedScope).follow .renamed
      (List.replicate 14 (none, 0))).map
      (fun s => (s.tasks.length, s.results.map fun a => (a.id, a.curated?))) =
      some (0, known) := by
    decide +kernel
  obtain ⟨s, hs, hw⟩ := Option.map_eq_some_iff.mp hfollow
  obtain ⟨hlen, hresults⟩ := Prod.mk.inj hw
  refine ⟨hread, hcheck, hplaces ▸ collisionFree_lines, s, hs, List.eq_nil_of_length_eq_zero hlen,
    fun a ha => ?_, ?_⟩
  · have hmem : (a.id, a.curated?) ∈ known := hresults ▸ List.mem_map_of_mem ha
    simp only [known, List.mem_cons, List.not_mem_nil, Prod.mk.injEq, or_false] at hmem
    rcases hmem with ⟨-, hst⟩ | ⟨-, hst⟩
    · exact ⟨_, Applied.curated?_eq_some.mp hst⟩
    · exact ⟨_, Applied.curated?_eq_some.mp hst⟩
  · let a := holderSpec "A" 16 [⟨["b"], 25, .ref none "bool", "bool", none, [], []⟩] 17 31 10
    let b := { holderSpec "B" 38 [] 39 40 32 with ty := .ref none "A" }
    have ha : (reconciler (.ofRoot renamedFiles) s.results).result? a =
        some (byteStruct "A" "b" "bool") :=
      result?_of_map hresults hknown (.head _)
    have hb : (reconciler (.ofRoot renamedFiles) s.results).result? b =
        some (byteStruct "B" "b" "bool") :=
      result?_of_map hresults hknown (.tail _ (.head _))
    have hsa : a.sync (byteStruct "A" "b" "bool") = .ok { a with modified := true } := by cbv
    have hsb : b.sync (byteStruct "B" "b" "bool") = .error (.notStruct "B") := by cbv
    have hspecs : renamedFile.specs = [a, b] := rfl
    simp only [Reconciler.files, hspecs, Reconciler.specs, ha, hb, hsa, hsb]
    rfl

end Visit

end StructLayout
