import Mathlib
import StructLayout.Proofs.Package.Loading
import StructLayout.Proofs.Visit.Curation
import StructLayout.Proofs.Visit.WriteBack

/-!
Runs write all or nothing. All stages of a run come to their end before the first file is written: if
the context is done by then, or a structure cannot be curated, or a declaration cannot be written
back, then no file is written. If nothing of the kind happens, the files that declare curated
structures are written, and no others.
-/

namespace StructLayout

/-! ## Moments -/

/-- The moments of a run come one stage after the other; those of one stage in no fixed order. -/
def Moment.stage : Moment → Nat
  | .load => 0
  | .loadInner _ => 1
  | .visit => 2
  | .curated => 3
  | .reload => 4
  | .reconcile _ => 5
  | .rendered => 6
  | .write _ => 7

def Moment.writing : Nat := 7

/-- A context that is done at a stage is done at all later ones. -/
def Watch.Lasting (watch : Watch) : Prop :=
  ∀ m n : Moment, m.stage < n.stage → (watch m).isSome → (watch n).isSome

theorem Watch.Lasting.live {watch : Watch} (h : watch.Lasting) (hlive : watch .rendered = none)
    {m : Moment} (hm : m.stage < Moment.writing) : watch m = none := by
  rw [← Option.not_isSome_iff_eq_none] at hlive ⊢
  intro hdone
  rcases Nat.lt_or_eq_of_le (Nat.le_of_lt_succ hm) with hlt | heq
  · exact hlive (h m .rendered hlt hdone)
  · cases m <;> first | exact hlive hdone | cases heq

/-! ## Reconciling -/

theorem TypeSpec.modified_of_sync {t u : TypeSpec} {st : Struct} (h : t.sync st = .ok u) :
    u.modified = true := by
  unfold sync at h
  split at h
  · cases h
  · obtain ⟨fields, -, h⟩ := bind_eq_ok.mp h
    cases h
    rfl

namespace Reconciler

variable {r : Reconciler} {ts us : List TypeSpec} {status : SourceFile → Option ContextError}
  {fs gs : List SourceFile}

/-- A declaration with a result can be synced to it. -/
def Fits (r : Reconciler) (t : TypeSpec) : Prop :=
  ∀ st, r.result? t = some st → ∃ u, t.sync st = .ok u

theorem exists_specs : (∃ out, r.specs ts = .ok out) ↔ ∀ t ∈ ts, r.Fits t := by
  induction ts with
  | nil => exact iff_of_true ⟨_, rfl⟩ (List.forall_mem_nil _)
  | cons t ts ih =>
    rw [List.forall_mem_cons, ← ih, specs, Fits]
    cases hr : r.result? t with
    | none =>
      simp only [bind_eq_ok]
      constructor
      · rintro ⟨_, out, hout, -⟩
        exact ⟨by simp, out, hout⟩
      · rintro ⟨-, out, hout⟩
        exact ⟨_, out, hout, rfl⟩
    | some st =>
      simp only [bind_eq_ok, mapError_eq_ok, Option.some.injEq, forall_eq']
      constructor
      · rintro ⟨_, u, hu, out, hout, -⟩
        exact ⟨⟨u, hu⟩, out, hout⟩
      · rintro ⟨⟨u, hu⟩, out, hout⟩
        exact ⟨_, u, hu, out, hout, rfl⟩

theorem exists_files : (∃ out, r.files status fs = .ok out) ↔
    ∀ f ∈ fs, status f = none ∧ ∀ t ∈ f.specs, r.Fits t := by
  induction fs with
  | nil => exact iff_of_true ⟨_, rfl⟩ (List.forall_mem_nil _)
  | cons f fs ih =>
    rw [List.forall_mem_cons, ← ih, ← exists_specs, files]
    cases hstatus : status f with
    | some cause =>
      refine iff_of_false ?_ fun h => by cases h.1.1
      rintro ⟨_, h⟩
      cases h
    | none =>
      simp only [bind_eq_ok]
      constructor
      · rintro ⟨_, own, hown, out, hout, -⟩
        exact ⟨⟨trivial, own, hown⟩, out, hout⟩
      · rintro ⟨⟨-, own, hown⟩, out, hout⟩
        exact ⟨_, own, hown, out, hout, rfl⟩

/-- Files keep their places, each with its own declarations written back. -/
theorem files_forall₂ {count : Nat} (h : r.files status fs = .ok (count, gs)) :
    List.Forall₂ (fun f g => ∃ us, List.Forall₂ r.Writes f.specs us ∧ g = f.withSpecs us) fs gs := by
  induction fs generalizing count gs with
  | nil =>
    cases h
    exact .nil
  | cons f fs ih =>
    unfold files at h
    split at h
    · cases h
    · obtain ⟨⟨own, us⟩, hown, h⟩ := bind_eq_ok.mp h
      obtain ⟨⟨others, gs⟩, hothers, h⟩ := bind_eq_ok.mp h
      cases h
      exact .cons ⟨us, (specs_eq_ok hown).2, rfl⟩ (ih hothers)

theorem Writes.modified {t u : TypeSpec} (h : r.Writes t u) (ht : t.modified = false) :
    u.modified = (r.result? t).isSome := by
  unfold Writes at h
  split at h
  · rename_i hr
    rw [h, hr]
    exact ht
  · rename_i st hr
    rw [hr]
    exact TypeSpec.modified_of_sync h

theorem isModified_withSpecs {f : SourceFile} (hf : f.isModified = false)
    (h : List.Forall₂ r.Writes f.specs us) :
    (f.withSpecs us).isModified = f.specs.any fun t => (r.result? t).isSome := by
  rw [SourceFile.isModified, SourceFile.specs_withSpecs h.length_eq.symm]
  rw [SourceFile.isModified] at hf
  generalize f.specs = ts at h hf
  induction h with
  | nil => rfl
  | cons hw _ ih =>
    rw [List.any_cons, Bool.or_eq_false_iff] at hf
    rw [List.any_cons, List.any_cons, hw.modified hf.1, ih hf.2]

end Reconciler

/-! ## From outcomes to documents -/

theorem Applied.failure?_eq_none {outcomes : List Applied} :
    failure? outcomes = none ↔ ∀ a ∈ outcomes, ∃ st, a.result = .ok st := by
  rw [failure?, List.findSome?_eq_none_iff]
  refine forall₂_congr fun a _ => ?_
  cases a.result <;> simp

namespace Plan

variable {p : Plan} {watch : Watch} {pkg : Package} {arrived : List Applied} {docs : List Document}

theorem settle_eq_ok {results : Results} : settle watch arrived = .ok results ↔
    (∀ a ∈ arrived, ∃ st, a.result = .ok st) ∧ watch .curated = none ∧
      results = .ofApplied (Applied.sort arrived) := by
  have hsort : (∀ a ∈ arrived, ∃ st, a.result = .ok st) ↔
      Applied.failure? (Applied.sort arrived) = none := by
    rw [Applied.failure?_eq_none]
    exact forall_congr' fun a => imp_congr_left (Applied.sort_perm arrived).mem_iff.symm
  rw [hsort, settle]
  cases Applied.failure? (Applied.sort arrived) with
  | some e => simp
  | none => cases watch .curated <;> simp [eq_comm]

theorem printed_eq_ok {results : Results} : p.printed watch pkg results = .ok docs ↔
    watch .reload = none ∧ watch .rendered = none ∧
      ∃ count files, Reconciler.files ⟨pkg.locator, results.flat⟩ (fun f => watch (.reconcile f.path))
          pkg.sources.all = .ok (count, files) ∧
        docs = (files.filter SourceFile.isModified).map fun f => ⟨f.path, f.print p.print⟩ := by
  rw [printed]
  cases watch .reload with
  | some cause => exact iff_of_false (fun h => by cases h) (fun h => by cases h.1)
  | none =>
    simp only [bind_eq_ok]
    constructor
    · rintro ⟨⟨count, files⟩, hfiles, h⟩
      cases hr : watch .rendered with
      | some cause =>
        rw [hr] at h
        cases h
      | none =>
        rw [hr] at h
        cases h
        exact ⟨trivial, rfl, count, files, mapError_eq_ok.mp hfiles, rfl⟩
    · rintro ⟨-, hr, count, files, hfiles, rfl⟩
      rw [hr]
      exact ⟨(count, files), mapError_eq_ok.mpr hfiles, rfl⟩

/-- The documents that a run makes of the outcomes of its visit, which are given in the order that
they arrive in. -/
def rendered (p : Plan) (watch : Watch) (pkg : Package) (arrived : List Applied) :
    Except RunError (List Document) :=
  settle watch arrived >>= p.printed watch pkg

theorem rendered_eq_ok : p.rendered watch pkg arrived = .ok docs ↔
    (∀ a ∈ arrived, ∃ st, a.result = .ok st) ∧
      watch .curated = none ∧ watch .reload = none ∧ watch .rendered = none ∧
      ∃ count files, (Visit.reconciler pkg.locator arrived).files
          (fun f => watch (.reconcile f.path)) pkg.sources.all = .ok (count, files) ∧
        docs = (files.filter SourceFile.isModified).map fun f => ⟨f.path, f.print p.print⟩ := by
  simp only [rendered, bind_eq_ok, settle_eq_ok, printed_eq_ok]
  constructor
  · rintro ⟨_, ⟨hall, hcurated, rfl⟩, hprinted⟩
    exact ⟨hall, hcurated, hprinted⟩
  · rintro ⟨hall, hcurated, hprinted⟩
    exact ⟨_, ⟨hall, hcurated, rfl⟩, hprinted⟩

/-- What keeps a run from writing. -/
inductive Stopped (watch : Watch) (pkg : Package) (arrived : List Applied) : Prop where
  /-- The context is done before the first file is written. -/
  | context (m : Moment) (early : m.stage < Moment.writing) (done : (watch m).isSome)
  /-- A structure cannot be curated. -/
  | strategy (a : Applied) (arrives : a ∈ arrived) (cause : StrategyError)
      (fails : a.result = .error cause)
  /-- A declaration cannot be written back, in whatever file of whatever directory. -/
  | reconcile (f : SourceFile) (loaded : f ∈ pkg.sources.all) (t : TypeSpec) (declared : t ∈ f.specs)
      (a : Applied) (arrives : a ∈ arrived) (own : a.id = pkg.locator.identity t.pos) (st : Struct)
      (curated : a.result = .ok st) (cause : SyncError) (fails : t.sync st = .error cause)

theorem exists_rendered (hw : watch.Lasting) (hn : (arrived.map Applied.id).Nodup) :
    (∃ docs, p.rendered watch pkg arrived = .ok docs) ↔ ¬ Stopped watch pkg arrived := by
  constructor
  · rintro ⟨docs, h⟩ hstopped
    obtain ⟨hall, -, -, hrendered, count, files, hfiles, -⟩ := rendered_eq_ok.mp h
    cases hstopped with
    | context m early done =>
      rw [hw.live hrendered early] at done
      cases done
    | strategy a arrives cause fails =>
      obtain ⟨st, hst⟩ := hall a arrives
      cases hst.symm.trans fails
    | reconcile f loaded t declared a arrives own st curated cause fails =>
      have hr := (Visit.result?_reconciler hn).mpr ⟨a, arrives, own, curated⟩
      obtain ⟨u, hu⟩ := (Reconciler.exists_files.mp ⟨_, hfiles⟩ f loaded).2 t declared st hr
      cases hu.symm.trans fails
  · -- Each cause that a stage can fail for is one of those that stop a run.
    intro hgo
    have hall : ∀ a ∈ arrived, ∃ st, a.result = .ok st := by
      intro a ha
      cases hr : a.result with
      | ok st => exact ⟨st, rfl⟩
      | error cause => exact absurd (.strategy a ha cause hr) hgo
    have hlive (m : Moment) (hm : m.stage < Moment.writing) : watch m = none := by
      cases hwm : watch m with
      | none => rfl
      | some cause => exact absurd (.context m hm (by rw [hwm]; rfl)) hgo
    have hfits : ∀ f ∈ pkg.sources.all, watch (.reconcile f.path) = none ∧
        ∀ t ∈ f.specs, (Visit.reconciler pkg.locator arrived).Fits t := by
      intro f hf
      refine ⟨hlive _ (Nat.le_of_ble_eq_true rfl), fun t ht st hst => ?_⟩
      obtain ⟨a, ha, hid, hok⟩ := (Visit.result?_reconciler hn).mp hst
      cases hs : t.sync st with
      | ok u => exact ⟨u, rfl⟩
      | error cause => exact absurd (.reconcile f hf t ht a ha hid st hok cause hs) hgo
    obtain ⟨⟨count, files⟩, hfiles⟩ := Reconciler.exists_files.mpr hfits
    exact ⟨_, rendered_eq_ok.mpr ⟨hall, hlive _ (by decide), hlive _ (by decide), hlive _ (by decide),
      count, files, hfiles, rfl⟩⟩

/-- The file declares a structure that has been curated. -/
def Touches (pkg : Package) (arrived : List Applied) (f : SourceFile) : Bool :=
  f.specs.any fun t => arrived.any fun a => a.id == pkg.locator.identity t.pos

/-- A document is that of a file, with the curated structures in the place of its declarations. -/
def Renders (p : Plan) (pkg : Package) (arrived : List Applied) (f : SourceFile) (doc : Document) :
    Prop :=
  doc.path = f.path ∧ ∃ us, List.Forall₂ (Visit.WrittenBack pkg.locator arrived) f.specs us ∧
    doc.text = (f.withSpecs us).print p.print

theorem rendered_forall₂ (hn : (arrived.map Applied.id).Nodup)
    (hfresh : ∀ f ∈ pkg.sources.all, f.isModified = false)
    (h : p.rendered watch pkg arrived = .ok docs) :
    List.Forall₂ (p.Renders pkg arrived) (pkg.sources.all.filter (Touches pkg arrived)) docs := by
  obtain ⟨hall, -, -, -, count, files, hfiles, rfl⟩ := rendered_eq_ok.mp h
  have htouches (f : SourceFile) : Touches pkg arrived f =
      f.specs.any fun t => ((Visit.reconciler pkg.locator arrived).result? t).isSome := by
    refine congrArg (List.any f.specs) (funext fun t => Bool.eq_iff_iff.mpr ?_)
    rw [List.any_eq_true, Option.isSome_iff_exists]
    constructor
    · rintro ⟨a, ha, hid⟩
      obtain ⟨st, hst⟩ := hall a ha
      exact ⟨st, (Visit.result?_reconciler hn).mpr ⟨a, ha, beq_iff_eq.mp hid, hst⟩⟩
    · rintro ⟨st, hst⟩
      obtain ⟨a, ha, hid, -⟩ := (Visit.result?_reconciler hn).mp hst
      exact ⟨a, ha, beq_iff_eq.mpr hid⟩
  -- No file is modified when it is loaded, so those that are at the end have been written back to.
  have hwritten := (List.forall₂_and_left _ _).mpr ⟨hfresh, Reconciler.files_forall₂ hfiles⟩
  rw [List.forall₂_map_right_iff]
  refine List.Forall₂.imp ?_ (List.rel_filter ?_ hwritten)
  · rintro f _ ⟨-, us, hus, rfl⟩
    exact ⟨rfl, us, hus.imp fun _ _ => Visit.writtenBack_of_writes hn, rfl⟩
  · rintro f _ ⟨hf, us, hus, rfl⟩
    show Touches pkg arrived f = true ↔ (f.withSpecs us).isModified = true
    rw [htouches f, Reconciler.isModified_withSpecs hf hus]

end Plan

/-! ## Writing -/

def Disk.writeAll (disk : Disk) (files : List (String × String)) : Except FileError Disk :=
  files.foldlM (fun disk file => disk.write file.1 file.2) disk

/-- What comes of files that are to be written, in this order and each with its text. -/
structure Written.Comes (watch : Watch) (disk : Disk) (files : List (String × String))
    (out : Written × Disk) : Prop where
  /-- Who does not fail has written all of them and nothing else. -/
  finished : out.1.failure = none → out.1.files = files ∧ disk.writeAll files = .ok out.2
  /-- Nothing is written under a context that is done by then. -/
  done : (∀ file, (watch (.write file)).isSome) → out.1.files = [] ∧ out.2 = disk
  /-- As long as the context lasts, all that the disk takes is written. -/
  live : (∀ file, watch (.write file) = none) → ∀ disk', disk.writeAll files = .ok disk' →
    out = ({ files }, disk')

namespace Destination

variable {d : Destination} {watch : Watch} {disk disk' : Disk} {docs : List Document}

/-- The files that take some documents, with their texts. -/
def placed (d : Destination) (docs : List Document) : List (String × String) :=
  docs.filterMap fun doc => (d.target? doc.path).map (·, doc.text)

theorem placed_cons_none {doc : Document} (h : d.target? doc.path = none) :
    d.placed (doc :: docs) = d.placed docs :=
  List.filterMap_cons_none (by rw [h]; rfl)

theorem placed_cons_some {doc : Document} {path : String} (h : d.target? doc.path = some path) :
    d.placed (doc :: docs) = (path, doc.text) :: d.placed docs :=
  List.filterMap_cons_some (by rw [h]; rfl)

/-- A document keeps the rest from being written, or it has no file, or its file is written. -/
theorem write_cons (hd : d ≠ .stream) (watch : Watch) (disk : Disk) (doc : Document)
    (docs : List Document) :
    (∃ e, d.write watch disk (doc :: docs) = ({ failure := some e }, disk) ∧
      ((watch (.write doc.path)).isSome ∨
        ∃ path cause, d.target? doc.path = some path ∧ disk.write path doc.text = .error cause)) ∨
    (d.target? doc.path = none ∧ watch (.write doc.path) = none ∧
      d.write watch disk (doc :: docs) = d.write watch disk docs) ∨
    ∃ path next, d.target? doc.path = some path ∧ watch (.write doc.path) = none ∧
      disk.write path doc.text = .ok next ∧
      d.write watch disk (doc :: docs) = ({ (d.write watch next docs).1 with
        files := (path, doc.text) :: (d.write watch next docs).1.files },
          (d.write watch next docs).2) := by
  cases hw : watch (.write doc.path) with
  | some cause => exact .inl ⟨.context cause, by simp only [write, hw], .inl rfl⟩
  | none =>
    cases ht : d.target? doc.path with
    | none => exact .inr (.inl ⟨rfl, rfl, by simp only [write, hw, ht]⟩)
    | some path =>
      cases hnext : disk.write path doc.text with
      | error cause =>
        exact .inl ⟨.unwritable path cause, by simp only [write, hw, ht, hnext],
          .inr ⟨path, cause, rfl, hnext⟩⟩
      | ok next =>
        exact .inr (.inr ⟨path, next, rfl, rfl, hnext, by simp only [write, hw, ht, hnext]⟩)

theorem write_of_live (hd : d ≠ .stream) (hlive : ∀ doc ∈ docs, watch (.write doc.path) = none)
    (h : disk.writeAll (d.placed docs) = .ok disk') :
    d.write watch disk docs = ({ files := d.placed docs }, disk') := by
  induction docs generalizing disk with
  | nil =>
    cases h
    rfl
  | cons doc docs ih =>
    obtain ⟨hdoc, hdocs⟩ := List.forall_mem_cons.mp hlive
    rcases write_cons hd watch disk doc docs with
      ⟨e, -, hdone | ⟨path, cause, ht, herror⟩⟩ | ⟨ht, -, hw⟩ | ⟨path, next, ht, -, hnext, hw⟩
    · rw [hdoc] at hdone
      cases hdone
    · rw [placed_cons_some ht] at h
      obtain ⟨next, hnext, -⟩ := bind_eq_ok.mp h
      cases herror.symm.trans hnext
    · rw [placed_cons_none ht] at h ⊢
      rw [hw, ih hdocs h]
    · rw [placed_cons_some ht] at h ⊢
      obtain ⟨next', hnext', h⟩ := bind_eq_ok.mp h
      cases hnext.symm.trans hnext'
      rw [hw, ih hdocs h]

theorem write_of_done (hdone : ∀ doc ∈ docs, (watch (.write doc.path)).isSome) :
    (d.write watch disk docs).1.files = [] ∧ (d.write watch disk docs).2 = disk := by
  cases docs with
  | nil => exact ⟨rfl, rfl⟩
  | cons doc docs =>
    obtain ⟨cause, hcause⟩ := Option.isSome_iff_exists.mp (hdone doc List.mem_cons_self)
    simp only [write, hcause, and_self]

theorem write_of_finished (hd : d ≠ .stream) (h : (d.write watch disk docs).1.failure = none) :
    (d.write watch disk docs).1.files = d.placed docs ∧
      disk.writeAll (d.placed docs) = .ok (d.write watch disk docs).2 := by
  induction docs generalizing disk with
  | nil => exact ⟨rfl, rfl⟩
  | cons doc docs ih =>
    rcases write_cons hd watch disk doc docs with
      ⟨e, hw, -⟩ | ⟨ht, -, hw⟩ | ⟨path, next, ht, -, hnext, hw⟩
    · rw [hw] at h
      cases h
    · rw [hw] at h ⊢
      rw [placed_cons_none ht]
      exact ih h
    · rw [hw] at h ⊢
      obtain ⟨hfiles, hall⟩ := ih h
      rw [placed_cons_some ht, hfiles]
      exact ⟨rfl, bind_eq_ok.mpr ⟨next, hnext, hall⟩⟩

theorem comes_of_write (hd : d ≠ .stream) (watch : Watch) (disk : Disk) (docs : List Document) :
    Written.Comes watch disk (d.placed docs) (d.write watch disk docs) where
  finished := write_of_finished hd
  done := fun hdone => write_of_done fun doc _ => hdone doc.path
  live := fun hlive _ h => write_of_live hd (fun doc _ => hlive doc.path) h

end Destination

/-! ## Runs -/

namespace Plan

variable {p : Plan} {watch : Watch} {pkg : Package} {store after : Store} {warnings : List Warning}
  {arrived : List Applied} {disk : Disk}

/-- What a run writes for the outcomes of its visit. -/
def emitted (p : Plan) (watch : Watch) (pkg : Package) (disk : Disk) (arrived : List Applied) :
    Written × Disk :=
  match p.rendered watch pkg arrived with
  | .error e => ({ failure := some e }, disk)
  | .ok docs => p.emitter.destination.write watch disk docs

theorem run_of_load_error {cause : LoadError}
    (h : store.load watch p.package p.recursive = ((.error cause, warnings), after)) :
    p.run watch store = ({ failure := some (.load cause) }, warnings, after) := by
  rw [run, h]
  rfl

/-- A run emits what its own visit comes to. -/
theorem run_of_load_ok (hform : p.emitter.form = .sources)
    (h : store.load watch p.package p.recursive = ((.ok pkg, warnings), after)) :
    ∃ seen s, Visit.Reaches (p.visitor pkg.locator).setting (.start p.backref pkg.scope) seen s ∧
      p.run watch store = ((p.emitted watch pkg after.disk s.results).1, warnings,
        { after with disk := (p.emitted watch pkg after.disk s.results).2 }) := by
  obtain ⟨n, hn⟩ := Visit.reaches_run (p.visitor pkg.locator).setting (watch .visit)
    (.start p.backref pkg.scope)
  have hdocuments : (Except.mapError RunError.load (.ok pkg) >>= p.documents watch) =
      p.rendered watch pkg ((p.visitor pkg.locator).visit (watch .visit) p.backref pkg.scope) := by
    change p.documents watch pkg = _
    rw [documents, hform]
    rfl
  refine ⟨_, _, hn, ?_⟩
  rw [run, h]
  dsimp only
  rw [hdocuments, emitted, Visitor.visit]
  cases p.rendered watch pkg _ <;> rfl

/-- The file that takes what has become of a source file, with its text. -/
def Places (p : Plan) (pkg : Package) (arrived : List Applied) (f : SourceFile)
    (file : String × String) : Prop :=
  p.emitter.destination.target? f.path = some file.1 ∧
    ∃ us, List.Forall₂ (Visit.WrittenBack pkg.locator arrived) f.specs us ∧
      file.2 = (f.withSpecs us).print p.print

/-- The source files that declare a curated structure, as far as there are files to write them to. -/
def targeted (p : Plan) (pkg : Package) (arrived : List Applied) : List SourceFile :=
  pkg.sources.all.filter fun f =>
    (p.emitter.destination.target? f.path).isSome && Touches pkg arrived f

theorem placed_forall₂ {docs : List Document} {fs : List SourceFile}
    (h : List.Forall₂ (p.Renders pkg arrived) fs docs) :
    List.Forall₂ (p.Places pkg arrived)
      (fs.filter fun f => (p.emitter.destination.target? f.path).isSome)
      (p.emitter.destination.placed docs) := by
  induction h with
  | nil => exact .nil
  | @cons f doc fs docs hdoc _ ih =>
    obtain ⟨hpath, us, hus, htext⟩ := hdoc
    cases ht : p.emitter.destination.target? f.path with
    | none =>
      rw [List.filter_cons_of_neg (by simp [ht]), Destination.placed_cons_none (hpath ▸ ht)]
      exact ih
    | some path =>
      rw [List.filter_cons_of_pos (by simp [ht]), Destination.placed_cons_some (hpath ▸ ht)]
      exact .cons ⟨ht, us, hus, htext⟩ ih

/-- A run that is to write source files to files, under a context that stays done once it is. If
the package cannot be loaded, nothing is written. If it can, then whatever the schedule of the visit:
should the context be done before the first file is written, or a structure not be curated, or a
declaration of any file not be written back, then the run fails and nothing is written. Otherwise
the files to be written are those of the source files that declare a curated structure, each with the
text of its source file with the curated structures in it. -/
theorem run_all_or_nothing (hstore : store.Reachable) (hform : p.emitter.form = .sources)
    (hfiles : p.emitter.destination ≠ .stream) (hlasting : watch.Lasting) :
    (∀ cause, store.load watch p.package p.recursive = ((.error cause, warnings), after) →
      after.disk = store.disk ∧
        p.run watch store = ({ failure := some (.load cause) }, warnings, after)) ∧
    ∀ pkg, store.load watch p.package p.recursive = ((.ok pkg, warnings), after) →
      (∃ seen s, Visit.Reaches (p.visitor pkg.locator).setting (.start p.backref pkg.scope) seen s ∧
        p.run watch store = ((p.emitted watch pkg store.disk s.results).1, warnings,
          { after with disk := (p.emitted watch pkg store.disk s.results).2 })) ∧
      ∀ seen s, Visit.Reaches (p.visitor pkg.locator).setting (.start p.backref pkg.scope) seen s →
        (Stopped watch pkg s.results →
          ∃ e, p.emitted watch pkg store.disk s.results = ({ failure := some e }, store.disk)) ∧
        (¬ Stopped watch pkg s.results →
          ∃ files, List.Forall₂ (p.Places pkg s.results) (p.targeted pkg s.results) files ∧
            Written.Comes watch store.disk files (p.emitted watch pkg store.disk s.results)) := by
  have hkept := hstore.keeps SourceFile.unchanged_of_read
  refine ⟨fun cause hload => ?_, fun pkg hload => ?_⟩
  · exact ⟨(Store.load_forall SourceFile.unchanged_of_read hkept hload).1, run_of_load_error hload⟩
  · obtain ⟨hdisk, -, hfresh⟩ := Store.load_forall SourceFile.unchanged_of_read hkept hload
    refine ⟨hdisk ▸ run_of_load_ok hform hload, fun seen s h => ?_⟩
    have hn := (Visit.accounted_of_reaches h).results_nodup
    have hrendered : (∃ docs, p.rendered watch pkg s.results = .ok docs) ↔ _ :=
      exists_rendered hlasting hn
    unfold emitted
    cases hr : p.rendered watch pkg s.results with
    | error e =>
      refine ⟨fun _ => ⟨e, rfl⟩, fun hgo => ?_⟩
      obtain ⟨docs, hok⟩ := hrendered.mpr hgo
      cases hok.symm.trans hr
    | ok docs =>
      refine ⟨fun hstopped => absurd hstopped (hrendered.mp ⟨docs, hr⟩), fun _ => ?_⟩
      refine ⟨_, ?_, Destination.comes_of_write hfiles watch store.disk docs⟩
      have hplaced := placed_forall₂ (rendered_forall₂ hn (hfresh pkg rfl) hr)
      rwa [List.filter_filter] at hplaced

end Plan

/-! ## A run on two files -/

def FileInfo.declaring : FileInfo :=
  ⟨"/pkg/a.go", 1, 32, [0, 10, 32]⟩

def FileInfo.bare : FileInfo :=
  ⟨"/pkg/b.go", 34, 10, [0, 10]⟩

/-- A directory with two files, of which one declares a structure. -/
def Disk.twoFiles : Disk where
  root := "/pkg"
  tree := .directory
    [("a.go", .file (some "package a\ntype A struct\x7bb bool\x7d\n")),
     ("b.go", .file (some "package a\n"))]

def TypeSpec.plain : TypeSpec :=
  Visit.holderSpec "A" 16 [⟨["b"], 25, .ref none "bool", "bool", none, [], []⟩] 17 31 10

def SourceFile.declaring : SourceFile where
  path := "/pkg/a.go"
  package := "a"
  text := ⟨"package a\ntype A struct\x7bb bool\x7d\n".toList, .declaring⟩
  root := { span := ⟨0, 32⟩, specs := [.plain] }

def SourceFile.bare : SourceFile where
  path := "/pkg/b.go"
  package := "a"
  text := ⟨"package a\n".toList, .bare⟩
  root := { span := ⟨0, 10⟩ }

def Package.twoFiles : Package where
  scope :=
    { kind := .package "a" "/pkg"
      types := [("A", ⟨"A", 16, false,
        .named "A" 16 (.struct [⟨"b", .basic .bool, "", false, false⟩])⟩)] }
  sources := ⟨"a", "/pkg", [.declaring, .bare], []⟩
  locator := .ofRoot ⟨45, [.declaring, .bare]⟩

/-- A plan that marks structures as curated, in new files beside the old ones. -/
def Plan.marking : Plan :=
  { Visit.padded with
    package := "/pkg"
    pipe := [.transform (.markCurated .comment)]
    emitter := ⟨.sources, .beside "curated"⟩ }

def Struct.marked : Struct :=
  { Visit.byteStruct "A" "b" "bool" with comment := [Note.curated] }

def TypeSpec.marked : TypeSpec :=
  { plain with comment := [Note.curated], modified := true }

def markedText : String :=
  "package a\ntype A struct \x7b\n\tb bool\n\x7d // struct has been auto curated - layout-curator\n"

/-- A context that is cancelled as soon as all documents are there. -/
def Watch.late : Watch :=
  fun m => if m.stage < Moment.rendered.stage then none else some .cancelled

theorem Watch.steady_lasting (status : Option ContextError) : (steady status).Lasting :=
  fun _ _ _ h => h

theorem Watch.late_lasting : late.Lasting := by
  intro m n hlt hdone
  unfold late at hdone ⊢
  split at hdone
  · cases hdone
  · rw [if_neg (by omega)]
    rfl

theorem Store.load_twoFiles {watch : Watch} (h : watch .load = none) :
    Store.load { disk := .twoFiles } watch "/pkg" false =
      ((.ok .twoFiles, []), ⟨.twoFiles, [(([], false), .twoFiles)]⟩) := by
  unfold load
  rw [h]
  cbv

section

variable {arrived : List Applied} {a : Applied} {file : String × String}

theorem TypeSpec.sync_plain : TypeSpec.plain.sync .marked = .ok .marked := by
  cbv

theorem Plan.not_stopped_marking (hok : ∀ a ∈ arrived, a.result = .ok .marked) :
    ¬ Stopped (.steady none) .twoFiles arrived := by
  intro hstopped
  cases hstopped with
  | context m early done => cases done
  | strategy a arrives cause fails => cases (hok a arrives).symm.trans fails
  | reconcile f loaded t declared a arrives own st curated cause fails =>
    have ht : t ∈ [TypeSpec.plain] := List.mem_flatMap.mpr ⟨f, loaded, declared⟩
    cases (hok a arrives).symm.trans curated
    rw [List.mem_singleton.mp ht, TypeSpec.sync_plain] at fails
    cases fails

theorem Plan.target_marking :
    marking.emitter.destination.target? "/pkg/a.go" = some "/pkg/a.curated.go" := by
  decide +kernel

theorem Plan.targeted_marking (ha : a ∈ arrived) (hid : a.id = Package.twoFiles.locator.identity 16) :
    marking.targeted .twoFiles arrived = [.declaring] := by
  have htouches : Touches .twoFiles arrived .declaring = true :=
    List.any_eq_true.mpr ⟨.plain, List.mem_singleton.mpr rfl,
      List.any_eq_true.mpr ⟨a, ha, beq_iff_eq.mpr hid⟩⟩
  have hfirst : ((marking.emitter.destination.target? SourceFile.declaring.path).isSome &&
      Touches .twoFiles arrived .declaring) = true := by
    rw [htouches, show SourceFile.declaring.path = "/pkg/a.go" from rfl, target_marking]
    rfl
  have hsecond : ((marking.emitter.destination.target? SourceFile.bare.path).isSome &&
      Touches .twoFiles arrived .bare) = false :=
    Bool.and_false _
  show List.filter _ [SourceFile.declaring, .bare] = _
  simp only [List.filter_cons, List.filter_nil, hfirst, hsecond, if_true, Bool.false_eq_true, if_false]

theorem Plan.places_marking (ha : a ∈ arrived) (hid : a.id = Package.twoFiles.locator.identity 16)
    (hok : a.result = .ok .marked) (h : marking.Places .twoFiles arrived .declaring file) :
    file = ("/pkg/a.curated.go", markedText) := by
  obtain ⟨hpath, us, hus, htext⟩ := h
  have hprint : (SourceFile.declaring.withSpecs [.marked]).print marking.print = markedText := by cbv
  have hspecs : List.Forall₂ (Visit.WrittenBack Package.twoFiles.locator arrived)
      [TypeSpec.plain] us := hus
  cases hspecs with
  | cons hu hnil =>
    cases hnil
    cases TypeSpec.sync_plain.symm.trans (hu.1 a ha hid .marked hok)
    exact Prod.ext (Option.some.inj (hpath.symm.trans target_marking)) (htext.trans hprint)

end

theorem Plan.run_all_or_nothing_marking :
    ∃ s, (Visit.State.start true Package.twoFiles.scope).follow
        (marking.visitor Package.twoFiles.locator).setting (List.replicate 8 (none, 0)) = some s ∧
      (∃ disk, marking.emitted (.steady none) .twoFiles .twoFiles s.results =
        ({ files := [("/pkg/a.curated.go", markedText)] }, disk)) ∧
      ∃ e, marking.emitted .late .twoFiles .twoFiles s.results =
        ({ failure := some e }, .twoFiles) := by
  have hfollow : ((Visit.State.start true Package.twoFiles.scope).follow
      (marking.visitor Package.twoFiles.locator).setting (List.replicate 8 (none, 0))).map
        (fun s => s.results.map fun a => (a.id, a.curated?)) =
      some [(Package.twoFiles.locator.identity 16, some .marked)] := by
    decide +kernel
  obtain ⟨s, hs, hresults⟩ := Option.map_eq_some_iff.mp hfollow
  have hreaches := Visit.reaches_of_follow hs
  have hok : ∀ a ∈ s.results, a.result = .ok .marked := by
    intro a ha
    have hmem : (a.id, a.curated?) ∈ _ := hresults ▸ List.mem_map_of_mem ha
    exact Applied.curated?_eq_some.mp (Prod.mk.inj (List.mem_singleton.mp hmem)).2
  obtain ⟨a, ha, he⟩ := List.mem_map.mp (hresults ▸ List.mem_singleton.mpr rfl)
  have hid : a.id = Package.twoFiles.locator.identity 16 := (Prod.mk.inj he).1
  refine ⟨s, hs, ?_, ?_⟩
  · obtain ⟨-, hruns⟩ := (run_all_or_nothing (p := marking) (.start .twoFiles) rfl (by decide)
      (Watch.steady_lasting none)).2 _ (Store.load_twoFiles rfl)
    obtain ⟨files, hfiles, hcomes⟩ := (hruns _ s hreaches).2 (not_stopped_marking hok)
    rw [targeted_marking ha hid] at hfiles
    cases hfiles with
    | cons hplaced hnil =>
      cases hnil
      rw [places_marking ha hid (hok a ha) hplaced] at hcomes
      exact ⟨_, hcomes.live (fun _ => rfl) _ rfl⟩
  · obtain ⟨-, hruns⟩ := (run_all_or_nothing (p := marking) (.start .twoFiles) rfl (by decide)
      Watch.late_lasting).2 _ (Store.load_twoFiles rfl)
    exact (hruns _ s hreaches).1 (.context .rendered (by decide) rfl)

end StructLayout
