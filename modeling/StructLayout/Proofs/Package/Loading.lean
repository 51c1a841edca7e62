import StructLayout.Proofs.Check.Packages
import StructLayout.Proofs.Source.Positions
import StructLayout.Run.Outcome

/-!
What packages are loaded with. Whatever holds of every file that is read holds of all files of a
package, also when it comes out of a store that has been through other runs. In particular, no
declaration of a loaded package has been changed.
-/

namespace StructLayout

/-- `P` holds of every file that is read. -/
def SourceFile.OfRead (P : SourceFile → Prop) : Prop :=
  ∀ {info path chars f}, SourceFile.read info path chars = .ok f → P f

/-- A declaration is unchanged when it has been read. -/
theorem SourceFile.unchanged_of_read : OfRead fun f => f.isModified = false := by
  intro info path chars f h
  have hspecs : TypeSpec.OfRead { chars, info } fun t => t.modified = false := by
    intro anchor c seg t d _ _ _ h
    unfold TypeSpec.read at h
    obtain ⟨name, -, h⟩ := bind_eq_ok.mp h
    obtain ⟨isGeneric, -, h⟩ := bind_eq_ok.mp h
    obtain ⟨ty, -, h⟩ := bind_eq_ok.mp h
    cases h
    rfl
  rw [isModified, List.any_eq_false]
  intro t ht
  rw [(specs_forall hspecs h).2 t ht]
  decide

theorem PackageFiles.allOf_eq (ps : List PackageFiles) : allOf ps = ps.flatMap all := by
  induction ps with
  | nil => rfl
  | cons p ps ih => rw [allOf, List.flatMap_cons, ih]

/-! ## Packages -/

namespace Package

variable {P : SourceFile → Prop} {watch : Watch}

theorem readFiles_forall (hP : SourceFile.OfRead P) {path : String} {fs fs' : FileSet}
    {entries : List (String × FileTree)} {files : List SourceFile}
    (h : readFiles path fs entries = .ok (fs', files)) : ∀ f ∈ files, P f := by
  induction entries generalizing fs files with
  | nil =>
    cases h
    exact List.forall_mem_nil _
  | cons entry rest ih =>
    obtain ⟨name, text | inner⟩ := entry
    · unfold readFiles at h
      split at h
      · dsimp only at h
        split at h
        · cases h
        · obtain ⟨f, hf, h⟩ := bind_eq_ok.mp h
          obtain ⟨⟨fs₁, files⟩, hrest, h⟩ := bind_eq_ok.mp h
          cases h
          exact List.forall_mem_cons.mpr ⟨hP (mapError_eq_ok.mp hf), ih hrest⟩
      · exact ih h
    · exact ih h

theorem assemble_forall {path : String} {files : List SourceFile} {scope : Scope}
    {inner : List (Scope × PackageFiles)} (hfiles : ∀ f ∈ files, P f)
    (hinner : ∀ e ∈ inner, ∀ f ∈ e.2.all, P f) :
    ∀ f ∈ (assemble path files scope inner).2.all, P f := by
  rw [assemble, PackageFiles.all, PackageFiles.allOf_eq]
  refine List.forall_mem_append.mpr ⟨hfiles, fun f hf => ?_⟩
  obtain ⟨p, hp, hf⟩ := List.mem_flatMap.mp hf
  obtain ⟨e, he, rfl⟩ := List.mem_map.mp hp
  exact hinner e he f hf

mutual

theorem loadInner_forall (hP : SourceFile.OfRead P) {path : String} {c c' : Progress}
    {o : Option (Scope × PackageFiles)} :
    (t : FileTree) → (loadInner watch path t).run.run c = (.ok o, c') →
      ∀ e ∈ o.toList, ∀ f ∈ e.2.all, P f
  | .file _, h => by
    unfold loadInner at h
    cases h
    exact List.forall_mem_nil _
  | .directory entries, h => by
    obtain ⟨fs, files, scope, inner, _, _, hread, -, hinner, rfl⟩ := loadInner_eq_ok h
    split
    · exact List.forall_mem_nil _
    · exact List.forall_mem_singleton.mpr
        (assemble_forall (readFiles_forall hP hread) (loadEntries_forall hP entries hinner))

theorem loadEntries_forall (hP : SourceFile.OfRead P) {path : String} {c c' : Progress}
    {inner : List (Scope × PackageFiles)} :
    (entries : List (String × FileTree)) →
      (loadEntries watch path entries).run.run c = (.ok inner, c') →
      ∀ e ∈ inner, ∀ f ∈ e.2.all, P f
  | [], h => by
    unfold loadEntries at h
    cases h
    exact List.forall_mem_nil _
  | (name, t) :: rest, h => by
    rcases loadEntries_cons_eq_ok h with ⟨_, _, h⟩ | ⟨own, others, _, _, _, hown, hothers, rfl⟩
    · exact loadEntries_forall hP rest h
    · exact List.forall_mem_append.mpr
        ⟨loadInner_forall hP t hown, loadEntries_forall hP rest hothers⟩

end

/-- Whatever holds of the files that are read holds of all files of a package. -/
theorem load_forall (hP : SourceFile.OfRead P) {recursive : Bool} {path : String}
    {entries : List (String × FileTree)} {pkg : Package} {warnings : List Warning}
    (h : load watch recursive path entries = (.ok pkg, warnings)) : ∀ f ∈ pkg.sources.all, P f := by
  obtain ⟨_, hrun⟩ := loadTop_of_load h
  obtain ⟨fs, files, scope, inner, hread, -, hinner, -, hsources⟩ := loadTop_eq_ok hrun
  rw [hsources]
  refine assemble_forall (readFiles_forall hP hread) ?_
  rcases hinner with rfl | ⟨_, _, hinner⟩
  · exact List.forall_mem_nil _
  · exact loadEntries_forall hP entries hinner

end Package

/-! ## Stores -/

namespace Store

variable {P : SourceFile → Prop} {watch : Watch} {s after : Store} {path : String} {recursive : Bool}
  {outcome : Except LoadError Package} {warnings : List Warning}

/-- `P` holds of all files of the packages that are kept. -/
def Keeps (P : SourceFile → Prop) (s : Store) : Prop :=
  ∀ e ∈ s.packages, ∀ f ∈ e.2.sources.all, P f

/-- A load leaves the disk as it is. What holds of the files that are read holds of the files of the
package, be it a new one or one that was kept, and of those that are kept from then on. -/
theorem load_forall (hP : SourceFile.OfRead P) (hs : s.Keeps P)
    (h : s.load watch path recursive = ((outcome, warnings), after)) :
    after.disk = s.disk ∧ after.Keeps P ∧ ∀ pkg, outcome = .ok pkg → ∀ f ∈ pkg.sources.all, P f := by
  unfold load at h
  split at h
  · cases h
    exact ⟨rfl, hs, fun pkg h => by cases h⟩
  · split at h
    · split at h
      · rename_i kept hkept
        cases h
        refine ⟨rfl, hs, fun pkg h => ?_⟩
        cases h
        exact hs _ (mem_of_lookup hkept)
      · split at h
        · rename_i pkg _ hload
          cases h
          have hpkg := Package.load_forall hP hload
          refine ⟨rfl, List.forall_mem_cons.mpr ⟨hpkg, hs⟩, fun pkg h => ?_⟩
          cases h
          exact hpkg
        · cases h
          exact ⟨rfl, hs, fun pkg h => by cases h⟩
    · cases h
      exact ⟨rfl, hs, fun pkg h => by cases h⟩

/-- Stores that come about by runs and by changes to the disk. -/
inductive Reachable : Store → Prop where
  | start (disk : Disk) : Reachable { disk }
  | run {s : Store} (p : Plan) (watch : Watch) : Reachable s → Reachable (p.run watch s).2.2
  | change {s : Store} (disk : Disk) : Reachable s → Reachable { s with disk }

theorem run_packages (p : Plan) (watch : Watch) (s : Store) :
    (p.run watch s).2.2.packages = (s.load watch p.package p.recursive).2.packages := by
  unfold Plan.run
  dsimp only
  split <;> rfl

theorem Reachable.keeps (hP : SourceFile.OfRead P) (h : s.Reachable) : s.Keeps P := by
  induction h with
  | start disk => exact List.forall_mem_nil _
  | @run s p watch _ ih =>
    rw [Keeps, run_packages]
    exact (load_forall hP ih rfl).2.1
  | change disk _ ih => exact ih

end Store

end StructLayout
