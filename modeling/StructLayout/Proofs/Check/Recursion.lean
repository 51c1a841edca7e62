import Mathlib
import StructLayout.Proofs.Check.Denotation
import StructLayout.Proofs.OrderedMap
import StructLayout.Proofs.Source.Positions

/-!
Checking a package fails with a recursive type exactly if some declaration of it is made of itself.
Otherwise every declared name is bound to a type.
-/

namespace StructLayout

/-! ## Runs that may fail -/

namespace Check

variable {α β : Type} {m : Check α} {f : α → Check β} {c : Checked} {E : CheckError → Prop}
  {Q Q' : α → Checked → Prop} {P : β → Checked → Prop}

/-- Checking on from `c` ends with `Q`, or fails with `E`. -/
def Ends (m : Check α) (c : Checked) (E : CheckError → Prop) (Q : α → Checked → Prop) : Prop :=
  match m.run.run c with
  | (.ok a, c') => Q a c'
  | (.error e, _) => E e

theorem ends_pure {a : α} (h : Q a c) : Ends (pure a) c E Q :=
  h

theorem Ends.imp (hm : Ends m c E Q) (h : ∀ a c', Q a c' → Q' a c') : Ends m c E Q' := by
  unfold Ends at hm ⊢
  generalize m.run.run c = r at hm
  obtain ⟨e | a, c'⟩ := r
  · exact hm
  · exact h a c' hm

theorem Ends.bind (hm : Ends m c E Q) (hf : ∀ a c', Q a c' → Ends (f a) c' E P) :
    Ends (m >>= f) c E P := by
  unfold Ends at hm ⊢
  rw [bind_run]
  generalize m.run.run c = r at hm
  obtain ⟨e | a, c'⟩ := r
  · exact hm
  · exact hf a c' hm

end Check

/-! ## What is bound -/

mutual

/-- Every name that a block declares is bound to a declaration of that name in the block, and only
blocks that declare nothing have no scope. -/
inductive Bound : Block → Scope → Prop
  | mk {span specs consts blocks kind types children} :
      (∀ t ∈ specs, ∃ o, types.lookup t.name = some o ∧ o.name = t.name ∧
        o.key ∈ specs.map TypeSpec.key) →
      BoundIn blocks children → Bound ⟨span, specs, consts, blocks⟩ ⟨kind, types, children⟩

inductive BoundIn : List Block → List Scope → Prop
  | nil : BoundIn [] []
  | skip {b bs ss} : b.allSpecs = [] → BoundIn bs ss → BoundIn (b :: bs) ss
  | cons {b s bs ss} : Bound b s → BoundIn bs ss → BoundIn (b :: bs) (s :: ss)

end

theorem BoundIn.append {bs bs' : List Block} {ss ss' : List Scope} (h : BoundIn bs ss)
    (h' : BoundIn bs' ss') : BoundIn (bs ++ bs') (ss ++ ss') := by
  match h with
  | .nil => exact h'
  | .skip hb h => exact .skip hb (h.append h')
  | .cons hs h => exact .cons hs (h.append h')

theorem BoundIn.allSpecs_eq_nil {bs : List Block} (h : BoundIn bs []) :
    Block.allSpecsIn bs = [] := by
  match h with
  | .nil => rfl
  | .skip hb h => rw [Block.allSpecsIn, hb, h.allSpecs_eq_nil, List.append_nil]

/-- An object is the declaration of a site, with the type that it stands for. -/
structure Site.Declares (x : Site) (o : TypeName) : Prop where
  key : o.key = x.decl.spec.key
  isAlias : o.isAlias = x.decl.spec.isAlias
  denotes : DeclDenotes x.env x.decl o.ty

/-- Some declaration is made of itself. -/
def Fails (sites : List Site) (e : CheckError) : Prop :=
  ∃ x ∈ sites, x.Cyclic ∧ e = .recursiveType x.name x.decl.position

/-- No declaration leaves its size open. -/
def AllSized (sites : List Site) : Prop :=
  ∀ x ∈ sites, x.isSized = true

/-- What checking a block with the declarations `own` comes to. -/
structure Covers (sites own : List Site) (b : Block) (s : Scope) (c : Checked) : Prop where
  sound : Sound sites c.cache
  objects : ∀ o ∈ s.allObjects, ∃ x ∈ sites, x.Declares o
  denoted : AllSized sites → ∀ x ∈ own, ∃ ty, DeclDenotes x.env x.decl ty
  bound : AllSized sites → Bound b s

/-- The same for several blocks. -/
structure CoversIn (sites own : List Site) (bs : List Block) (ss : List Scope) (c : Checked) :
    Prop where
  sound : Sound sites c.cache
  objects : ∀ o ∈ Scope.allObjectsIn ss, ∃ x ∈ sites, x.Declares o
  denoted : AllSized sites → ∀ x ∈ own, ∃ ty, DeclDenotes x.env x.decl ty
  bound : AllSized sites → BoundIn bs ss

section

variable {sites own own' : List Site} {b : Block} {bs bs' : List Block} {s : Scope}
  {ss ss' : List Scope} {c c' : Checked}

theorem CoversIn.nil (hc : Sound sites c.cache) : CoversIn sites [] [] [] c :=
  ⟨hc, List.forall_mem_nil _, fun _ => List.forall_mem_nil _, fun _ => .nil⟩

theorem CoversIn.append (h : CoversIn sites own bs ss c) (h' : CoversIn sites own' bs' ss' c') :
    CoversIn sites (own ++ own') (bs ++ bs') (ss ++ ss') c' where
  sound := h'.sound
  objects := by
    rw [Scope.allObjectsIn_eq, List.flatMap_append, List.forall_mem_append, ← Scope.allObjectsIn_eq,
      ← Scope.allObjectsIn_eq]
    exact ⟨h.objects, h'.objects⟩
  denoted := fun hs => List.forall_mem_append.mpr ⟨h.denoted hs, h'.denoted hs⟩
  bound := fun hs => (h.bound hs).append (h'.bound hs)

theorem Bound.allSpecs_eq_nil (h : Bound b s) (hs : s.isEmpty = true) : b.allSpecs = [] := by
  obtain ⟨hspecs, hin⟩ := h
  rename_i specs _ _ _ types children
  rw [Scope.isEmpty, Bool.and_eq_true, List.isEmpty_iff, List.isEmpty_iff] at hs
  obtain ⟨rfl, rfl⟩ : types = [] ∧ children = [] := hs
  have : specs = [] := by
    refine List.eq_nil_iff_forall_not_mem.mpr fun t ht => ?_
    obtain ⟨o, ho, -⟩ := hspecs t ht
    cases ho
  rw [Block.allSpecs, this, hin.allSpecs_eq_nil, List.append_nil]

/-- A block without declarations has no scope. -/
theorem Covers.single (h : Covers sites own b s c) :
    CoversIn sites own [b] (if s.isEmpty then none else some s).toList c := by
  split
  · rename_i he
    exact ⟨h.sound, List.forall_mem_nil _, h.denoted,
      fun hs => .skip ((h.bound hs).allSpecs_eq_nil he) .nil⟩
  · refine ⟨h.sound, ?_, h.denoted, fun hs => .cons (h.bound hs) .nil⟩
    rw [Option.toList, Scope.allObjectsIn, Scope.allObjectsIn, List.append_nil]
    exact h.objects

end

namespace Check

variable {sites own : List Site} {pending : List Nat} {env : List Frame} {c c' : Checked}

/-! ## Resolving and declaring -/

theorem resolve_run (d : Declared) : (resolve pending env d).run.run c =
    match resolveDecl pending env c.cache d with
    | (.ok ty, cache) => (.ok (some ty), { c with cache })
    | (.error (.recursive name position), cache) =>
      (.error (.recursiveType name position), { c with cache })
    | (.error (.skip reason), cache) =>
      (.ok none, { cache, warnings := c.warnings ++ [⟨d.position, d.spec.name, reason⟩] }) := by
  have hget : (get : Check Checked).run.run c = (.ok c, c) := rfl
  have hset (c' : Checked) : (set c' : Check PUnit).run.run c = (.ok ⟨⟩, c') := rfl
  simp only [resolve, bind_run, hget, hset]
  generalize resolveDecl pending env c.cache d = r
  obtain ⟨(_ | _) | ty, cache⟩ := r <;> rfl

/-- What resolving a declaration comes to if nothing else is being resolved. -/
structure Outcome (sites : List Site) (x : Site) (o : Option Ty) (c : Checked) : Prop where
  sound : Sound sites c.cache
  some : ∀ ty, o = some ty → DeclDenotes x.env x.decl ty
  none : o = none → ¬ AllSized sites

theorem resolve_ends (hs : Closed sites) (hp : ∀ x ∈ sites, x.pos ∈ pending) {x : Site}
    (hx : x ∈ sites) (hc : Sound sites c.cache) :
    Ends (resolve pending x.env x.decl) c (Fails sites) (Outcome sites x) := by
  have hr := resolveDecl_resolves hs pending hx (fun z hz hn => absurd (hp z hz) hn) hc
  unfold Ends
  rw [resolve_run]
  generalize resolveDecl pending x.env c.cache x.decl = r at hr
  obtain ⟨(⟨name, position⟩ | reason) | ty, cache⟩ := r
  · obtain ⟨y, hy, hcyclic, rfl, rfl⟩ := hr.recursive name position rfl
    exact ⟨y, hy, hcyclic, rfl⟩
  · refine ⟨hr.sound, nofun, fun _ hall => ?_⟩
    obtain ⟨y, hy, hopen⟩ := hr.skip reason rfl trivial
    exact absurd (hall y hy) (by rw [hopen]; decide)
  · refine ⟨hr.sound, ?_, nofun⟩
    rintro _ ⟨⟩
    exact hr.ok ty rfl

/-- What a scope has after declaring more types in it. -/
structure Enters (sites : List Site) (env : List Frame) (ds : List Declared) (old new : Scope)
    (c : Checked) : Prop where
  sound : Sound sites c.cache
  entries : ∀ e ∈ new.types, e ∈ old.types ∨
    ∃ d ∈ ds, e.1 = d.spec.name ∧ (⟨d, env⟩ : Site).Declares e.2
  kept : ∀ name, (old.types.lookup name).isSome = true → (new.types.lookup name).isSome = true
  denoted : AllSized sites → ∀ d ∈ ds, ∃ ty, DeclDenotes env d ty
  bound : AllSized sites → ∀ d ∈ ds, (new.types.lookup d.spec.name).isSome = true

variable {d : Declared} {ds : List Declared} {old new : Scope}

/-- A declaration without a type is left out. -/
theorem Enters.leave (h : Enters sites env ds old new c) (hall : ¬ AllSized sites) :
    Enters sites env (d :: ds) old new c where
  sound := h.sound
  entries := fun e he => (h.entries e he).imp_right
    fun ⟨d', hd', hkey⟩ => ⟨d', List.mem_cons_of_mem d hd', hkey⟩
  kept := h.kept
  denoted := fun hs => absurd hs hall
  bound := fun hs => absurd hs hall

theorem Enters.enter {ty : Ty} (hd : DeclDenotes env d ty)
    (h : Enters sites env ds
      (old.declare { name := d.spec.name, pos := d.spec.pos, isAlias := d.spec.isAlias, ty })
      new c) : Enters sites env (d :: ds) old new c := by
  have hc : ∀ a b : String, compare a b = .eq → a = b := fun _ _ => Std.LawfulEqOrd.eq_of_compare
  refine ⟨h.sound, fun e he => ?_, fun name hn => ?_, fun hs => ?_, fun hs => ?_⟩
  · rcases h.entries e he with he | ⟨d', hd', hkey⟩
    · refine (OrderedMap.mem_of_mem_insert hc he).symm.imp_right ?_
      rintro rfl
      exact ⟨d, List.mem_cons_self, rfl, rfl, rfl, hd⟩
    · exact .inr ⟨d', List.mem_cons_of_mem d hd', hkey⟩
  · exact h.kept name (OrderedMap.isSome_lookup_insert hn)
  · exact List.forall_mem_cons.mpr ⟨⟨ty, hd⟩, h.denoted hs⟩
  · refine List.forall_mem_cons.mpr ⟨h.kept d.spec.name ?_, h.bound hs⟩
    exact Option.isSome_iff_exists.mpr
      ⟨_, OrderedMap.lookup_insert_self hc fun _ => Std.ReflOrd.compare_self⟩

theorem declare_ends (hs : Closed sites) (hp : ∀ x ∈ sites, x.pos ∈ pending)
    (hd : ∀ d ∈ ds, (⟨d, env⟩ : Site) ∈ sites) (hc : Sound sites c.cache) :
    Ends (declare pending env old ds) c (Fails sites) (Enters sites env ds old) := by
  induction ds generalizing old c with
  | nil =>
    exact ends_pure ⟨hc, fun e he => .inl he, fun _ h => h, fun _ => List.forall_mem_nil _,
      fun _ => List.forall_mem_nil _⟩
  | cons d ds ih =>
    obtain ⟨hx, hds⟩ := List.forall_mem_cons.mp hd
    unfold declare
    split
    · rename_i hgeneric
      refine (ih hds hc).imp fun _ _ h => h.leave fun hall => ?_
      have := hall _ hx
      rw [Site.isSized, hgeneric] at this
      cases this
    · refine (resolve_ends hs hp hx hc).bind fun o c₁ ho => ?_
      cases o with
      | none => exact (ih hds ho.sound).imp fun _ _ h => h.leave (ho.none rfl)
      | some ty => exact (ih hds ho.sound).imp fun _ _ h => h.enter (ho.some ty rfl)

/-- The scope of a block, from its own declarations and the scopes inside. -/
theorem Enters.covers {kind : ScopeKind} {children : List Scope} {blocks : List Block}
    (span : Span) (consts : List ConstSpec) (hd : ∀ d ∈ ds, (⟨d, env⟩ : Site) ∈ sites)
    (h : Enters sites env ds { kind } new c) (hin : CoversIn sites own blocks children c') :
    Covers sites (ds.map (⟨·, env⟩) ++ own) ⟨span, ds.map Declared.spec, consts, blocks⟩
      { new with children } c' := by
  have hentries : ∀ e ∈ new.types, ∃ d ∈ ds, e.1 = d.spec.name ∧
      (⟨d, env⟩ : Site).Declares e.2 :=
    fun e he => (h.entries e he).resolve_left (List.not_mem_nil)
  refine ⟨hin.sound, ?_, fun hs => ?_, fun hs => .mk ?_ (hin.bound hs)⟩
  · rw [Scope.allObjects_eq, List.forall_mem_append]
    refine ⟨List.forall_mem_map.mpr fun e he => ?_, hin.objects⟩
    obtain ⟨d, hm, -, hdeclares⟩ := hentries e he
    exact ⟨_, hd d hm, hdeclares⟩
  · exact List.forall_mem_append.mpr ⟨List.forall_mem_map.mpr (h.denoted hs), hin.denoted hs⟩
  · refine List.forall_mem_map.mpr fun d hm => ?_
    obtain ⟨o, ho⟩ := Option.isSome_iff_exists.mp (h.bound hs d hm)
    obtain ⟨d', hm', hname, hdeclares⟩ := hentries _ (mem_of_lookup ho)
    refine ⟨o, ho, ?_, ?_⟩
    · exact (Prod.mk.inj hdeclares.key).1.trans hname.symm
    · rw [hdeclares.key, List.map_map]
      exact List.mem_map_of_mem hm'

/-! ## Blocks -/

mutual

theorem block_ends (hs : Closed sites) (hp : ∀ x ∈ sites, x.pos ∈ pending) {env : List Frame}
    {file : FileInfo} {c : Checked} (hc : Sound sites c.cache) :
    (b : Block) → b.sites file env ⊆ sites →
      Ends (block pending env file b) c (Fails sites)
        fun o => CoversIn sites (b.sites file env) [b] o.toList
  | ⟨span, specs, consts, inner⟩, hsub => by
    rw [Block.sites, List.append_subset] at hsub
    have hd : ∀ d ∈ specs.map fun spec => (⟨spec, file⟩ : Declared), _ :=
      fun d hm => hsub.1 (List.mem_map_of_mem hm)
    have hspecs : (specs.map fun spec => (⟨spec, file⟩ : Declared)).map Declared.spec = specs := by
      rw [List.map_map]
      exact List.map_id specs
    rw [block]
    refine (declare_ends hs hp hd hc).bind fun scope c₁ hown => ?_
    refine (blocks_ends hs hp hown.sound inner hsub.2).bind fun children c₂ hin => ?_
    have := hown.covers span consts hd hin
    rw [hspecs] at this
    exact ends_pure this.single

theorem blocks_ends (hs : Closed sites) (hp : ∀ x ∈ sites, x.pos ∈ pending) {env : List Frame}
    {file : FileInfo} {c : Checked} (hc : Sound sites c.cache) :
    (bs : List Block) → Block.sitesIn file env bs ⊆ sites →
      Ends (blocks pending env file bs) c (Fails sites)
        (CoversIn sites (Block.sitesIn file env bs) bs)
  | [], _ => by
    rw [blocks]
    exact ends_pure (.nil hc)
  | b :: bs, hsub => by
    rw [Block.sitesIn, List.append_subset] at hsub
    rw [blocks]
    refine (block_ends hs hp hc b hsub.1).bind fun own c₁ hown => ?_
    refine (blocks_ends hs hp hown.sound bs hsub.2).bind fun others c₂ hothers => ?_
    exact ends_pure (hown.append hothers)

end

theorem allBlocks_ends (hs : Closed sites) (hp : ∀ x ∈ sites, x.pos ∈ pending)
    {files : List SourceFile} (hc : Sound sites c.cache)
    (hsub : (files.flatMap fun f => Block.sitesIn f.text.info env f.root.blocks) ⊆ sites) :
    Ends (allBlocks pending env files) c (Fails sites)
      (CoversIn sites (files.flatMap fun f => Block.sitesIn f.text.info env f.root.blocks)
        (files.flatMap fun f => f.root.blocks)) := by
  induction files generalizing c with
  | nil => exact ends_pure (.nil hc)
  | cons f fs ih =>
    rw [List.flatMap_cons, List.append_subset] at hsub
    rw [List.flatMap_cons, List.flatMap_cons]
    refine (blocks_ends hs hp hc f.root.blocks hsub.1).bind fun own c₁ hown => ?_
    exact (ih hown.sound hsub.2).bind fun others c₂ hothers => ends_pure (hown.append hothers)

end Check

/-! ## Packages -/

theorem redeclared?_eq_none {decls : List Declared} {seen : List String}
    (hn : ((decls.map fun d => d.spec.name).filter (· != "_")).Nodup)
    (hs : ∀ d ∈ decls, d.spec.name ≠ "_" → d.spec.name ∉ seen) : redeclared? seen decls = none := by
  induction decls generalizing seen with
  | nil => rfl
  | cons d ds ih =>
    obtain ⟨hd, hds⟩ := List.forall_mem_cons.mp hs
    unfold redeclared?
    by_cases hblank : d.spec.name = "_"
    · rw [if_pos hblank]
      rw [List.map_cons, List.filter_cons_of_neg (by simpa using hblank)] at hn
      exact ih hn hds
    · rw [if_neg hblank, if_neg (hd hblank)]
      rw [List.map_cons, List.filter_cons_of_pos (by simpa using hblank), List.nodup_cons] at hn
      refine ih hn.2 fun d' hd' hblank' hm => ?_
      rcases List.mem_cons.mp hm with he | hm
      · refine hn.1 (List.mem_filter.mpr ⟨?_, by simpa using hblank⟩)
        exact List.mem_map.mpr ⟨d', hd', he⟩
      · exact hds d' hd' hblank' hm

section

variable {files : List SourceFile} {name path : String}

theorem packageBlock_specs (files : List SourceFile) :
    (files.flatMap SourceFile.topDecls).map Declared.spec = (packageBlock files).specs := by
  simp [packageBlock, List.map_flatMap, SourceFile.topDecls, Function.comp_def]

theorem checkPackage_ends (name path : String) (hs : Closed (packageSites files))
    (hn : redeclared? [] (files.flatMap SourceFile.topDecls) = none) :
    Check.Ends (checkPackage files name path) {} (Fails (packageSites files))
      (Covers (packageSites files) (packageSites files) (packageBlock files)) := by
  have hp : ∀ x ∈ packageSites files, x.pos ∈ files.flatMap fun f => f.specs.map TypeSpec.pos := by
    intro x hx
    rw [← List.map_flatMap]
    exact (packageSites_pos_perm files).subset (List.mem_map_of_mem hx)
  have hd : ∀ d ∈ files.flatMap SourceFile.topDecls,
      (⟨d, [packageFrame files]⟩ : Site) ∈ packageSites files :=
    fun d hd => List.mem_append_left _ (List.mem_map_of_mem hd)
  unfold checkPackage
  dsimp only
  rw [hn]
  refine (Check.declare_ends hs hp hd (sound_nil _)).bind fun scope c₁ hown => ?_
  refine (Check.allBlocks_ends hs hp hown.sound (List.subset_append_right _ _)).bind
    fun children c₂ hin => ?_
  have := hown.covers ⟨0, 0⟩ [] hd hin
  rw [packageBlock_specs] at this
  exact Check.ends_pure this

theorem check_eq (files : List SourceFile) (name path : String) :
    (check files name path).1 = ((checkPackage files name path).run.run {}).1 :=
  rfl

/-- A package is checked only if no name is declared twice. -/
theorem redeclared?_of_check {scope : Scope} (h : (check files name path).1 = .ok scope) :
    redeclared? [] (files.flatMap SourceFile.topDecls) = none := by
  cases hd : redeclared? [] (files.flatMap SourceFile.topDecls) with
  | none => rfl
  | some d =>
    rw [check_eq, checkPackage] at h
    dsimp only at h
    rw [hd] at h
    cases h

/-- The objects of a checked package are declarations of it, each with the type that it stands
for. -/
theorem check_declares {scope : Scope}
    (hpos : ((files.flatMap SourceFile.specs).map TypeSpec.pos).Nodup)
    (h : (check files name path).1 = .ok scope) :
    ∀ o ∈ scope.allObjects, ∃ x ∈ packageSites files, x.Declares o := by
  have hn := redeclared?_of_check h
  have hends := checkPackage_ends name path (packageSites_closed hpos) hn
  rw [check_eq] at h
  unfold Check.Ends at hends
  generalize (checkPackage files name path).run.run {} = r at h hends
  obtain ⟨outcome, c⟩ := r
  cases h
  exact hends.objects

/-- A package without generic types in which every size can be found is checked without a result
exactly if some declaration is made of itself, and that is what the failure says. Otherwise all
declared names are bound, in nested blocks too. -/
theorem check_recursive_iff {start fs : FileSet} {sources : List (String × List Char)}
    (hread : SourceFile.readAll start sources = .ok (fs, files))
    (hnames : (((files.flatMap SourceFile.topDecls).map fun d => d.spec.name).filter
      (· != "_")).Nodup)
    (hsized : ∀ x ∈ packageSites files, x.isSized = true) :
    ((∃ recursive position, (check files name path).1 = .error (.recursiveType recursive position)) ↔
        ∃ x ∈ packageSites files, x.Cyclic) ∧
      (∀ e, (check files name path).1 = .error e →
        ∃ x ∈ packageSites files, x.Cyclic ∧ e = .recursiveType x.name x.decl.position) ∧
      ((¬ ∃ x ∈ packageSites files, x.Cyclic) → ∃ scope, (check files name path).1 = .ok scope ∧
        Bound (packageBlock files) scope ∧
        ∀ o ∈ scope.allObjects, ∃ x ∈ packageSites files, x.Declares o) := by
  have hs := packageSites_closed (SourceFile.readAll_pos_nodup hread).1
  have hends := checkPackage_ends name path hs
    (redeclared?_eq_none hnames fun _ _ _ => List.not_mem_nil)
  rw [check_eq]
  unfold Check.Ends at hends
  generalize (checkPackage files name path).run.run {} = r at hends
  obtain ⟨e | scope, c⟩ := r
  · obtain ⟨x, hx, hcyclic, rfl⟩ := hends
    refine ⟨⟨fun _ => ⟨x, hx, hcyclic⟩, fun _ => ⟨_, _, rfl⟩⟩, ?_, fun h => ?_⟩
    · rintro _ ⟨⟩
      exact ⟨x, hx, hcyclic, rfl⟩
    · exact absurd ⟨x, hx, hcyclic⟩ h
  · have hacyclic : ¬ ∃ x ∈ packageSites files, x.Cyclic := by
      rintro ⟨x, hx, hcyclic⟩
      obtain ⟨ty, hty⟩ := hends.denoted hsized x hx
      exact hty.not_cyclic hcyclic
    refine ⟨⟨fun h => ?_, fun h => absurd h hacyclic⟩, nofun, fun _ => ?_⟩
    · obtain ⟨_, _, h⟩ := h
      cases h
    · exact ⟨scope, rfl, hends.bound hsized, hends.objects⟩

end

/-! A package whose types hold nothing, with a function whose types hold each other: the inner `T`
is not the outer one. -/

def shadowingText : List Char :=
  "package a\ntype T int\nfunc f()\x7btype U struct\x7bt T\x7d;type T struct\x7bu U\x7d\x7d\n".toList

def shadowingInfo : FileInfo :=
  ⟨"a.go", 1, 69, [0, 10, 21, 69]⟩

def shadowingSpec (name : String) (pos : Nat) (ty : TypeExpr) (start stop doc : Nat) : TypeSpec where
  name := name
  pos := pos
  isAlias := false
  isGeneric := false
  ty := ty
  tySpan := ⟨start, stop⟩
  doc := []
  docSpan := ⟨doc, doc⟩
  comment := []
  commentSpan := ⟨stop, stop⟩
  indent := ""

def shadowingFile : SourceFile where
  path := "a.go"
  package := "a"
  text := ⟨shadowingText, shadowingInfo⟩
  root :=
    { span := ⟨0, 69⟩
      specs := [shadowingSpec "T" 16 (.ref none "int") 17 20 10]
      blocks :=
        [{ span := ⟨29, 68⟩
           specs :=
            [shadowingSpec "U" 36
              (.struct ⟨⟨37, 48⟩, [⟨["t"], 45, .ref none "T", "T", none, [], []⟩], [], "", none⟩)
              37 48 30,
             shadowingSpec "T" 55
              (.struct ⟨⟨56, 67⟩, [⟨["u"], 64, .ref none "U", "U", none, [], []⟩], [], "", none⟩)
              56 67 49] }] }

theorem check_recursive_iff_shadowing :
    SourceFile.readAll (.startingAt 1) [("a.go", shadowingText)] =
        .ok (⟨71, [shadowingInfo]⟩, [shadowingFile]) ∧
      (packageSites [shadowingFile]).map Site.name = ["T", "U", "T"] ∧
      (∀ x ∈ packageSites [shadowingFile], x.isSized = true) ∧
      (check [shadowingFile] "a" "").1 = .error (.recursiveType "U" ⟨"a.go", 35, 3, 15⟩) ∧
      ∃ x ∈ packageSites [shadowingFile], x.name = "U" ∧ x.Cyclic := by
  have hread : SourceFile.readAll (.startingAt 1) [("a.go", shadowingText)] =
      .ok (⟨71, [shadowingInfo]⟩, [shadowingFile]) := by cbv
  have hsized : ∀ x ∈ packageSites [shadowingFile], x.isSized = true :=
    List.all_eq_true.mp (by decide)
  have hcheck : (check [shadowingFile] "a" "").1 =
      .error (.recursiveType "U" ⟨"a.go", 35, 3, 15⟩) := by cbv
  obtain ⟨x, hx, hcyclic, he⟩ := (check_recursive_iff hread (by decide) hsized).2.1 _ hcheck
  injection he with hname
  exact ⟨hread, by decide, hsized, hcheck, x, hx, hname.symm, hcyclic⟩

end StructLayout
