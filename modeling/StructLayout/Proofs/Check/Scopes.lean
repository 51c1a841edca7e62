import StructLayout.Check
import StructLayout.Proofs.Check.Cache

/-!
The scopes that checking makes.
-/

namespace StructLayout

namespace Check

variable {R : Refers} {pending : List Nat} {env : List Frame} {c c' : Checked}

theorem resolve_eq_ok {d : Declared} {o : Option Ty}
    (h : (resolve pending env d).run.run c = (.ok o, c')) :
    c'.cache = (resolveDecl pending env c.cache d).2 ∧
      ∀ ty, o = some ty → resolveDecl pending env c.cache d = (.ok ty, c'.cache) := by
  unfold resolve at h
  obtain ⟨c₁, _, hget, h⟩ := bind_run_eq_ok.mp h
  cases hget
  obtain ⟨_, _, hset, h⟩ := bind_run_eq_ok.mp h
  cases hset
  generalize resolveDecl pending env c.cache d = r at h
  obtain ⟨(⟨name, position⟩ | reason) | ty, cache⟩ := r
  · cases h
  · cases h
    exact ⟨rfl, fun ty h => nomatch h⟩
  · cases h
    exact ⟨rfl, fun ty h => by cases h; rfl⟩

/-- Types that a cache has for their declarations. -/
def Cached (cache : TypeCache) (ts : List TypeName) : Prop :=
  ∀ t ∈ ts, cache.lookup t.pos = some t.ty

theorem Cached.grown {old new : TypeCache} {ts : List TypeName} (h : Cached old ts)
    (hg : Grown pending old new) : Cached new ts :=
  fun t ht => hg.kept _ _ (h t ht)

end Check

/-- Name and place of a declaration. -/
def TypeSpec.key (t : TypeSpec) : String × Nat :=
  (t.name, t.pos)

def TypeName.key (t : TypeName) : String × Nat :=
  (t.name, t.pos)

/-- A scope declares a type in place of another one or besides those that it has. -/
theorem Scope.declare_subperm (s : Scope) (t : TypeName) :
    (s.declare t).objects.Subperm (t :: s.objects) := by
  unfold declare objects
  dsimp only
  induction s.types with
  | nil => exact .refl _
  | cons e es ih =>
    unfold OrderedMap.insert
    split
    · exact .refl _
    · exact ((List.sublist_cons_self _ _).cons_cons _).subperm
    · exact ((List.subperm_cons _).mpr ih).trans (List.Perm.swap _ _ _).subperm


mutual

/-- A scope with types of declarations of a block, and with scopes of blocks inside of it. -/
inductive ScopeOf : Block → Scope → Prop
  | mk {span specs consts blocks kind types children} :
      (types.map fun e => e.2.key).Subperm (specs.map TypeSpec.key) → ScopesOf blocks children →
        ScopeOf ⟨span, specs, consts, blocks⟩ ⟨kind, types, children⟩

inductive ScopesOf : List Block → List Scope → Prop
  | nil : ScopesOf [] []
  | skip {b bs ss} : ScopesOf bs ss → ScopesOf (b :: bs) ss
  | cons {b s bs ss} : ScopeOf b s → ScopesOf bs ss → ScopesOf (b :: bs) (s :: ss)

end

theorem ScopesOf.append {bs bs' : List Block} {ss ss' : List Scope} (h : ScopesOf bs ss)
    (h' : ScopesOf bs' ss') : ScopesOf (bs ++ bs') (ss ++ ss') := by
  match h with
  | .nil => exact h'
  | .skip h => exact .skip (h.append h')
  | .cons hs h => exact .cons hs (h.append h')

namespace Block

variable {R : Refers}

mutual

/-- `R` lets each declaration refer to itself and to whatever those in sight may refer to; `outer`
are the places of those in sight from outside. -/
def Fits (R : Refers) (outer : List Nat) : Block → Prop
  | ⟨_, specs, _, blocks⟩ =>
    (∀ t ∈ specs, R t.pos t.name t.pos ∧
      ∀ p ∈ specs.map TypeSpec.pos ++ outer, ∀ name q, R p name q → R t.pos name q) ∧
    FitsIn R (specs.map TypeSpec.pos ++ outer) blocks

def FitsIn (R : Refers) (outer : List Nat) : List Block → Prop
  | [] => True
  | b :: bs => b.Fits R outer ∧ FitsIn R outer bs

end

end Block

namespace Check

variable {R : Refers} {pending : List Nat} {env : List Frame} {c c' : Checked}

/-- Declaring types adds the types of some of the declarations to the scope. -/
theorem declare_eq_ok {scope scope' : Scope} {ds : List Declared} (hn : Scoped R env)
    (hs : ∀ d ∈ ds, Sees R env d) (hc : Coherent R c.cache) (ho : Cached c.cache scope.objects)
    (h : (declare pending env scope ds).run.run c = (.ok scope', c')) :
    Grown pending c.cache c'.cache ∧ Coherent R c'.cache ∧ Cached c'.cache scope'.objects ∧
      scope'.children = scope.children ∧ (scope'.objects.map TypeName.key).Subperm
        (scope.objects.map TypeName.key ++ ds.map fun d => d.spec.key) := by
  induction ds generalizing scope c with
  | nil =>
    cases h
    exact ⟨.refl _ _, hc, ho, rfl, (List.sublist_append_left _ _).subperm⟩
  | cons d ds ih =>
    obtain ⟨hd, hs⟩ := List.forall_mem_cons.mp hs
    unfold declare at h
    split at h
    · obtain ⟨hg, hc', ho', hch, hk⟩ := ih hs hc ho h
      refine ⟨hg, hc', ho', hch, hk.trans ?_⟩
      exact ((List.sublist_cons_self _ _).append_left _).subperm
    · obtain ⟨o, c₁, hr, h⟩ := bind_run_eq_ok.mp h
      obtain ⟨hcache, hty⟩ := resolve_eq_ok hr
      have hg₁ : Grown pending c.cache c₁.cache := hcache ▸ resolveDecl_grown pending env _ d
      have hc₁ : Coherent R c₁.cache := hcache ▸ (resolveDecl_leaves pending hn hd hc).coherent
      cases o with
      | none =>
        obtain ⟨hg, hc', ho', hch, hk⟩ := ih hs hc₁ (ho.grown hg₁) h
        refine ⟨hg₁.trans hg, hc', ho', hch, hk.trans ?_⟩
        exact ((List.sublist_cons_self _ _).append_left _).subperm
      | some ty =>
        dsimp only at h
        generalize ht : (⟨d.spec.name, d.spec.pos, d.spec.isAlias, ty⟩ : TypeName) = t at h
        have hsub := scope.declare_subperm t
        have ho₁ : Cached c₁.cache (scope.declare t).objects := by
          intro u hu
          rcases List.mem_cons.mp (hsub.subset hu) with rfl | hu
          · subst ht
            exact lookup_of_resolveDecl (hty ty rfl)
          · exact ho.grown hg₁ u hu
        obtain ⟨hg, hc', ho', hch, hk⟩ := ih hs hc₁ ho₁ h
        refine ⟨hg₁.trans hg, hc', ho', hch, hk.trans ?_⟩
        have hkey : t.key = d.spec.key := by
          subst ht
          rfl
        have := (List.subperm_append_right (ds.map fun d => d.spec.key)).mpr
          (subperm_map hsub TypeName.key)
        refine this.trans ?_
        rw [List.map_cons, List.map_cons, hkey]
        exact List.perm_middle.symm.subperm

theorem mem_ofDecls {decls : List Declared} {consts : List ConstSpec} {e : String × Declared}
    (h : e ∈ (Frame.ofDecls decls consts).types) : e.2 ∈ decls := by
  obtain ⟨d, hd, rfl⟩ := List.mem_map.mp (List.mem_reverse.mp h)
  exact (List.mem_filter.mp hd).1

/-- The declarations of a block see each other and all that is in sight from outside. -/
theorem sees_ofDecls (decls : List Declared) (consts : List ConstSpec) {outer : List Nat}
    (hn : Scoped R env) (ho : ∀ d ∈ declared env, d.spec.pos ∈ outer)
    (hf : ∀ d ∈ decls, R d.spec.pos d.spec.name d.spec.pos ∧
      ∀ p ∈ (decls.map fun d => d.spec.pos) ++ outer, ∀ name q, R p name q → R d.spec.pos name q) :
    Scoped R (.ofDecls decls consts :: env) ∧
      (∀ d ∈ decls, Sees R (.ofDecls decls consts :: env) d) ∧
      ∀ d ∈ declared (.ofDecls decls consts :: env),
        d.spec.pos ∈ (decls.map fun d => d.spec.pos) ++ outer := by
  have hin : ∀ d ∈ declared (.ofDecls decls consts :: env),
      d.spec.pos ∈ (decls.map fun d => d.spec.pos) ++ outer := by
    intro d hd
    rw [declared, List.flatMap_cons, List.mem_append] at hd
    rcases hd with hd | hd
    · obtain ⟨e, he, rfl⟩ := List.mem_map.mp hd
      exact List.mem_append_left _ (List.mem_map.mpr ⟨_, mem_ofDecls he, rfl⟩)
    · exact List.mem_append_right _ (ho d hd)
  have hs : ∀ d ∈ decls, Sees R (.ofDecls decls consts :: env) d :=
    fun d hd => ⟨(hf d hd).1, fun d' hd' => (hf d hd).2 _ (hin d' hd')⟩
  exact ⟨⟨fun e he => hs _ (mem_ofDecls he), hn⟩, hs, hin⟩

mutual

theorem block_eq_ok {R : Refers} {pending : List Nat} {env : List Frame} {outer : List Nat}
    {file : FileInfo} {c c' : Checked} {o : Option Scope} (b : Block) (hf : b.Fits R outer)
    (hn : Scoped R env) (ho : ∀ d ∈ declared env, d.spec.pos ∈ outer) (hc : Coherent R c.cache)
    (h : (block pending env file b).run.run c = (.ok o, c')) :
    Grown pending c.cache c'.cache ∧ Coherent R c'.cache ∧
      ∀ scope, o = some scope → Cached c'.cache scope.allObjects ∧ ScopeOf b scope := by
  obtain ⟨span, specs, consts, inner⟩ := b
  rw [block] at h
  obtain ⟨hf, hfi⟩ := hf
  have hpos : (specs.map fun spec => (⟨spec, file⟩ : Declared)).map (fun d => d.spec.pos) =
      specs.map TypeSpec.pos := by
    rw [List.map_map]
    rfl
  obtain ⟨hn', hs, ho'⟩ := sees_ofDecls
    (specs.map fun spec => (⟨spec, file⟩ : Declared)) consts hn ho (by
      rw [hpos, List.forall_mem_map]
      exact hf)
  rw [hpos] at ho'
  obtain ⟨scope, c₁, hd, h⟩ := bind_run_eq_ok.mp h
  obtain ⟨children, c₂, hb, h⟩ := bind_run_eq_ok.mp h
  obtain ⟨hg₁, hc₁, hown, -, hk⟩ := declare_eq_ok hn' hs hc (by intro t ht; cases ht) hd
  obtain ⟨hg₂, hc₂, hall, hin⟩ := blocks_eq_ok inner hfi hn' ho' hc₁ hb
  cases h
  refine ⟨hg₁.trans hg₂, hc₂, fun found hfound => ?_⟩
  split at hfound
  · cases hfound
  · cases hfound
    obtain ⟨kind, types, old⟩ := scope
    constructor
    · intro t ht
      rw [Scope.allObjects, List.mem_append] at ht
      exact ht.elim (hown.grown hg₂ t) (hall t)
    · refine .mk ?_ hin
      rw [List.map_map] at hk
      simpa [Scope.objects, Function.comp_def] using hk

theorem blocks_eq_ok {R : Refers} {pending : List Nat} {env : List Frame} {outer : List Nat}
    {file : FileInfo} {c c' : Checked} {scopes : List Scope} (bs : List Block)
    (hf : Block.FitsIn R outer bs) (hn : Scoped R env)
    (ho : ∀ d ∈ declared env, d.spec.pos ∈ outer) (hc : Coherent R c.cache)
    (h : (blocks pending env file bs).run.run c = (.ok scopes, c')) :
    Grown pending c.cache c'.cache ∧ Coherent R c'.cache ∧
      Cached c'.cache (Scope.allObjectsIn scopes) ∧ ScopesOf bs scopes := by
  cases bs with
  | nil =>
    rw [blocks] at h
    cases h
    exact ⟨.refl _ _, hc, fun _ h => (nomatch h), .nil⟩
  | cons b bs =>
    rw [blocks] at h
    obtain ⟨own, c₁, hb, h⟩ := bind_run_eq_ok.mp h
    obtain ⟨others, c₂, hbs, h⟩ := bind_run_eq_ok.mp h
    obtain ⟨hg₁, hc₁, hown⟩ := block_eq_ok b hf.1 hn ho hc hb
    obtain ⟨hg₂, hc₂, hothers, hin⟩ := blocks_eq_ok bs hf.2 hn ho hc₁ hbs
    cases h
    refine ⟨hg₁.trans hg₂, hc₂, ?_⟩
    cases own with
    | none => exact ⟨hothers, .skip hin⟩
    | some scope =>
      obtain ⟨hcached, hof⟩ := hown scope rfl
      refine ⟨fun t ht => ?_, .cons hof hin⟩
      rw [Option.toList, List.singleton_append, Scope.allObjectsIn, List.mem_append] at ht
      exact ht.elim (hcached.grown hg₂ t) (hothers t)

end

theorem fitsIn_append {R : Refers} {outer : List Nat} {bs bs' : List Block} :
    Block.FitsIn R outer (bs ++ bs') ↔ Block.FitsIn R outer bs ∧ Block.FitsIn R outer bs' := by
  induction bs with
  | nil => simp [Block.FitsIn]
  | cons b bs ih => rw [List.cons_append, Block.FitsIn, ih, Block.FitsIn, and_assoc]

theorem allBlocks_eq_ok {outer : List Nat} {scopes : List Scope} {files : List SourceFile}
    (hf : Block.FitsIn R outer (files.flatMap fun f => f.root.blocks)) (hn : Scoped R env)
    (ho : ∀ d ∈ declared env, d.spec.pos ∈ outer) (hc : Coherent R c.cache)
    (h : (allBlocks pending env files).run.run c = (.ok scopes, c')) :
    Grown pending c.cache c'.cache ∧ Coherent R c'.cache ∧
      Cached c'.cache (Scope.allObjectsIn scopes) ∧
      ScopesOf (files.flatMap fun f => f.root.blocks) scopes := by
  induction files generalizing c c' scopes with
  | nil =>
    cases h
    exact ⟨.refl _ _, hc, fun _ h => (nomatch h), .nil⟩
  | cons f fs ih =>
    rw [List.flatMap_cons] at hf ⊢
    obtain ⟨hf₁, hf₂⟩ := fitsIn_append.mp hf
    obtain ⟨own, c₁, hb, h⟩ := bind_run_eq_ok.mp h
    obtain ⟨others, c₂, hbs, h⟩ := bind_run_eq_ok.mp h
    obtain ⟨hg₁, hc₁, hown, hin₁⟩ := blocks_eq_ok f.root.blocks hf₁ hn ho hc hb
    obtain ⟨hg₂, hc₂, hothers, hin₂⟩ := ih hf₂ hc₁ hbs
    cases h
    refine ⟨hg₁.trans hg₂, hc₂, fun t ht => ?_, hin₁.append hin₂⟩
    rw [Scope.allObjectsIn_eq, List.flatMap_append, List.mem_append, ← Scope.allObjectsIn_eq,
      ← Scope.allObjectsIn_eq] at ht
    exact ht.elim (hown.grown hg₂ t) (hothers t)

end Check

/-- The blocks of all files of a package taken together. -/
def packageBlock (files : List SourceFile) : Block where
  span := ⟨0, 0⟩
  specs := files.flatMap fun f => f.root.specs
  blocks := files.flatMap fun f => f.root.blocks

/-- A checked package: its types come from one coherent cache of its declarations, and its scopes
are those of its blocks. -/
theorem check_eq_ok {R : Refers} {files : List SourceFile} {name path : String} {scope : Scope}
    (hf : (packageBlock files).Fits R []) (h : (check files name path).1 = .ok scope) :
    ∃ cache, Coherent R cache ∧
      (∀ e ∈ cache, e.1 ∈ files.flatMap fun f => f.specs.map TypeSpec.pos) ∧
      Check.Cached cache scope.allObjects ∧ ScopeOf (packageBlock files) scope := by
  have hr : (checkPackage files name path).run.run {} =
      (.ok scope, ((checkPackage files name path).run.run {}).2) := Prod.ext h rfl
  generalize ((checkPackage files name path).run.run {}).2 = c' at hr
  unfold checkPackage at hr
  dsimp only at hr
  split at hr
  · cases hr
  · obtain ⟨hf, hfi⟩ := hf
    obtain ⟨own, c₁, hd, hr⟩ := bind_run_eq_ok.mp hr
    obtain ⟨children, c₂, hb, hr⟩ := bind_run_eq_ok.mp hr
    cases hr
    have hspecs : (files.flatMap SourceFile.topDecls).map (fun d => d.spec) =
        files.flatMap fun f => f.root.specs := by
      simp [List.map_flatMap, SourceFile.topDecls, Function.comp_def]
    have hpos : (files.flatMap SourceFile.topDecls).map (fun d => d.spec.pos) =
        (files.flatMap fun f => f.root.specs).map TypeSpec.pos := by
      rw [← hspecs, List.map_map]
      rfl
    have hempty : Scoped R [] := trivial
    obtain ⟨hn, hs, ho⟩ := Check.sees_ofDecls (files.flatMap SourceFile.topDecls)
      (files.flatMap fun f => f.root.consts) hempty (List.forall_mem_nil _) (by
        rw [hpos]
        exact fun d hd => hf d.spec (hspecs ▸ List.mem_map_of_mem hd))
    rw [hpos] at ho
    obtain ⟨hg₁, hc₁, hown, -, hk⟩ := Check.declare_eq_ok hn hs (by intro e he; cases he)
      (by intro t ht; cases ht) hd
    obtain ⟨hg₂, hc₂, hall, hin⟩ := Check.allBlocks_eq_ok hfi hn ho hc₁ hb
    refine ⟨_, hc₂, fun e he => ?_, ?_, ?_⟩
    · rcases (hg₁.trans hg₂).keys e he with he | he
      · cases he
      · exact he
    · obtain ⟨kind, types, old⟩ := own
      intro t ht
      rw [Scope.allObjects, List.mem_append] at ht
      exact ht.elim (hown.grown hg₂ t) (hall t)
    · obtain ⟨kind, types, old⟩ := own
      refine .mk ?_ hin
      have hkeys : (files.flatMap SourceFile.topDecls).map (fun d => d.spec.key) =
          (files.flatMap fun f => f.root.specs).map TypeSpec.key := by
        rw [← hspecs, List.map_map]
        rfl
      rw [hkeys] at hk
      simpa [Scope.objects, Function.comp_def] using hk

end StructLayout
