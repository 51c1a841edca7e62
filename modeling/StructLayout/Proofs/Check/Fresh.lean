import StructLayout.Proofs.Check.Recursion

/-!
Types found from scratch. Without a cache every name is looked up and resolved again, in the blocks
around the declaration that it means. Resolving with a sound cache comes to the same, be it a type,
a size that is left open or a type made of itself; so a package is checked exactly if nothing in it
recurses from scratch, and its scope is the one of the types found from scratch.
-/

namespace StructLayout

mutual

/-- The type of an expression. `pending` holds the positions of the declarations that are not being
resolved already. -/
def findExpr (pending : List Nat) (env : List Frame) : TypeExpr → Except Unresolved Ty
  | .ref (some pkg) name =>
    if pkg = "unsafe" ∧ name = "Pointer" then .ok (.basic .unsafePointer)
    else .ok (.foreign (pkg ++ "." ++ name))
  | .ref none name =>
    match lookupType? name env with
    | some (d, env) => findDecl pending env d
    | none =>
      match universe? name with
      | some ty => .ok ty
      | none => .error (.skip (.undefinedType name))
  | .pointer elem => .ok (.pointer elem.render)
  | .slice elem => .ok (.slice elem.render)
  | .map key value => .ok (.map key.render value.render)
  | .chan text => .ok (.chan text)
  | .func text => .ok (.func text)
  | .interface text => .ok (.interface text)
  | .generic _ text => .error (.skip (.genericInstance text))
  | .array len elem =>
    match arrayLength env len with
    | .error reason => .error (.skip reason)
    | .ok n => (findExpr pending env elem).map (.array n)
  | .struct ⟨_, fields, _, _, _⟩ => (findFields pending env fields).map .struct
termination_by e => (pending.length, sizeOf e + 1)

def findFields (pending : List Nat) (env : List Frame) :
    List FieldDecl → Except Unresolved (List TyField)
  | [] => .ok []
  | d :: ds =>
    match findField pending env d with
    | .error e => .error e
    | .ok own => (findFields pending env ds).map (own ++ ·)
termination_by ds => (pending.length, sizeOf ds + 1)

def findField (pending : List Nat) (env : List Frame) :
    FieldDecl → Except Unresolved (List TyField)
  | ⟨names, pos, ty, tyText, tag, doc, comment⟩ =>
    (findExpr pending env ty).map (FieldDecl.typed ⟨names, pos, ty, tyText, tag, doc, comment⟩)
termination_by d => (pending.length, sizeOf d + 1)

/-- The type that a declaration stands for. -/
def findDecl (pending : List Nat) (env : List Frame) (d : Declared) : Except Unresolved Ty :=
  if d.spec.isGeneric then .error (.skip (.genericType d.spec.name))
  else if _open : d.spec.pos ∈ pending then
    (findExpr (pending.filter (· != d.spec.pos)) env d.spec.ty).map d.declares
  else .error (.recursive d.spec.name d.position)
termination_by (pending.length, 0)
decreasing_by exact Prod.Lex.left _ _ (length_filter_ne_lt _open)

end

variable {sites : List Site}

/-! ## What stands for a type is found -/

mutual

theorem Denotes.find (hs : Closed sites) {env : List Frame} {e : TypeExpr} {ty : Ty}
    (h : Denotes env e ty) {pending : List Nat} (hn : Anchored sites env)
    (ha : Above sites pending env e.valueNames) : findExpr pending env e = .ok ty := by
  match h with
  | .plain hp =>
    unfold TypeExpr.plain? at hp
    unfold findExpr
    split at hp <;> cases hp
    · dsimp only
      split <;> rfl
    all_goals rfl
  | @Denotes.declared _ env' name d _ hl hd =>
    have hx : (⟨d, env'⟩ : Site) ∈ sites := hn.lookup hl
    have hr : ∀ z ∈ sites, z.pos ∉ pending → Relation.TransGen Site.Uses z ⟨d, env'⟩ :=
      fun z hz hp => ha z hz hp _ ⟨name, List.mem_singleton.mpr rfl, hl⟩
    unfold findExpr
    rw [hl]
    exact hd.find hs hx hr
  | .predeclared hl hu =>
    unfold findExpr
    rw [hl]
    dsimp only
    rw [hu]
  | .array hlen he =>
    unfold findExpr
    rw [hlen]
    dsimp only
    rw [he.find hs hn ha]
    rfl
  | @Denotes.struct _ ⟨_, _, _, _, _⟩ _ hf =>
    unfold findExpr
    rw [hf.find hs hn ha]
    rfl

theorem FieldsDenote.find (hs : Closed sites) {env : List Frame} {ds : List FieldDecl}
    {fs : List TyField} (h : FieldsDenote env ds fs) {pending : List Nat} (hn : Anchored sites env)
    (ha : Above sites pending env (TypeExpr.fieldsNames ds)) :
    findFields pending env ds = .ok fs := by
  match h with
  | .nil => rw [findFields]
  | @FieldsDenote.cons _ ⟨_, _, _, _, _, _, _⟩ _ _ _ hd hds =>
    have hown := hd.find hs hn fun z hz hp y hy => ha z hz hp y hy.left
    have hrest := hds.find hs hn fun z hz hp y hy => ha z hz hp y hy.right
    rw [findFields, findField, hown, hrest]
    rfl

theorem DeclDenotes.find (hs : Closed sites) {env : List Frame} {d : Declared} {ty : Ty}
    (h : DeclDenotes env d ty) {pending : List Nat} (hx : (⟨d, env⟩ : Site) ∈ sites)
    (hr : ∀ z ∈ sites, z.pos ∉ pending → Relation.TransGen Site.Uses z ⟨d, env⟩) :
    findDecl pending env d = .ok ty := by
  -- a declaration that is being resolved would be made of itself, and then it has no type
  have hpos : d.spec.pos ∈ pending := by
    by_contra hp
    exact DeclDenotes.not_cyclic (x := ⟨d, env⟩) h (hr _ hx hp)
  match h with
  | .mk hg he =>
    rw [findDecl, if_neg (by simp [hg]), dif_pos hpos]
    exact congrArg (Except.map d.declares) (he.find hs (hs.anchored _ hx) (above_own hs hx hr))

end

/-! ## Resolving comes to the same -/

mutual

theorem resolveExpr_fst (hs : Closed sites) (pending : List Nat) {env : List Frame}
    {cache : TypeCache} (hn : Anchored sites env) (hc : Sound sites cache) :
    (e : TypeExpr) → Above sites pending env e.valueNames →
      (resolveExpr pending env cache e).1 = findExpr pending env e
  | .ref (some pkg) name, _ => by
    unfold resolveExpr findExpr
    split <;> rfl
  | .ref none name, ha => by
    unfold resolveExpr findExpr
    cases hl : lookupType? name env with
    | none =>
      dsimp only
      cases universe? name <;> rfl
    | some found =>
      obtain ⟨d, env'⟩ := found
      have hr : ∀ z ∈ sites, z.pos ∉ pending → Relation.TransGen Site.Uses z ⟨d, env'⟩ :=
        fun z hz hp => ha z hz hp _ ⟨name, List.mem_singleton.mpr rfl, hl⟩
      exact resolveDecl_fst hs pending (hn.lookup hl) hr hc
  | .pointer _, _ | .slice _, _ | .map .., _ | .chan _, _ | .func _, _ | .interface _, _
  | .generic .., _ => by
    unfold resolveExpr findExpr
    rfl
  | .array len elem, ha => by
    unfold resolveExpr findExpr
    rw [← resolveExpr_fst hs pending hn hc elem ha]
    cases arrayLength env len <;> rfl
  | .struct ⟨_, fields, _, _, _⟩, ha => by
    unfold resolveExpr findExpr
    rw [← resolveFields_fst hs pending hn hc fields ha]
termination_by e => (pending.length, sizeOf e + 1)

theorem resolveFields_fst (hs : Closed sites) (pending : List Nat) {env : List Frame}
    {cache : TypeCache} (hn : Anchored sites env) (hc : Sound sites cache) :
    (ds : List FieldDecl) → Above sites pending env (TypeExpr.fieldsNames ds) →
      (resolveFields pending env cache ds).1 = findFields pending env ds
  | [], _ => by rw [resolveFields, findFields]
  | d :: ds, ha => by
    have hleft : Above sites pending env (TypeExpr.fieldNames d) :=
      fun z hz hp y hy => ha z hz hp y hy.left
    have hown := resolveField_fst hs pending hn hc d hleft
    have hsound := (resolveField_resolves hs pending hn hc d hleft).sound
    rw [resolveFields, findFields, ← hown]
    generalize resolveField pending env cache d = r at hsound
    obtain ⟨e | own, cache'⟩ := r
    · rfl
    · dsimp only
      rw [← resolveFields_fst hs pending hn hsound ds fun z hz hp y hy => ha z hz hp y hy.right]
termination_by ds => (pending.length, sizeOf ds + 1)

theorem resolveField_fst (hs : Closed sites) (pending : List Nat) {env : List Frame}
    {cache : TypeCache} (hn : Anchored sites env) (hc : Sound sites cache) :
    (d : FieldDecl) → Above sites pending env (TypeExpr.fieldNames d) →
      (resolveField pending env cache d).1 = findField pending env d
  | ⟨names, pos, ty, tyText, tag, doc, comment⟩, ha => by
    rw [resolveField, findField, ← resolveExpr_fst hs pending hn hc ty ha]
termination_by d => (pending.length, sizeOf d + 1)

theorem resolveDecl_fst (hs : Closed sites) (pending : List Nat) {cache : TypeCache} {x : Site}
    (hx : x ∈ sites) (hr : ∀ z ∈ sites, z.pos ∉ pending → Relation.TransGen Site.Uses z x)
    (hc : Sound sites cache) :
    (resolveDecl pending x.env cache x.decl).1 = findDecl pending x.env x.decl := by
  unfold resolveDecl
  split
  -- what an earlier search has left in the cache stands for the declaration, and so is found again
  · exact ((hc x hx _ ‹_›).find hs hx hr).symm
  · unfold findDecl
    split
    · rfl
    · split
      · have he := resolveExpr_fst hs (pending.filter (· != x.decl.spec.pos))
          (hs.anchored x hx) hc x.decl.spec.ty (above_own hs hx hr)
        rw [← he]
        generalize resolveExpr _ x.env cache x.decl.spec.ty = r
        obtain ⟨e | ty, cache'⟩ := r <;> rfl
      · rfl
termination_by (pending.length, 0)
decreasing_by exact Prod.Lex.left _ _ (length_filter_ne_lt ‹_›)

end

/-! ## Scopes -/

/-- The object of a declaration, unless its size is left open. -/
def object? (pending : List Nat) (env : List Frame) (d : Declared) : Option TypeName :=
  (findDecl pending env d).toOption.map fun ty =>
    { name := d.spec.name, pos := d.spec.pos, isAlias := d.spec.isAlias, ty }

mutual

/-- The scope of a block, unless nothing is declared in it. -/
def freshBlock (pending : List Nat) (env : List Frame) (file : FileInfo) : Block → Option Scope
  | ⟨_, specs, consts, inner⟩ =>
    let decls := specs.map fun spec => (⟨spec, file⟩ : Declared)
    let env := .ofDecls decls consts :: env
    let own := (decls.filterMap (object? pending env)).foldl Scope.declare { kind := .block }
    let scope := { own with children := freshBlocks pending env file inner }
    if scope.isEmpty then none else some scope

def freshBlocks (pending : List Nat) (env : List Frame) (file : FileInfo) :
    List Block → List Scope
  | [] => []
  | b :: bs => (freshBlock pending env file b).toList ++ freshBlocks pending env file bs

end

/-- The positions of all declarations. -/
def positions (files : List SourceFile) : List Nat :=
  files.flatMap fun f => f.specs.map TypeSpec.pos

/-- The scope of a package in which all types are found from scratch. -/
def freshScope (files : List SourceFile) (name path : String) : Scope :=
  let env := [packageFrame files]
  let objects := (files.flatMap SourceFile.topDecls).filterMap (object? (positions files) env)
  { objects.foldl Scope.declare { kind := .package name path } with
    children := files.flatMap fun f =>
      freshBlocks (positions files) env f.text.info f.root.blocks }

/-- From scratch, a declaration is made of itself. -/
def Site.Recurs (pending : List Nat) (x : Site) : Prop :=
  ∃ name position, findDecl pending x.env x.decl = .error (.recursive name position)

/-- Some declaration recurses. -/
def SomeRecurs (pending : List Nat) (sites : List Site) : Prop :=
  ∃ x ∈ sites, x.Recurs pending

/-- What checking comes to: that which is found from scratch, where nothing recurses. -/
structure Agrees {α : Type} (pending : List Nat) (sites own : List Site) (fresh a : α)
    (c : Checked) : Prop where
  sound : Sound sites c.cache
  eq : a = fresh
  settled : ∀ x ∈ own, ¬ x.Recurs pending

/-- What is made of two parts. -/
theorem Agrees.map₂ {α β γ : Type} {pending : List Nat} {own own' : List Site} {fresh a : α}
    {fresh' b : β} {c c' : Checked} (f : α → β → γ) (h : Agrees pending sites own fresh a c)
    (h' : Agrees pending sites own' fresh' b c') :
    Agrees pending sites (own ++ own') (f fresh fresh') (f a b) c' where
  sound := h'.sound
  eq := by rw [h.eq, h'.eq]
  settled := List.forall_mem_append.mpr ⟨h.settled, h'.settled⟩

namespace Check

variable {pending : List Nat} {env : List Frame} {c : Checked}

theorem resolve_agrees (hs : Closed sites) (hp : ∀ x ∈ sites, x.pos ∈ pending) {x : Site}
    (hx : x ∈ sites) (hc : Sound sites c.cache) :
    Ends (resolve pending x.env x.decl) c (fun _ => SomeRecurs pending sites)
      (Agrees pending sites [x] (findDecl pending x.env x.decl).toOption) := by
  have hr : ∀ z ∈ sites, z.pos ∉ pending → Relation.TransGen Site.Uses z x :=
    fun z hz hn => absurd (hp z hz) hn
  have hfst := resolveDecl_fst hs pending hx hr hc
  have hsound := (resolveDecl_resolves hs pending hx hr hc).sound
  unfold Ends
  rw [resolve_run, ← hfst]
  generalize resolveDecl pending x.env c.cache x.decl = r at hfst hsound
  obtain ⟨(⟨name, position⟩ | reason) | ty, cache⟩ := r
  · exact ⟨x, hx, name, position, hfst.symm⟩
  · refine ⟨hsound, rfl, List.forall_mem_singleton.mpr ?_⟩
    rintro ⟨_, _, hrec⟩
    cases hfst.trans hrec
  · refine ⟨hsound, rfl, List.forall_mem_singleton.mpr ?_⟩
    rintro ⟨_, _, hrec⟩
    cases hfst.trans hrec

theorem declare_agrees (hs : Closed sites) (hp : ∀ x ∈ sites, x.pos ∈ pending)
    {ds : List Declared} {old : Scope} (hd : ∀ d ∈ ds, (⟨d, env⟩ : Site) ∈ sites)
    (hc : Sound sites c.cache) :
    Ends (declare pending env old ds) c (fun _ => SomeRecurs pending sites)
      (Agrees pending sites (ds.map (⟨·, env⟩))
        ((ds.filterMap (object? pending env)).foldl Scope.declare old)) := by
  induction ds generalizing old c with
  | nil => exact ends_pure ⟨hc, rfl, List.forall_mem_nil _⟩
  | cons d ds ih =>
    obtain ⟨hx, hds⟩ := List.forall_mem_cons.mp hd
    unfold declare
    split
    · rename_i hgeneric
      have hfind : findDecl pending env d = .error (.skip (.genericType d.spec.name)) := by
        rw [findDecl, if_pos hgeneric]
      have hobject : object? pending env d = none := by rw [object?, hfind]; rfl
      rw [List.filterMap_cons_none hobject]
      refine (ih hds hc).imp fun _ _ h => ⟨h.sound, h.eq, ?_⟩
      refine List.forall_mem_cons.mpr ⟨?_, h.settled⟩
      rintro ⟨_, _, hrec⟩
      cases hfind.symm.trans hrec
    · refine (resolve_agrees hs hp hx hc).bind fun o c₁ ho => ?_
      have settled (h : ∀ x ∈ ds.map (⟨·, env⟩), ¬ Site.Recurs pending x) :
          ∀ x ∈ (d :: ds).map (⟨·, env⟩), ¬ Site.Recurs pending x :=
        List.forall_mem_cons.mpr ⟨ho.settled _ List.mem_cons_self, h⟩
      cases o with
      | none =>
        have hobject : object? pending env d = none := by rw [object?, ← ho.eq]; rfl
        rw [List.filterMap_cons_none hobject]
        exact (ih hds ho.sound).imp fun _ _ h => ⟨h.sound, h.eq, settled h.settled⟩
      | some ty =>
        have hobject : object? pending env d = some
            { name := d.spec.name, pos := d.spec.pos, isAlias := d.spec.isAlias, ty } := by
          rw [object?, ← ho.eq]
          rfl
        rw [List.filterMap_cons_some hobject]
        exact (ih hds ho.sound).imp fun _ _ h => ⟨h.sound, h.eq, settled h.settled⟩

mutual

theorem block_agrees (hs : Closed sites) (hp : ∀ x ∈ sites, x.pos ∈ pending) {env : List Frame}
    {file : FileInfo} {c : Checked} (hc : Sound sites c.cache) :
    (b : Block) → b.sites file env ⊆ sites →
      Ends (block pending env file b) c (fun _ => SomeRecurs pending sites)
        (Agrees pending sites (b.sites file env) (freshBlock pending env file b))
  | ⟨span, specs, consts, inner⟩, hsub => by
    rw [Block.sites, List.append_subset] at hsub
    have hd : ∀ d ∈ specs.map fun spec => (⟨spec, file⟩ : Declared), _ :=
      fun d hm => hsub.1 (List.mem_map_of_mem hm)
    rw [block, Block.sites, freshBlock]
    refine (declare_agrees hs hp hd hc).bind fun scope c₁ hown => ?_
    refine (blocks_agrees hs hp hown.sound inner hsub.2).bind fun children c₂ hin => ?_
    exact ends_pure (hown.map₂ (fun scope children =>
      let scope := { scope with children }
      if scope.isEmpty then none else some scope) hin)

theorem blocks_agrees (hs : Closed sites) (hp : ∀ x ∈ sites, x.pos ∈ pending) {env : List Frame}
    {file : FileInfo} {c : Checked} (hc : Sound sites c.cache) :
    (bs : List Block) → Block.sitesIn file env bs ⊆ sites →
      Ends (blocks pending env file bs) c (fun _ => SomeRecurs pending sites)
        (Agrees pending sites (Block.sitesIn file env bs) (freshBlocks pending env file bs))
  | [], _ => by
    rw [blocks, freshBlocks]
    exact ends_pure ⟨hc, rfl, List.forall_mem_nil _⟩
  | b :: bs, hsub => by
    rw [Block.sitesIn, List.append_subset] at hsub
    rw [blocks, Block.sitesIn, freshBlocks]
    refine (block_agrees hs hp hc b hsub.1).bind fun own c₁ hown => ?_
    refine (blocks_agrees hs hp hown.sound bs hsub.2).bind fun others c₂ hothers => ?_
    exact ends_pure (hown.map₂ (·.toList ++ ·) hothers)

end

theorem allBlocks_agrees (hs : Closed sites) (hp : ∀ x ∈ sites, x.pos ∈ pending)
    {files : List SourceFile} (hc : Sound sites c.cache)
    (hsub : (files.flatMap fun f => Block.sitesIn f.text.info env f.root.blocks) ⊆ sites) :
    Ends (allBlocks pending env files) c (fun _ => SomeRecurs pending sites)
      (Agrees pending sites (files.flatMap fun f => Block.sitesIn f.text.info env f.root.blocks)
        (files.flatMap fun f => freshBlocks pending env f.text.info f.root.blocks)) := by
  induction files generalizing c with
  | nil => exact ends_pure ⟨hc, rfl, List.forall_mem_nil _⟩
  | cons f fs ih =>
    rw [List.flatMap_cons, List.append_subset] at hsub
    rw [List.flatMap_cons, List.flatMap_cons]
    refine (blocks_agrees hs hp hc f.root.blocks hsub.1).bind fun own c₁ hown => ?_
    exact (ih hown.sound hsub.2).bind fun others c₂ hothers =>
      ends_pure (hown.map₂ (· ++ ·) hothers)

end Check

/-! ## Packages -/

section

variable {files : List SourceFile} {name path : String}

theorem mem_positions {x : Site} (hx : x ∈ packageSites files) : x.pos ∈ positions files := by
  rw [positions, ← List.map_flatMap]
  exact (packageSites_pos_perm files).subset (List.mem_map_of_mem hx)

theorem checkPackage_agrees (name path : String) (hs : Closed (packageSites files))
    (hn : redeclared? [] (files.flatMap SourceFile.topDecls) = none) :
    Check.Ends (checkPackage files name path) {}
      (fun _ => SomeRecurs (positions files) (packageSites files))
      (Agrees (positions files) (packageSites files) (packageSites files)
        (freshScope files name path)) := by
  have hp : ∀ x ∈ packageSites files, x.pos ∈ positions files := fun _ => mem_positions
  have hd : ∀ d ∈ files.flatMap SourceFile.topDecls,
      (⟨d, [packageFrame files]⟩ : Site) ∈ packageSites files :=
    fun d hd => List.mem_append_left _ (List.mem_map_of_mem hd)
  unfold checkPackage
  dsimp only
  rw [hn]
  refine (Check.declare_agrees hs hp hd (sound_nil _)).bind fun scope c₁ hown => ?_
  refine (Check.allBlocks_agrees hs hp hown.sound (List.subset_append_right _ _)).bind
    fun children c₂ hin => ?_
  have hall := hown.map₂ (fun s children => ({ s with children } : Scope)) hin
  exact Check.ends_pure hall

/-- A package without names that are declared twice is checked exactly if nothing recurses from
scratch, and then its scope is the one of the types found from scratch. -/
theorem check_eq_ok_iff (hs : Closed (packageSites files))
    (hn : redeclared? [] (files.flatMap SourceFile.topDecls) = none) {scope : Scope} :
    (check files name path).1 = .ok scope ↔
      ¬ SomeRecurs (positions files) (packageSites files) ∧ scope = freshScope files name path := by
  have hends := checkPackage_agrees name path hs hn
  rw [check_eq]
  unfold Check.Ends at hends
  generalize (checkPackage files name path).run.run {} = r at hends
  obtain ⟨e | found, c⟩ := r
  · exact ⟨nofun, fun h => absurd hends h.1⟩
  · obtain ⟨-, rfl, hsettled⟩ := hends
    have hno : ¬ SomeRecurs (positions files) (packageSites files) :=
      fun ⟨x, hx, hrec⟩ => hsettled x hx hrec
    exact ⟨fun h => ⟨hno, (Except.ok.inj h).symm⟩, fun h => congrArg Except.ok h.2.symm⟩

end

end StructLayout
