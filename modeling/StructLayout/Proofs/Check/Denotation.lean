import StructLayout.Proofs.Check.Sites

/-!
What expressions and declarations stand for, found from scratch. Resolving comes to the same with a
cache of what has been found, and says what is wrong where there is no such type: a declaration is
made of itself, or leaves its size open.
-/

namespace StructLayout

namespace TypeExpr

/-- The type of an expression that looks no name up. -/
def plain? : TypeExpr → Option Ty
  | .ref (some pkg) name =>
    some (if pkg = "unsafe" ∧ name = "Pointer" then .basic .unsafePointer
      else .foreign (pkg ++ "." ++ name))
  | .pointer elem => some (.pointer elem.render)
  | .slice elem => some (.slice elem.render)
  | .map key value => some (.map key.render value.render)
  | .chan text => some (.chan text)
  | .func text => some (.func text)
  | .interface text => some (.interface text)
  | .ref none _ | .array .. | .struct _ | .generic .. => none

end TypeExpr

/-- The type of a declaration, from the type that it is declared with. -/
def Declared.declares (d : Declared) (ty : Ty) : Ty :=
  if d.spec.isAlias then ty else .named d.spec.name d.spec.pos ty.underlying

mutual

/-- The type that an expression stands for inside of some blocks. -/
inductive Denotes : List Frame → TypeExpr → Ty → Prop
  | plain {env e ty} : e.plain? = some ty → Denotes env e ty
  | declared {env env' name d ty} : lookupType? name env = some (d, env') →
      DeclDenotes env' d ty → Denotes env (.ref none name) ty
  | predeclared {env name ty} : lookupType? name env = none → universe? name = some ty →
      Denotes env (.ref none name) ty
  | array {env len elem n ty} : arrayLength env len = .ok n → Denotes env elem ty →
      Denotes env (.array len elem) (.array n ty)
  | struct {env body fs} : FieldsDenote env body.fields fs →
      Denotes env (.struct body) (.struct fs)

inductive FieldsDenote : List Frame → List FieldDecl → List TyField → Prop
  | nil {env} : FieldsDenote env [] []
  | cons {env d ds ty fs} : Denotes env d.ty ty → FieldsDenote env ds fs →
      FieldsDenote env (d :: ds) (d.typed ty ++ fs)

/-- The type that a declaration inside of some blocks stands for. -/
inductive DeclDenotes : List Frame → Declared → Ty → Prop
  | mk {env d ty} : d.spec.isGeneric = false → Denotes env d.spec.ty ty →
      DeclDenotes env d (d.declares ty)

end

/-! ## Types are found from the bottom up -/

mutual

theorem Denotes.acc {env : List Frame} {e : TypeExpr} {ty : Ty} (h : Denotes env e ty) {y : Site}
    (hy : Finds env e.valueNames y) : Acc (Function.swap Site.Uses) y := by
  match h with
  | .plain hp =>
    obtain ⟨name, hn, -⟩ := hy
    unfold TypeExpr.plain? at hp
    split at hp <;> cases hp <;> cases hn
  | .declared hl hd =>
    have hacc := hd.acc
    obtain ⟨name, hn, hl'⟩ := hy
    cases List.mem_singleton.mp hn
    cases hl.symm.trans hl'
    exact hacc
  | .predeclared hl _ =>
    obtain ⟨name, hn, hl'⟩ := hy
    cases List.mem_singleton.mp hn
    cases hl.symm.trans hl'
  | .array _ he => exact he.acc hy
  | @Denotes.struct _ ⟨_, _, _, _, _⟩ _ hf => exact hf.acc hy

theorem FieldsDenote.acc {env : List Frame} {ds : List FieldDecl} {fs : List TyField}
    (h : FieldsDenote env ds fs) {y : Site} (hy : Finds env (TypeExpr.fieldsNames ds) y) :
    Acc (Function.swap Site.Uses) y := by
  match h with
  | .nil =>
    obtain ⟨name, hn, -⟩ := hy
    cases hn
  | @FieldsDenote.cons _ ⟨_, _, _, _, _, _, _⟩ _ _ _ hd hds =>
    obtain ⟨name, hn, hl⟩ := hy
    rcases List.mem_append.mp hn with hn | hn
    · exact hd.acc ⟨name, hn, hl⟩
    · exact hds.acc ⟨name, hn, hl⟩

theorem DeclDenotes.acc {env : List Frame} {d : Declared} {ty : Ty} (h : DeclDenotes env d ty) :
    Acc (Function.swap Site.Uses) ⟨d, env⟩ := by
  match h with
  | .mk _ he => exact ⟨_, fun _ hy => he.acc hy⟩

end

/-- What stands for a type is not made of itself. -/
theorem DeclDenotes.not_cyclic {x : Site} {ty : Ty} (h : DeclDenotes x.env x.decl ty) :
    ¬ x.Cyclic := by
  intro hc
  have hacc : Acc (Relation.TransGen (Function.swap Site.Uses)) x := h.acc.transGen
  have hself : Relation.TransGen (Function.swap Site.Uses) x x := Relation.transGen_swap.mpr hc
  clear h hc
  induction hacc with
  | intro x _ ih => exact ih x hself hself

/-! ## Resolving -/

variable {sites : List Site} {pending : List Nat} {env : List Frame} {cache : TypeCache}

/-- The types that a cache has are those that their declarations stand for. -/
def Sound (sites : List Site) (cache : TypeCache) : Prop :=
  ∀ x ∈ sites, ∀ ty, cache.lookup x.pos = some ty → DeclDenotes x.env x.decl ty

theorem sound_nil (sites : List Site) : Sound sites [] := by
  intro x _ ty h
  cases h

theorem Sound.insert {x : Site} {ty : Ty} (h : Sound sites cache) (hs : Closed sites)
    (hx : x ∈ sites) (hd : DeclDenotes x.env x.decl ty) : Sound sites ((x.pos, ty) :: cache) := by
  intro y hy ty' hl
  rw [List.lookup_cons] at hl
  split at hl
  · rename_i hp
    cases hs.eq_of_pos hy hx (eq_of_beq hp)
    cases hl
    exact hd
  · exact h y hy ty' hl

/-- A declaration that is made of itself, by its name and place. -/
def Recurs (sites : List Site) (name : String) (position : Position) : Prop :=
  ∃ x ∈ sites, x.Cyclic ∧ x.name = name ∧ x.decl.position = position

/-- What resolving something comes to if the cache is sound. Where `Closes` holds, a type is left
out only for another declaration without a size. -/
structure Resolves {α : Type} (sites : List Site) (Stands : α → Prop) (Closes : Prop)
    (r : Resolved α) : Prop where
  sound : Sound sites r.2
  ok : ∀ a, r.1 = .ok a → Stands a
  recursive : ∀ name position, r.1 = .error (.recursive name position) →
    Recurs sites name position
  skip : ∀ reason, r.1 = .error (.skip reason) → Closes → ∃ x ∈ sites, x.isSized = false

namespace Resolves

variable {α β : Type} {Stands : α → Prop} {Closes : Prop} {r : Resolved α}

theorem of_ok {a : α} (hc : Sound sites cache) (h : Stands a) :
    Resolves sites Stands Closes (.ok a, cache) where
  sound := hc
  ok := by
    rintro _ ⟨⟩
    exact h
  recursive := nofun
  skip := nofun

theorem of_skip {reason : SkipReason} (hc : Sound sites cache)
    (h : Closes → ∃ x ∈ sites, x.isSized = false) :
    Resolves sites Stands Closes (.error (.skip reason), cache) where
  sound := hc
  ok := nofun
  recursive := nofun
  skip := fun _ _ => h

theorem map {Stands' : β → Prop} {Closes' : Prop} {f : α → β} (h : Resolves sites Stands Closes r)
    (hf : ∀ a, Stands a → Stands' (f a)) (hc : Closes' → Closes) :
    Resolves sites Stands' Closes' (r.1.map f, r.2) := by
  obtain ⟨e | a, cache⟩ := r
  · refine ⟨h.sound, nofun, ?_, ?_⟩
    · rintro name position ⟨⟩
      exact h.recursive name position rfl
    · rintro reason ⟨⟩ hs
      exact h.skip reason rfl (hc hs)
  · exact .of_ok h.sound (hf a (h.ok a rfl))

theorem imp {Stands' : α → Prop} {Closes' : Prop} (h : Resolves sites Stands Closes r)
    (hf : ∀ a, Stands a → Stands' a) (hc : Closes' → Closes) :
    Resolves sites Stands' Closes' r :=
  ⟨h.sound, fun a ha => hf a (h.ok a ha), h.recursive,
    fun reason he hs => h.skip reason he (hc hs)⟩

end Resolves

/-- All that is being resolved leads to what the names mean. -/
def Above (sites : List Site) (pending : List Nat) (env : List Frame) (names : List String) : Prop :=
  ∀ z ∈ sites, z.pos ∉ pending → ∀ y, Finds env names y → Relation.TransGen Site.Uses z y

/-- A declaration that is resolved now is one of those that lead to whatever it is made of. -/
theorem above_own {x : Site} (hs : Closed sites) (hx : x ∈ sites)
    (hr : ∀ z ∈ sites, z.pos ∉ pending → Relation.TransGen Site.Uses z x) :
    Above sites (pending.filter (· != x.pos)) x.env x.ty.valueNames := by
  intro z hz hp y hy
  have hxy : x.Uses y := hy
  by_cases hzx : z.pos = x.pos
  · cases hs.eq_of_pos hz hx hzx
    exact .single hxy
  · refine (hr z hz fun hm => hp (List.mem_filter.mpr ⟨hm, ?_⟩)).tail hxy
    exact bne_iff_ne.mpr hzx

mutual

theorem resolveExpr_resolves (hs : Closed sites) (pending : List Nat) {env : List Frame}
    {cache : TypeCache} (e : TypeExpr) (hn : Anchored sites env)
    (ha : Above sites pending env e.valueNames) (hc : Sound sites cache) :
    Resolves sites (Denotes env e) (e.isSized env = true)
      (resolveExpr pending env cache e) := by
  unfold resolveExpr
  split
  case h_1 =>
    split
    · exact .of_ok hc (.plain (congrArg some (if_pos ‹_›)))
    · exact .of_ok hc (.plain (congrArg some (if_neg ‹_›)))
  case h_2 name =>
    split
    · rename_i d env' hl
      have hx : (⟨d, env'⟩ : Site) ∈ sites := hn.lookup hl
      have hr : ∀ z ∈ sites, z.pos ∉ pending → Relation.TransGen Site.Uses z ⟨d, env'⟩ :=
        fun z hz hp => ha z hz hp _ ⟨name, List.mem_singleton.mpr rfl, hl⟩
      exact (resolveDecl_resolves hs pending hx hr hc).imp (fun _ => .declared hl) fun _ => trivial
    · rename_i hl
      split
      · exact .of_ok hc (.predeclared hl ‹_›)
      · rename_i hu
        refine .of_skip hc fun h => ?_
        rw [TypeExpr.isSized, hl, hu] at h
        cases h
  case h_9 => exact .of_skip hc fun h => by cases h
  case h_10 len elem =>
    split
    · rename_i reason hlen
      refine .of_skip hc fun h => ?_
      rw [TypeExpr.isSized, hlen] at h
      cases h
    · rename_i n hlen
      refine (resolveExpr_resolves hs pending elem hn ha hc).map (fun _ h => .array hlen h) fun h => ?_
      rw [TypeExpr.isSized, Bool.and_eq_true] at h
      exact h.2
  case h_11 fields _ _ _ =>
    exact (resolveFields_resolves hs pending hn hc fields ha).map (fun _ h => .struct h) id
  all_goals exact .of_ok hc (.plain rfl)
termination_by (pending.length, sizeOf e + 1)

theorem resolveFields_resolves (hs : Closed sites) (pending : List Nat) {env : List Frame}
    {cache : TypeCache} (hn : Anchored sites env) (hc : Sound sites cache) :
    (ds : List FieldDecl) → Above sites pending env (TypeExpr.fieldsNames ds) →
      Resolves sites (FieldsDenote env ds) (TypeExpr.areSizedFields env ds = true)
        (resolveFields pending env cache ds)
  | [], _ => by
    rw [resolveFields]
    exact .of_ok hc .nil
  | d :: ds, ha => by
    rw [resolveFields]
    have hd := resolveField_resolves hs pending hn hc d fun z hz hp y hy => ha z hz hp y hy.left
    have hsized : TypeExpr.areSizedFields env (d :: ds) = true →
        TypeExpr.isSizedField env d = true ∧ TypeExpr.areSizedFields env ds = true := by
      rw [TypeExpr.areSizedFields, Bool.and_eq_true]
      exact id
    generalize resolveField pending env cache d = r at hd
    obtain ⟨e | own, cache'⟩ := r
    · exact ⟨hd.sound, nofun, hd.recursive, fun reason he h => hd.skip reason he (hsized h).1⟩
    · obtain ⟨ty, hty, rfl⟩ := hd.ok own rfl
      exact (resolveFields_resolves hs pending hn hd.sound ds
        fun z hz hp y hy => ha z hz hp y hy.right).map (fun _ => .cons hty) fun h => (hsized h).2
termination_by ds => (pending.length, sizeOf ds + 1)

theorem resolveField_resolves (hs : Closed sites) (pending : List Nat) {env : List Frame}
    {cache : TypeCache} (hn : Anchored sites env) (hc : Sound sites cache) :
    (d : FieldDecl) → Above sites pending env (TypeExpr.fieldNames d) →
      Resolves sites (fun fs => ∃ ty, Denotes env d.ty ty ∧ fs = d.typed ty)
        (TypeExpr.isSizedField env d = true) (resolveField pending env cache d)
  | ⟨names, pos, ty, tyText, tag, doc, comment⟩, ha => by
    rw [resolveField]
    exact (resolveExpr_resolves hs pending ty hn ha hc).map (fun own h => ⟨own, h, rfl⟩) id
termination_by d => (pending.length, sizeOf d + 1)

theorem resolveDecl_resolves (hs : Closed sites) (pending : List Nat) {cache : TypeCache} {x : Site}
    (hx : x ∈ sites) (hr : ∀ z ∈ sites, z.pos ∉ pending → Relation.TransGen Site.Uses z x)
    (hc : Sound sites cache) :
    Resolves sites (DeclDenotes x.env x.decl) True
      (resolveDecl pending x.env cache x.decl) := by
  unfold resolveDecl
  split
  · exact .of_ok hc (hc x hx _ ‹_›)
  · split
    · rename_i hg
      refine .of_skip hc fun _ => ⟨x, hx, ?_⟩
      rw [Site.isSized, hg]
      rfl
    · rename_i hg
      split
      · have he := resolveExpr_resolves hs (pending.filter (· != x.decl.spec.pos)) x.decl.spec.ty
          (hs.anchored x hx) (above_own hs hx hr) hc
        generalize resolveExpr (pending.filter (· != x.decl.spec.pos)) x.env cache
          x.decl.spec.ty = r at he
        obtain ⟨e | ty, cache'⟩ := r
        · refine ⟨he.sound, nofun, he.recursive, fun reason hskip _ => ?_⟩
          by_cases hsized : x.ty.isSized x.env = true
          · exact he.skip reason hskip hsized
          · refine ⟨x, hx, ?_⟩
            rw [Site.isSized, Bool.eq_false_iff.mpr hsized, Bool.and_false]
        · have hd : DeclDenotes x.env x.decl (x.decl.declares ty) :=
            .mk (Bool.eq_false_iff.mpr hg) (he.ok ty rfl)
          exact .of_ok (he.sound.insert hs hx hd) hd
      · rename_i hp
        refine ⟨hc, nofun, ?_, nofun⟩
        rintro _ _ ⟨⟩
        exact ⟨x, hx, hr x hx hp, rfl, rfl⟩
termination_by (pending.length, 0)
decreasing_by exact Prod.Lex.left _ _ (length_filter_ne_lt ‹_›)

end

end StructLayout
