import Mathlib.Logic.Relation
import StructLayout.Proofs.Check.Sight

/-!
The declarations of a package, each with what is in sight of it, and which of them hold which others
by value.
-/

namespace StructLayout

/-! ## What an expression holds by value -/

namespace TypeExpr

mutual

/-- The plain names of the types that values of an expression are made of. -/
def valueNames : TypeExpr → List String
  | .ref none name => [name]
  | .array _ elem => elem.valueNames
  | .struct body => bodyNames body
  | .ref (some _) _ | .pointer _ | .slice _ | .map .. | .chan _ | .func _ | .interface _
  | .generic .. => []

def bodyNames : StructExpr → List String
  | ⟨_, fields, _, _, _⟩ => fieldsNames fields

def fieldNames : FieldDecl → List String
  | ⟨_, _, ty, _, _, _, _⟩ => ty.valueNames

def fieldsNames : List FieldDecl → List String
  | [] => []
  | d :: ds => fieldNames d ++ fieldsNames ds

end

mutual

/-- Values of the expression have a size as far as its own text goes: every name by value is
declared or predeclared, every array length is known, and no generic type is instantiated. -/
def isSized (env : List Frame) : TypeExpr → Bool
  | .ref none name => (lookupType? name env).isSome || (universe? name).isSome
  | .array len elem => (arrayLength env len).isOk && elem.isSized env
  | .struct body => isSizedBody env body
  | .generic .. => false
  | .ref (some _) _ | .pointer _ | .slice _ | .map .. | .chan _ | .func _ | .interface _ => true

def isSizedBody (env : List Frame) : StructExpr → Bool
  | ⟨_, fields, _, _, _⟩ => areSizedFields env fields

def isSizedField (env : List Frame) : FieldDecl → Bool
  | ⟨_, _, ty, _, _, _, _⟩ => ty.isSized env

def areSizedFields (env : List Frame) : List FieldDecl → Bool
  | [] => true
  | d :: ds => isSizedField env d && areSizedFields env ds

end

end TypeExpr

/-! ## Sites -/

/-- A declaration with the blocks around it, its own one first. -/
structure Site where
  decl : Declared
  env : List Frame

namespace Site

def spec (x : Site) : TypeSpec :=
  x.decl.spec

def name (x : Site) : String :=
  x.decl.spec.name

def pos (x : Site) : Nat :=
  x.decl.spec.pos

def ty (x : Site) : TypeExpr :=
  x.decl.spec.ty

/-- Neither the declaration nor what it says by itself leaves its size open. -/
def isSized (x : Site) : Bool :=
  !x.decl.spec.isGeneric && x.ty.isSized x.env

end Site

/-- One of some names means the declaration of a site. -/
def Finds (env : List Frame) (names : List String) (y : Site) : Prop :=
  ∃ name ∈ names, lookupType? name env = some (y.decl, y.env)

/-- Values of the one declaration are made of values of the other. -/
def Site.Uses (x y : Site) : Prop :=
  Finds x.env x.ty.valueNames y

/-- Values of a declaration are made of other values of the same declaration. -/
def Site.Cyclic (x : Site) : Prop :=
  Relation.TransGen Site.Uses x x

theorem Finds.left {env : List Frame} {names more : List String} {y : Site}
    (h : Finds env names y) : Finds env (names ++ more) y :=
  let ⟨name, hn, hl⟩ := h
  ⟨name, List.mem_append_left more hn, hl⟩

theorem Finds.right {env : List Frame} {names more : List String} {y : Site}
    (h : Finds env more y) : Finds env (names ++ more) y :=
  let ⟨name, hn, hl⟩ := h
  ⟨name, List.mem_append_right names hn, hl⟩

/-- Whatever some blocks declare is among the sites. -/
def Anchored (sites : List Site) : List Frame → Prop
  | [] => True
  | f :: outer => (∀ e ∈ f.types, (⟨e.2, f :: outer⟩ : Site) ∈ sites) ∧ Anchored sites outer

theorem Anchored.lookup {sites : List Site} {env env' : List Frame} {name : String} {d : Declared}
    (h : Anchored sites env) (hl : lookupType? name env = some (d, env')) :
    (⟨d, env'⟩ : Site) ∈ sites := by
  induction env with
  | nil => cases hl
  | cons f outer ih =>
    unfold lookupType? at hl
    split at hl
    · rename_i d' hd
      cases hl
      exact h.1 _ (mem_of_lookup hd)
    · exact ih h.2 hl

/-- Sites that are all that can be looked up from one of them, at different positions. -/
structure Closed (sites : List Site) : Prop where
  anchored : ∀ x ∈ sites, Anchored sites x.env
  nodup : (sites.map Site.pos).Nodup

theorem Closed.eq_of_pos {sites : List Site} (h : Closed sites) {x y : Site} (hx : x ∈ sites)
    (hy : y ∈ sites) (hp : x.pos = y.pos) : x = y :=
  List.inj_on_of_nodup_map h.nodup hx hy hp

/-! ## The sites of a package -/

theorem anchored_cons {sites : List Site} {env : List Frame} {decls : List Declared}
    {consts : List ConstSpec} (h : Anchored sites env)
    (hd : ∀ d ∈ decls, (⟨d, .ofDecls decls consts :: env⟩ : Site) ∈ sites) :
    Anchored sites (.ofDecls decls consts :: env) :=
  ⟨fun e he => hd e.2 (Check.mem_ofDecls he), h⟩

namespace Block

mutual

/-- The sites of a block of a file with `outer` around it. -/
def sites (file : FileInfo) (outer : List Frame) : Block → List Site
  | ⟨_, specs, consts, inner⟩ =>
    let decls := specs.map fun spec => (⟨spec, file⟩ : Declared)
    let env := .ofDecls decls consts :: outer
    decls.map (⟨·, env⟩) ++ sitesIn file env inner

def sitesIn (file : FileInfo) (outer : List Frame) : List Block → List Site
  | [] => []
  | b :: bs => b.sites file outer ++ sitesIn file outer bs

end

mutual

theorem map_spec_sites (file : FileInfo) (outer : List Frame) :
    (b : Block) → (b.sites file outer).map Site.spec = b.allSpecs
  | ⟨_, specs, consts, inner⟩ => by
    rw [sites, allSpecs, List.map_append, map_spec_sitesIn _ _ inner, List.map_map, List.map_map]
    exact congrArg (· ++ _) (List.map_id specs)

theorem map_spec_sitesIn (file : FileInfo) (outer : List Frame) :
    (bs : List Block) → (sitesIn file outer bs).map Site.spec = allSpecsIn bs
  | [] => rfl
  | b :: bs => by
    rw [sitesIn, allSpecsIn, List.map_append, map_spec_sites file outer b,
      map_spec_sitesIn file outer bs]

end

mutual

theorem anchored_sites {all : List Site} {file : FileInfo} {outer : List Frame}
    (ho : Anchored all outer) :
    (b : Block) → b.sites file outer ⊆ all → ∀ x ∈ b.sites file outer, Anchored all x.env
  | ⟨_, specs, consts, inner⟩, hs => by
    rw [sites, List.append_subset] at hs
    have henv := anchored_cons ho fun d hd => hs.1 (List.mem_map_of_mem hd)
    rw [sites, List.forall_mem_append]
    exact ⟨List.forall_mem_map.mpr fun _ _ => henv, anchored_sitesIn henv inner hs.2⟩

theorem anchored_sitesIn {all : List Site} {file : FileInfo} {outer : List Frame}
    (ho : Anchored all outer) :
    (bs : List Block) → sitesIn file outer bs ⊆ all →
      ∀ x ∈ sitesIn file outer bs, Anchored all x.env
  | [], _ => List.forall_mem_nil _
  | b :: bs, hs => by
    rw [sitesIn, List.append_subset] at hs
    rw [sitesIn, List.forall_mem_append]
    exact ⟨anchored_sites ho b hs.1, anchored_sitesIn ho bs hs.2⟩

end

end Block

/-- What the files of a package declare outside of all blocks. -/
def packageFrame (files : List SourceFile) : Frame :=
  .ofDecls (files.flatMap SourceFile.topDecls) (files.flatMap fun f => f.root.consts)

/-- All declarations of a package, those in nested blocks included. -/
def packageSites (files : List SourceFile) : List Site :=
  (files.flatMap SourceFile.topDecls).map (⟨·, [packageFrame files]⟩) ++
    files.flatMap fun f => Block.sitesIn f.text.info [packageFrame files] f.root.blocks

theorem map_spec_packageSites (files : List SourceFile) :
    (packageSites files).map Site.spec = (packageBlock files).allSpecs := by
  have htop : (files.flatMap SourceFile.topDecls).map (fun d => d.spec) =
      files.flatMap fun f => f.root.specs := by
    simp [List.map_flatMap, SourceFile.topDecls, Function.comp_def]
  have hinner : (files.flatMap fun f =>
        Block.sitesIn f.text.info [packageFrame files] f.root.blocks).map Site.spec =
      Block.allSpecsIn (files.flatMap fun f => f.root.blocks) := by
    rw [List.map_flatMap, Block.allSpecsIn_eq, List.flatMap_assoc]
    refine congrArg (files.flatMap ·) (funext fun f => ?_)
    rw [Block.map_spec_sitesIn, Block.allSpecsIn_eq]
  rw [packageSites, packageBlock, Block.allSpecs, List.map_append, List.map_map, hinner, ← htop]
  rfl

/-- The sites of a package are the declarations of its files. -/
theorem packageSites_perm (files : List SourceFile) :
    ((packageSites files).map Site.spec).Perm (files.flatMap SourceFile.specs) :=
  map_spec_packageSites files ▸ packageBlock_perm files

theorem packageSites_pos_perm (files : List SourceFile) :
    ((packageSites files).map Site.pos).Perm ((files.flatMap SourceFile.specs).map TypeSpec.pos) := by
  have := (packageSites_perm files).map TypeSpec.pos
  rwa [List.map_map] at this

theorem anchored_packageFrame (files : List SourceFile) :
    Anchored (packageSites files) [packageFrame files] :=
  anchored_cons trivial fun _ hd => List.mem_append_left _ (List.mem_map_of_mem hd)

theorem packageSites_closed {files : List SourceFile}
    (hpos : ((files.flatMap SourceFile.specs).map TypeSpec.pos).Nodup) :
    Closed (packageSites files) where
  anchored := by
    refine List.forall_mem_append.mpr ⟨?_, fun x hx => ?_⟩
    · exact List.forall_mem_map.mpr fun _ _ => anchored_packageFrame files
    · obtain ⟨f, hf, hx⟩ := List.mem_flatMap.mp hx
      exact Block.anchored_sitesIn (anchored_packageFrame files) f.root.blocks
        (fun y hy => List.mem_append_right _ (List.mem_flatMap.mpr ⟨f, hf, hy⟩)) x hx
  nodup := (packageSites_pos_perm files).nodup_iff.mpr hpos

end StructLayout
