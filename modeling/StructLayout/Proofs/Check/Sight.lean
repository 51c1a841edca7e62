import Mathlib.Data.List.Nodup
import StructLayout.Proofs.Check.Scopes
import StructLayout.Proofs.Source.Blocks

/-!
What the declarations of a package can refer to: those of their own block and of the blocks around
it. So types of a scope never hold types of the scopes inside of it, and scopes next to each other
share nothing but what is outside of both.
-/

namespace StructLayout

/-- Declarations by place, each with the names and places of all that it can refer to. -/
abbrev Sight := List (Nat × List (String × Nat))

def Sight.Refers (k : Sight) : StructLayout.Refers :=
  fun p name q => ∃ e ∈ k, e.1 = p ∧ (name, q) ∈ e.2

theorem Sight.eq_of_mem {k : Sight} {p : Nat} {seen seen' : List (String × Nat)}
    (hk : (k.map Prod.fst).Nodup) (h : (p, seen) ∈ k) (h' : (p, seen') ∈ k) : seen = seen' :=
  (Prod.mk.inj (List.inj_on_of_nodup_map hk h h' rfl)).2

namespace Block

mutual

/-- What each declaration of a block can refer to, where `outer` is in sight from outside. -/
def sight (outer : List (String × Nat)) : Block → Sight
  | ⟨_, specs, _, blocks⟩ =>
    specs.map (fun t => (t.pos, specs.map TypeSpec.key ++ outer)) ++
      sightIn (specs.map TypeSpec.key ++ outer) blocks

def sightIn (outer : List (String × Nat)) : List Block → Sight
  | [] => []
  | b :: bs => b.sight outer ++ sightIn outer bs

end

mutual

theorem map_fst_sight (outer : List (String × Nat)) :
    (b : Block) → (b.sight outer).map Prod.fst = b.allSpecs.map TypeSpec.pos
  | ⟨_, specs, _, blocks⟩ => by
    rw [sight, allSpecs, List.map_append, List.map_append, map_fst_sightIn _ blocks, List.map_map]
    rfl

theorem map_fst_sightIn (outer : List (String × Nat)) :
    (bs : List Block) → (sightIn outer bs).map Prod.fst = (allSpecsIn bs).map TypeSpec.pos
  | [] => rfl
  | b :: bs => by
    rw [sightIn, allSpecsIn, List.map_append, List.map_append, map_fst_sight outer b,
      map_fst_sightIn outer bs]

end

mutual

/-- Nothing is in sight but what the block declares and what is in sight from outside. -/
theorem sight_sub {outer : List (String × Nat)} {e : Nat × List (String × Nat)} :
    (b : Block) → e ∈ b.sight outer → e.2 ⊆ b.allSpecs.map TypeSpec.key ++ outer
  | ⟨_, specs, _, blocks⟩, h => by
    rw [allSpecs, List.map_append, List.append_assoc]
    rcases List.mem_append.mp (by rwa [sight] at h) with h | h
    · obtain ⟨t, -, rfl⟩ := List.mem_map.mp h
      exact List.append_subset.mpr ⟨List.subset_append_left _ _,
        List.Subset.trans (List.subset_append_right _ _) (List.subset_append_right _ _)⟩
    · refine List.Subset.trans (sightIn_sub blocks h) (List.append_subset.mpr ⟨?_, ?_⟩)
      · exact List.Subset.trans (List.subset_append_left _ _) (List.subset_append_right _ _)
      · exact List.append_subset.mpr ⟨List.subset_append_left _ _,
          List.Subset.trans (List.subset_append_right _ _) (List.subset_append_right _ _)⟩

theorem sightIn_sub {outer : List (String × Nat)} {e : Nat × List (String × Nat)} :
    (bs : List Block) → e ∈ sightIn outer bs → e.2 ⊆ (allSpecsIn bs).map TypeSpec.key ++ outer
  | [], h => by cases h
  | b :: bs, h => by
    rw [allSpecsIn, List.map_append, List.append_assoc]
    rcases List.mem_append.mp (by rwa [sightIn] at h) with h | h
    · exact List.Subset.trans (sight_sub b h) (List.append_subset.mpr ⟨List.subset_append_left _ _,
        List.Subset.trans (List.subset_append_right _ _) (List.subset_append_right _ _)⟩)
    · exact List.Subset.trans (sightIn_sub bs h) (List.subset_append_right _ _)

end

mutual

/-- Sight fits the blocks: it grows inwards only. -/
theorem fits_sight {k : Sight} (hk : (k.map Prod.fst).Nodup) {outer : List (String × Nat)}
    (ho : ∀ d ∈ outer, ∃ seen, (d.2, seen) ∈ k ∧ seen ⊆ outer) :
    (b : Block) → b.sight outer ⊆ k → b.Fits k.Refers (outer.map Prod.snd)
  | ⟨_, specs, _, blocks⟩, h => by
    rw [sight, List.append_subset] at h
    have hown : ∀ t ∈ specs, (t.pos, specs.map TypeSpec.key ++ outer) ∈ k :=
      fun t ht => h.1 (List.mem_map_of_mem ht)
    have hseen : ∀ d ∈ specs.map TypeSpec.key ++ outer,
        ∃ seen, (d.2, seen) ∈ k ∧ seen ⊆ specs.map TypeSpec.key ++ outer := by
      intro d hd
      rcases List.mem_append.mp hd with hd | hd
      · obtain ⟨t, ht, rfl⟩ := List.mem_map.mp hd
        exact ⟨_, hown t ht, List.Subset.refl _⟩
      · obtain ⟨seen, hm, hs⟩ := ho d hd
        exact ⟨seen, hm, List.Subset.trans hs (List.subset_append_right _ _)⟩
    have hpos : (specs.map TypeSpec.key ++ outer).map Prod.snd =
        specs.map TypeSpec.pos ++ outer.map Prod.snd := by
      rw [List.map_append, List.map_map]
      rfl
    have hin := fitsIn_sight hk hseen blocks h.2
    rw [hpos] at hin
    refine ⟨fun t ht => ⟨⟨_, hown t ht, rfl, ?_⟩, fun p hp name q hr => ?_⟩, hin⟩
    · exact List.mem_append_left _ (List.mem_map_of_mem ht)
    · rw [← hpos] at hp
      obtain ⟨d, hd, rfl⟩ := List.mem_map.mp hp
      obtain ⟨seen, hm, hs⟩ := hseen d hd
      obtain ⟨⟨p, seen'⟩, he, rfl, hq⟩ := hr
      rw [Sight.eq_of_mem hk he hm] at hq
      exact ⟨_, hown t ht, rfl, hs hq⟩

theorem fitsIn_sight {k : Sight} (hk : (k.map Prod.fst).Nodup) {outer : List (String × Nat)}
    (ho : ∀ d ∈ outer, ∃ seen, (d.2, seen) ∈ k ∧ seen ⊆ outer) :
    (bs : List Block) → sightIn outer bs ⊆ k → FitsIn k.Refers (outer.map Prod.snd) bs
  | [], _ => trivial
  | b :: bs, h => by
    rw [sightIn, List.append_subset] at h
    exact ⟨fits_sight hk ho b h.1, fitsIn_sight hk ho bs h.2⟩

end

end Block

/-! ## Scopes -/

mutual

/-- The types of a scope and of those inside of it are of different declarations. -/
theorem ScopeOf.subperm : {b : Block} → {s : Scope} → ScopeOf b s →
    (s.allObjects.map TypeName.key).Subperm (b.allSpecs.map TypeSpec.key)
  | _, _, .mk h hs => by
    rw [Scope.allObjects, Block.allSpecs, List.map_append, List.map_append, List.map_map]
    exact h.append hs.subperm

theorem ScopesOf.subperm : {bs : List Block} → {ss : List Scope} → ScopesOf bs ss →
    ((Scope.allObjectsIn ss).map TypeName.key).Subperm
      ((Block.allSpecsIn bs).map TypeSpec.key)
  | _, _, .nil => .refl _
  | _, _, .skip h => by
    rw [Block.allSpecsIn, List.map_append]
    exact h.subperm.trans (List.sublist_append_right _ _).subperm
  | _, _, .cons h hs => by
    rw [Block.allSpecsIn, Scope.allObjectsIn, List.map_append, List.map_append]
    exact h.subperm.append hs.subperm

end

namespace Scope

mutual

/-- No type of a scope has to do with a type inside of it, or next to it, in the sense of `H`. -/
def Layered (H : TypeName → TypeName → Prop) : Scope → Prop
  | ⟨_, types, children⟩ =>
    (∀ t ∈ types.map (·.2), ∀ u ∈ allObjectsIn children, ¬ H t u) ∧ LayeredIn H children

def LayeredIn (H : TypeName → TypeName → Prop) : List Scope → Prop
  | [] => True
  | s :: ss => s.Layered H ∧
    (∀ t ∈ s.allObjects, ∀ u ∈ allObjectsIn ss, ¬ H t u ∧ ¬ H u t) ∧ LayeredIn H ss

end

end Scope

/-- A type holds another one of a package by value. -/
def TypeName.Holds (t u : TypeName) : Prop :=
  ∃ x ∈ t.ty.parts, x.pos = u.pos

section

variable {k : Sight} {outer : List (String × Nat)}

theorem pos_mem_of_key {t : TypeName} {ts : List TypeName} {specs : List TypeSpec}
    (h : (ts.map TypeName.key).Subperm (specs.map TypeSpec.key)) (ht : t ∈ ts) :
    t.pos ∈ specs.map TypeSpec.pos := by
  obtain ⟨spec, hs, he⟩ := List.mem_map.mp (h.subset (List.mem_map_of_mem ht))
  exact List.mem_map.mpr ⟨spec, hs, (Prod.mk.inj he).2⟩

/-- What a declaration of some blocks refers to is in sight of those blocks. -/
theorem Sight.mem_of_refers {part : Sight} {keys : List (String × Nat)} {p q : Nat} {name : String}
    (hk : (k.map Prod.fst).Nodup) (hpart : part ⊆ k) (hkeys : ∀ e ∈ part, e.2 ⊆ keys)
    (hp : p ∈ part.map Prod.fst) (h : k.Refers p name q) : (name, q) ∈ keys := by
  obtain ⟨⟨_, seen⟩, hm, rfl⟩ := List.mem_map.mp hp
  obtain ⟨⟨_, seen'⟩, hm', rfl, hq⟩ := h
  rw [Sight.eq_of_mem hk hm' (hpart hm)] at hq
  exact hkeys _ hm hq

mutual

/-- Scopes are layered if types hold only what is in sight. -/
theorem ScopeOf.layered {k : Sight} (hk : (k.map Prod.fst).Nodup) {outer : List (String × Nat)} :
    {b : Block} → {s : Scope} → ScopeOf b s → b.sight outer ⊆ k →
      (outer.map Prod.snd ++ b.allSpecs.map TypeSpec.pos).Nodup →
        (∀ t ∈ s.allObjects, ∀ x ∈ t.ty.parts, k.Refers t.pos x.name x.pos) →
          s.Layered TypeName.Holds
  | ⟨_, specs, _, blocks⟩, ⟨_, types, children⟩, .mk h hs, hsub, hn, hr => by
    rw [Block.sight, List.append_subset] at hsub
    rw [Block.allSpecs, List.map_append] at hn
    rw [Scope.allObjects, List.forall_mem_append] at hr
    have hseen : (specs.map TypeSpec.key ++ outer).map Prod.snd =
        specs.map TypeSpec.pos ++ outer.map Prod.snd := by
      rw [List.map_append, List.map_map]
      rfl
    have hn' : ((specs.map TypeSpec.key ++ outer).map Prod.snd ++
        (Block.allSpecsIn blocks).map TypeSpec.pos).Nodup := by
      rw [hseen]
      refine List.Perm.nodup ?_ hn
      rw [← List.append_assoc]
      exact List.perm_append_comm.append_right _
    refine ⟨fun t ht u hu => ?_, hs.layered hk hsub.2 hn' hr.2⟩
    rintro ⟨x, hx, hpos⟩
    have hp : t.pos ∈ (specs.map fun t => (t.pos, specs.map TypeSpec.key ++ outer)).map
        Prod.fst := by
      rw [List.map_map]
      exact pos_mem_of_key (by rwa [List.map_map]) ht
    have hx := Sight.mem_of_refers hk hsub.1 (fun e he => by
      obtain ⟨t, -, rfl⟩ := List.mem_map.mp he
      exact List.Subset.refl _) hp (hr.1 t ht x hx)
    have hu := pos_mem_of_key hs.subperm hu
    exact (List.nodup_append.mp hn').2.2 _ (List.mem_map_of_mem hx) _ hu hpos

theorem ScopesOf.layered {k : Sight} (hk : (k.map Prod.fst).Nodup) {outer : List (String × Nat)} :
    {bs : List Block} → {ss : List Scope} → ScopesOf bs ss → Block.sightIn outer bs ⊆ k →
      (outer.map Prod.snd ++ (Block.allSpecsIn bs).map TypeSpec.pos).Nodup →
        (∀ t ∈ Scope.allObjectsIn ss, ∀ x ∈ t.ty.parts, k.Refers t.pos x.name x.pos) →
          Scope.LayeredIn TypeName.Holds ss
  | _, _, .nil, _, _, _ => trivial
  | b :: bs, _, .skip h, hsub, hn, hr => by
    rw [Block.sightIn, List.append_subset] at hsub
    rw [Block.allSpecsIn, List.map_append] at hn
    exact h.layered hk hsub.2
      (hn.sublist ((List.sublist_append_right _ _).append_left _)) hr
  | b :: bs, s :: ss, .cons h hs, hsub, hn, hr => by
    rw [Block.sightIn, List.append_subset] at hsub
    rw [Block.allSpecsIn, List.map_append] at hn
    rw [Scope.allObjectsIn, List.forall_mem_append] at hr
    refine ⟨h.layered hk hsub.1 (hn.sublist ((List.sublist_append_left _ _).append_left _)) hr.1,
      fun t ht u hu => ?_,
      hs.layered hk hsub.2 (hn.sublist ((List.sublist_append_right _ _).append_left _)) hr.2⟩
    have htp := pos_mem_of_key h.subperm ht
    have hup := pos_mem_of_key hs.subperm hu
    obtain ⟨-, hin, hout⟩ := List.nodup_append.mp hn
    obtain ⟨-, -, hapart⟩ := List.nodup_append.mp hin
    constructor
    · rintro ⟨x, hx, hpos⟩
      have hx := Sight.mem_of_refers hk hsub.1 (fun e he => b.sight_sub he)
        (by rwa [b.map_fst_sight]) (hr.1 t ht x hx)
      have hx := List.mem_map_of_mem (f := Prod.snd) hx
      rw [hpos, List.map_append, List.map_map] at hx
      rcases List.mem_append.mp hx with hx | hx
      · exact hapart _ hx _ hup rfl
      · exact hout _ hx _ (List.mem_append_right _ hup) rfl
    · rintro ⟨x, hx, hpos⟩
      have hx := Sight.mem_of_refers hk hsub.2 (fun e he => Block.sightIn_sub bs he)
        (by rwa [Block.map_fst_sightIn]) (hr.2 u hu x hx)
      have hx := List.mem_map_of_mem (f := Prod.snd) hx
      rw [hpos, List.map_append, List.map_map] at hx
      rcases List.mem_append.mp hx with hx | hx
      · exact hapart _ htp _ hx rfl
      · exact hout _ hx _ (List.mem_append_left _ htp) rfl

end

end

theorem Block.allSpecsIn_eq (bs : List Block) : allSpecsIn bs = bs.flatMap allSpecs := by
  induction bs with
  | nil => rfl
  | cons b bs ih => rw [allSpecsIn, ih, List.flatMap_cons]

theorem packageBlock_perm (files : List SourceFile) :
    (packageBlock files).allSpecs.Perm (files.flatMap SourceFile.specs) := by
  have hspecs : files.flatMap SourceFile.specs =
      files.flatMap fun f => f.root.specs ++ f.root.blocks.flatMap Block.allSpecs := by
    refine congrArg (files.flatMap ·) (funext fun f => ?_)
    rw [SourceFile.specs, Block.allSpecs_eq, Block.allSpecsIn_eq]
  rw [hspecs, packageBlock, Block.allSpecs, Block.allSpecsIn_eq, List.flatMap_assoc]
  exact List.flatMap_append_perm files _ _

/-- A checked package whose declarations are in different places: its types come from one coherent
cache, each object is of a declaration of its own, and scopes hold nothing of those inside. -/
theorem check_layered {files : List SourceFile} {name path : String} {scope : Scope}
    (hpos : ((files.flatMap SourceFile.specs).map TypeSpec.pos).Nodup)
    (h : (check files name path).1 = .ok scope) :
    ∃ cache, Coherent (fun _ name q => (name, q) ∈ (files.flatMap SourceFile.specs).map TypeSpec.key)
        cache ∧
      (∀ e ∈ cache, e.1 ∈ (files.flatMap SourceFile.specs).map TypeSpec.pos) ∧
      Check.Cached cache scope.allObjects ∧
      (scope.allObjects.map TypeName.key).Subperm
        ((files.flatMap SourceFile.specs).map TypeSpec.key) ∧
      scope.Layered TypeName.Holds := by
  have hperm := packageBlock_perm files
  let k : Sight := (packageBlock files).sight []
  have hk : (k.map Prod.fst).Nodup := by
    rw [Block.map_fst_sight]
    exact (hperm.map _).nodup_iff.mpr hpos
  have hfits : (packageBlock files).Fits k.Refers [] :=
    Block.fits_sight hk (List.forall_mem_nil _) _ (List.Subset.refl _)
  obtain ⟨cache, hc, hkeys, hcached, hof⟩ := check_eq_ok hfits h
  refine ⟨cache, fun e he x hx => ⟨(hc e he x hx).1, ?_⟩, ?_, hcached,
    hof.subperm.trans (hperm.map _).subperm, ?_⟩
  · obtain ⟨e', he', -, hx⟩ := (hc e he x hx).2
    have := Block.sight_sub _ he' hx
    rw [List.append_nil] at this
    exact (hperm.map _).mem_iff.mp this
  · rwa [List.map_flatMap]
  · refine hof.layered hk (List.Subset.refl _) ?_ fun t ht x hx =>
      (hc _ (mem_of_lookup (hcached t ht)) x hx).2
    exact (hperm.map _).nodup_iff.mpr hpos

end StructLayout
