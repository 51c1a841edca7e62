import StructLayout.Proofs.Check.Parts

/-!
Resolving adds to the cache, and keeps it coherent: every named type in it, also inside of another,
is the one that the cache has for its declaration.
-/

namespace StructLayout

variable {R : Refers} {pending : List Nat} {env : List Frame} {cache : TypeCache}

/-! ## Growth -/

/-- A cache after resolving declarations that were pending. -/
structure Grown (pending : List Nat) (old new : TypeCache) : Prop where
  kept : ∀ p ty, old.lookup p = some ty → new.lookup p = some ty
  keys : ∀ e ∈ new, e ∈ old ∨ e.1 ∈ pending

theorem Grown.refl (pending : List Nat) (cache : TypeCache) : Grown pending cache cache :=
  ⟨fun _ _ h => h, fun _ h => .inl h⟩

theorem Grown.trans {a b c : TypeCache} (h : Grown pending a b) (h' : Grown pending b c) :
    Grown pending a c where
  kept := fun p ty hp => h'.kept p ty (h.kept p ty hp)
  keys := fun e he => (h'.keys e he).elim (h.keys e) .inr

theorem Grown.mono {more : List Nat} {a b : TypeCache} (h : Grown pending a b)
    (hp : pending ⊆ more) : Grown more a b :=
  ⟨h.kept, fun e he => (h.keys e he).imp_right fun hm => hp hm⟩

theorem lookup_insert {pos p : Nat} {own ty : Ty} (hf : cache.lookup pos = none)
    (h : cache.lookup p = some ty) : ((pos, own) :: cache).lookup p = some ty := by
  rw [List.lookup_cons]
  split
  · rename_i hp
    rw [eq_of_beq hp, hf] at h
    cases h
  · exact h

/-- Caching the type of a declaration that had none. -/
theorem Grown.insert {pos : Nat} {own : Ty} {old : TypeCache} (h : Grown pending old cache)
    (hp : pos ∈ pending) (hf : cache.lookup pos = none) :
    Grown pending old ((pos, own) :: cache) where
  kept := fun p ty hp => lookup_insert hf (h.kept p ty hp)
  keys := by
    intro e he
    rcases List.mem_cons.mp he with rfl | he
    · exact .inr hp
    · exact h.keys e he

/-- Nothing is cached for a declaration that is not pending. -/
theorem Grown.lookup_eq_none {pos : Nat} {new : TypeCache}
    (h : Grown (pending.filter (· != pos)) cache new) (hf : cache.lookup pos = none) :
    new.lookup pos = none := by
  refine List.lookup_eq_none_iff.mpr fun e he => ?_
  rcases h.keys e he with he | he
  · exact List.lookup_eq_none_iff.mp hf e he
  · rw [bne_comm]
    exact (List.mem_filter.mp he).2

mutual

theorem resolveExpr_grown (pending : List Nat) (env : List Frame) (cache : TypeCache)
    (e : TypeExpr) : Grown pending cache (resolveExpr pending env cache e).2 := by
  unfold resolveExpr
  split
  · split <;> exact .refl pending cache
  · split
    · exact resolveDecl_grown pending _ cache _
    · split <;> exact .refl pending cache
  all_goals try exact .refl pending cache
  · split
    · exact .refl pending cache
    · exact resolveExpr_grown pending env cache _
  · exact resolveFields_grown pending env cache _
termination_by (pending.length, sizeOf e + 1)

theorem resolveFields_grown (pending : List Nat) (env : List Frame) (cache : TypeCache)
    (ds : List FieldDecl) : Grown pending cache (resolveFields pending env cache ds).2 := by
  unfold resolveFields
  split
  · exact .refl pending cache
  · rename_i d ds
    have hd := resolveField_grown pending env cache d
    generalize resolveField pending env cache d = r at hd
    obtain ⟨_ | own, cache'⟩ := r
    · exact hd
    · exact hd.trans (resolveFields_grown pending env cache' ds)
termination_by (pending.length, sizeOf ds + 1)

theorem resolveField_grown (pending : List Nat) (env : List Frame) (cache : TypeCache)
    (d : FieldDecl) : Grown pending cache (resolveField pending env cache d).2 := by
  obtain ⟨names, pos, ty, tyText, tag, doc, comment⟩ := d
  rw [resolveField]
  exact resolveExpr_grown pending env cache ty
termination_by (pending.length, sizeOf d + 1)

theorem resolveDecl_grown (pending : List Nat) (env : List Frame) (cache : TypeCache)
    (d : Declared) : Grown pending cache (resolveDecl pending env cache d).2 := by
  unfold resolveDecl
  split
  · exact .refl pending cache
  · rename_i hd
    split
    · exact .refl pending cache
    · split
      · rename_i hp
        have he := resolveExpr_grown (pending.filter (· != d.spec.pos)) env cache d.spec.ty
        generalize resolveExpr (pending.filter (· != d.spec.pos)) env cache d.spec.ty = r at he
        have hg : Grown pending cache r.2 := he.mono fun _ h => (List.mem_filter.mp h).1
        obtain ⟨e | ty, cache'⟩ := r
        · exact hg
        · exact hg.insert hp (he.lookup_eq_none hd)
      · exact .refl pending cache
termination_by (pending.length, 0)
decreasing_by exact Prod.Lex.left _ _ (length_filter_ne_lt ‹_›)

end

/-- A resolved declaration is in the cache. -/
theorem lookup_of_resolveDecl {d : Declared} {ty : Ty} {cache' : TypeCache}
    (h : resolveDecl pending env cache d = (.ok ty, cache')) :
    cache'.lookup d.spec.pos = some ty := by
  unfold resolveDecl at h
  split at h
  · cases h
    assumption
  · split at h
    · cases h
    · split at h
      · split at h <;> cases h
        exact List.lookup_cons_self
      · cases h

/-! ## Coherence -/

/-- The named types that cached types are made of are cached too, and may be there. -/
def Coherent (R : Refers) (cache : TypeCache) : Prop :=
  ∀ e ∈ cache, ∀ x ∈ e.2.parts, cache.lookup x.pos = some x.ty ∧ R e.1 x.name x.pos

theorem Coherent.insert {pos : Nat} {own : Ty} (hc : Coherent R cache)
    (hf : cache.lookup pos = none) (hown : ∀ x ∈ own.parts,
      ((pos, own) :: cache).lookup x.pos = some x.ty ∧ R pos x.name x.pos) :
    Coherent R ((pos, own) :: cache) := by
  intro e he x hx
  rcases List.mem_cons.mp he with rfl | he
  · exact hown x hx
  · exact ⟨lookup_insert hf (hc e he x hx).1, (hc e he x hx).2⟩

/-- What resolving leaves: a coherent cache, and something whose parts are all cached and satisfy
`P`. -/
structure Leaves {α : Type} (R : Refers) (parts : α → List Part) (P : Part → Prop)
    (r : Resolved α) : Prop where
  coherent : Coherent R r.2
  parts : ∀ a, r.1 = .ok a → ∀ x ∈ parts a, r.2.lookup x.pos = some x.ty ∧ P x

/-- Declared in sight, or part of what may be. -/
def InSight (R : Refers) (env : List Frame) (x : Part) : Prop :=
  ∃ d ∈ declared env, R d.spec.pos x.name x.pos

section

variable {α β : Type} {parts : α → List Part} {P : Part → Prop} {r : Resolved α}

theorem Leaves.error (hc : Coherent R cache) (e : Unresolved) :
    Leaves R parts P (.error e, cache) :=
  ⟨hc, by simp⟩

/-- Something without named types in it. -/
theorem Leaves.plain {a : α} (hc : Coherent R cache) (h : parts a = []) :
    Leaves R parts P (.ok a, cache) :=
  ⟨hc, by simp [h]⟩

theorem Leaves.map {parts' : β → List Part} {f : α → β} (h : Leaves R parts P r)
    (hf : ∀ a, parts' (f a) ⊆ parts a) : Leaves R parts' P (r.1.map f, r.2) where
  coherent := h.coherent
  parts := by
    intro b hb x hx
    obtain ⟨a, ha, rfl⟩ := map_eq_ok.mp hb
    exact h.parts a ha x (hf a hx)

theorem Leaves.imp {Q : Part → Prop} (h : Leaves R parts P r) (hq : ∀ x, P x → Q x) :
    Leaves R parts Q r :=
  ⟨h.coherent, fun a ha x hx => ⟨(h.parts a ha x hx).1, hq x (h.parts a ha x hx).2⟩⟩

end

mutual

theorem resolveExpr_leaves (pending : List Nat) {env : List Frame} {cache : TypeCache}
    (hn : Scoped R env) (hc : Coherent R cache) (e : TypeExpr) :
    Leaves R Ty.parts (InSight R env) (resolveExpr pending env cache e) := by
  unfold resolveExpr
  split
  · split <;> exact .plain hc rfl
  · split
    · rename_i d env' hd
      obtain ⟨hm, hn', hs⟩ := hn.lookup hd
      exact (resolveDecl_leaves pending hn' hs hc).imp fun x hx => ⟨d, hm, hx⟩
    · split
      · rename_i ty hu
        refine .plain hc ?_
        unfold universe? at hu
        split at hu
        · cases hu
          rfl
        · split at hu <;> cases hu
          rfl
      · exact .error hc _
  all_goals try exact .plain hc rfl
  · exact .error hc _
  · rename_i len elem
    split
    · exact .error hc _
    · exact (resolveExpr_leaves pending hn hc elem).map fun ty => List.Subset.refl _
  · rename_i fields _ _ _
    exact (resolveFields_leaves pending hn hc fields).map fun fs => List.Subset.refl _
termination_by (pending.length, sizeOf e + 1)

theorem resolveFields_leaves (pending : List Nat) {env : List Frame} {cache : TypeCache}
    (hn : Scoped R env) (hc : Coherent R cache) (ds : List FieldDecl) :
    Leaves R Ty.fieldsParts (InSight R env) (resolveFields pending env cache ds) := by
  unfold resolveFields
  split
  · exact .plain hc rfl
  · rename_i d ds
    have hd := resolveField_leaves pending hn hc d
    generalize resolveField pending env cache d = r at hd
    obtain ⟨own | own, cache'⟩ := r
    · exact ⟨hd.coherent, by simp⟩
    · have hds := resolveFields_leaves pending hn hd.coherent ds
      have hg := resolveFields_grown pending env cache' ds
      refine ⟨hds.coherent, fun fs hfs x hx => ?_⟩
      obtain ⟨rest, hrest, rfl⟩ := map_eq_ok.mp hfs
      rw [Ty.fieldsParts_append, List.mem_append] at hx
      rcases hx with hx | hx
      · obtain ⟨hl, hi⟩ := hd.parts own rfl x hx
        exact ⟨hg.kept _ _ hl, hi⟩
      · exact hds.parts rest hrest x hx
termination_by (pending.length, sizeOf ds + 1)

theorem resolveField_leaves (pending : List Nat) {env : List Frame} {cache : TypeCache}
    (hn : Scoped R env) (hc : Coherent R cache) (d : FieldDecl) :
    Leaves R Ty.fieldsParts (InSight R env) (resolveField pending env cache d) := by
  obtain ⟨names, pos, ty, tyText, tag, doc, comment⟩ := d
  rw [resolveField]
  refine (resolveExpr_leaves pending hn hc ty).map fun ty' x hx => ?_
  obtain ⟨f, hf, hx⟩ := Ty.mem_fieldsParts.mp hx
  rwa [FieldDecl.mem_typed hf] at hx
termination_by (pending.length, sizeOf d + 1)

theorem resolveDecl_leaves (pending : List Nat) {env : List Frame} {cache : TypeCache}
    {d : Declared} (hn : Scoped R env) (hs : Sees R env d) (hc : Coherent R cache) :
    Leaves R Ty.parts (fun x => R d.spec.pos x.name x.pos)
      (resolveDecl pending env cache d) := by
  unfold resolveDecl
  split
  · rename_i ty hd
    refine ⟨hc, fun ty' h x hx => ?_⟩
    cases h
    exact hc _ (mem_of_lookup hd) x hx
  · rename_i hd
    split
    · exact .error hc _
    · split
      · have he := resolveExpr_leaves (pending.filter (· != d.spec.pos)) hn hc d.spec.ty
        have hfresh := (resolveExpr_grown (pending.filter (· != d.spec.pos)) env cache
          d.spec.ty).lookup_eq_none hd
        generalize resolveExpr (pending.filter (· != d.spec.pos)) env cache d.spec.ty = r
          at he hfresh
        obtain ⟨e | ty, cache'⟩ := r
        · exact ⟨he.coherent, by simp⟩
        · have hty : ∀ own x, x ∈ ty.parts →
              ((d.spec.pos, own) :: cache').lookup x.pos = some x.ty ∧
                R d.spec.pos x.name x.pos := by
            intro own x hx
            obtain ⟨hl, d', hd', hr⟩ := he.parts ty rfl x hx
            exact ⟨lookup_insert hfresh hl, hs.2 d' hd' _ _ hr⟩
          dsimp only
          generalize ho : (if d.spec.isAlias then ty else
            .named d.spec.name d.spec.pos ty.underlying) = own
          have hown : ∀ x ∈ own.parts, ((d.spec.pos, own) :: cache').lookup x.pos = some x.ty ∧
              R d.spec.pos x.name x.pos := by
            intro x hx
            split at ho <;> subst ho
            · exact hty ty x hx
            · rw [Ty.parts, List.mem_cons] at hx
              rcases hx with rfl | hx
              · exact ⟨List.lookup_cons_self, hs.1⟩
              · exact hty _ x (ty.parts_underlying hx)
          refine ⟨he.coherent.insert hfresh hown, ?_⟩
          rintro _ ⟨⟩
          exact hown
      · exact .error hc _
termination_by (pending.length, 0)
decreasing_by exact Prod.Lex.left _ _ (length_filter_ne_lt ‹_›)

end

end StructLayout
