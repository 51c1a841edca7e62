import Mathlib
import StructLayout.Package.Load
import StructLayout.Proofs.Check.Sight

/-!
Packages with the packages in the directories inside of them: each is checked by itself, and none
holds a type of another one.
-/

namespace StructLayout

/-! ## Types and where they come from -/

/-- The types of some scopes come from declarations: they and all that they hold are in one cache,
and no declaration is there twice. -/
structure Sourced (specs : List TypeSpec) (objects : List TypeName) (cache : TypeCache) : Prop where
  coherent : Coherent (fun _ name q => (name, q) ∈ specs.map TypeSpec.key) cache
  keys : ∀ e ∈ cache, e.1 ∈ specs.map TypeSpec.pos
  cached : Check.Cached cache objects
  own : (objects.map TypeName.key).Subperm (specs.map TypeSpec.key)

namespace Sourced

variable {xs ys : List TypeSpec} {ts us : List TypeName} {c d : TypeCache} {t : TypeName}

theorem nil : Sourced [] [] [] where
  coherent := List.forall_mem_nil _
  keys := List.forall_mem_nil _
  cached := List.forall_mem_nil _
  own := .refl _

theorem key_mem (h : Sourced xs ts c) (ht : t ∈ ts) : t.key ∈ xs.map TypeSpec.key :=
  h.own.subset (List.mem_map_of_mem ht)

theorem pos_mem (h : Sourced xs ts c) (ht : t ∈ ts) : t.pos ∈ xs.map TypeSpec.pos :=
  pos_mem_of_key h.own ht

/-- What a type holds is one of the declarations too, and the cache has its type. -/
theorem part_mem (h : Sourced xs ts c) (ht : t ∈ ts) {x : Part} (hx : x ∈ t.ty.parts) :
    c.lookup x.pos = some x.ty ∧ (x.name, x.pos) ∈ xs.map TypeSpec.key :=
  h.coherent _ (mem_of_lookup (h.cached t ht)) x hx

theorem part_pos_mem (h : Sourced xs ts c) (ht : t ∈ ts) {x : Part} (hx : x ∈ t.ty.parts) :
    x.pos ∈ xs.map TypeSpec.pos := by
  obtain ⟨spec, hs, he⟩ := List.mem_map.mp (h.part_mem ht hx).2
  exact List.mem_map.mpr ⟨spec, hs, (Prod.mk.inj he).2⟩

theorem apart (h : Sourced xs ts c) (h' : Sourced ys us d)
    (hn : ((xs ++ ys).map TypeSpec.pos).Nodup) :
    ∀ t ∈ ts, ∀ u ∈ us, ¬ t.Holds u ∧ ¬ u.Holds t := by
  rw [List.map_append, List.nodup_append] at hn
  intro t ht u hu
  constructor
  · rintro ⟨x, hx, hpos⟩
    exact hn.2.2 _ (h.part_pos_mem ht hx) _ (h'.pos_mem hu) hpos
  · rintro ⟨x, hx, hpos⟩
    exact hn.2.2 _ (h.pos_mem ht) _ (h'.part_pos_mem hu hx) hpos.symm

theorem append (h : Sourced xs ts c) (h' : Sourced ys us d)
    (hn : ((xs ++ ys).map TypeSpec.pos).Nodup) : Sourced (xs ++ ys) (ts ++ us) (c ++ d) := by
  rw [List.map_append, List.nodup_append] at hn
  have left {p : Nat} {ty : Ty} (hp : c.lookup p = some ty) : (c ++ d).lookup p = some ty := by
    rw [List.lookup_append, hp]
    rfl
  have right {p : Nat} {ty : Ty} (hp : d.lookup p = some ty) : (c ++ d).lookup p = some ty := by
    have hnone : c.lookup p = none := by
      rw [List.lookup_eq_none_iff]
      intro e he
      rw [bne_iff_ne]
      exact (hn.2.2 _ (h.keys e he) _ (h'.keys _ (mem_of_lookup hp))).symm
    rw [List.lookup_append, hnone]
    exact hp
  constructor
  case coherent =>
    refine List.forall_mem_append.mpr ⟨fun e he x hx => ?_, fun e he x hx => ?_⟩
    · rw [List.map_append]
      exact ⟨left (h.coherent e he x hx).1, List.mem_append_left _ (h.coherent e he x hx).2⟩
    · rw [List.map_append]
      exact ⟨right (h'.coherent e he x hx).1, List.mem_append_right _ (h'.coherent e he x hx).2⟩
  case keys =>
    rw [List.map_append]
    exact List.forall_mem_append.mpr ⟨fun e he => List.mem_append_left _ (h.keys e he),
      fun e he => List.mem_append_right _ (h'.keys e he)⟩
  case cached =>
    exact List.forall_mem_append.mpr ⟨fun t ht => left (h.cached t ht),
      fun t ht => right (h'.cached t ht)⟩
  case own =>
    rw [List.map_append, List.map_append]
    exact h.own.append h'.own

end Sourced

/-! ## Scopes that are put together -/

namespace Scope

variable {H H' : TypeName → TypeName → Prop}

theorem allObjectsIn_append (xs ys : List Scope) :
    allObjectsIn (xs ++ ys) = allObjectsIn xs ++ allObjectsIn ys := by
  simp only [allObjectsIn_eq, List.flatMap_append]

theorem LayeredIn.append {xs ys : List Scope} (hx : LayeredIn H xs) (hy : LayeredIn H ys)
    (h : ∀ t ∈ allObjectsIn xs, ∀ u ∈ allObjectsIn ys, ¬ H t u ∧ ¬ H u t) :
    LayeredIn H (xs ++ ys) := by
  induction xs with
  | nil => exact hy
  | cons x xs ih =>
    obtain ⟨hown, hcross, hrest⟩ := hx
    rw [allObjectsIn, List.forall_mem_append] at h
    refine ⟨hown, ?_, ih hrest h.2⟩
    rw [List.append_eq, allObjectsIn_append]
    exact fun t ht => List.forall_mem_append.mpr ⟨hcross t ht, h.1 t ht⟩

/-- A scope with more scopes inside of it. -/
theorem Layered.extend {s : Scope} {more : List Scope} (hs : s.Layered H) (hm : LayeredIn H more)
    (h : ∀ t ∈ s.allObjects, ∀ u ∈ allObjectsIn more, ¬ H t u ∧ ¬ H u t) :
    ({ s with children := s.children ++ more } : Scope).Layered H := by
  obtain ⟨kind, types, children⟩ := s
  obtain ⟨hown, hchildren⟩ := hs
  rw [allObjects, List.forall_mem_append] at h
  refine ⟨fun t ht => ?_, hchildren.append hm h.2⟩
  rw [allObjectsIn_append]
  exact List.forall_mem_append.mpr ⟨hown t ht, fun u hu => (h.1 t ht u hu).1⟩

mutual

theorem Layered.mono : {s : Scope} → s.Layered H →
    (∀ t ∈ s.allObjects, ∀ u ∈ s.allObjects, H' t u → H t u) → s.Layered H'
  | ⟨_, _, _⟩, hl, h => by
    rw [allObjects] at h
    exact ⟨fun t ht u hu hn => hl.1 t ht u hu
        (h t (List.mem_append_left _ ht) u (List.mem_append_right _ hu) hn),
      hl.2.mono fun t ht u hu =>
        h t (List.mem_append_right _ ht) u (List.mem_append_right _ hu)⟩

theorem LayeredIn.mono : {ss : List Scope} → LayeredIn H ss →
    (∀ t ∈ allObjectsIn ss, ∀ u ∈ allObjectsIn ss, H' t u → H t u) → LayeredIn H' ss
  | [], _, _ => trivial
  | s :: ss, ⟨hs, hcross, hss⟩, h => by
    rw [allObjectsIn] at h
    refine ⟨hs.mono fun t ht u hu =>
        h t (List.mem_append_left _ ht) u (List.mem_append_left _ hu), fun t ht u hu => ?_,
      hss.mono fun t ht u hu =>
        h t (List.mem_append_right _ ht) u (List.mem_append_right _ hu)⟩
    have ht' := List.mem_append_left (allObjectsIn ss) ht
    have hu' := List.mem_append_right s.allObjects hu
    exact ⟨fun hn => (hcross t ht u hu).1 (h t ht' u hu' hn),
      fun hn => (hcross t ht u hu).2 (h u hu' t ht' hn)⟩

end

end Scope

/-! ## Packages -/

mutual

/-- The scope of a package is that of its own files, with the scopes of the packages inside. -/
inductive Assembled : PackageFiles → Scope → Prop
  | mk {name path files scope children inner} : (check files name path).1 = .ok scope →
      AllAssembled children inner →
      Assembled ⟨name, path, files, children⟩ { scope with children := scope.children ++ inner }

inductive AllAssembled : List PackageFiles → List Scope → Prop
  | nil : AllAssembled [] []
  | cons {p ps s ss} : Assembled p s → AllAssembled ps ss → AllAssembled (p :: ps) (s :: ss)

end

mutual

/-- Types of packages come from their declarations, and none is held from outside of its scope. -/
theorem Assembled.layered : {p : PackageFiles} → {s : Scope} → Assembled p s →
    ((p.all.flatMap SourceFile.specs).map TypeSpec.pos).Nodup →
      (∃ cache, Sourced (p.all.flatMap SourceFile.specs) s.allObjects cache) ∧
        s.Layered TypeName.Holds
  | _, _, @Assembled.mk _ _ _ scope _ inner hcheck hinner, hn => by
    rw [PackageFiles.all, List.flatMap_append] at hn ⊢
    have hn' := hn
    rw [List.map_append, List.nodup_append] at hn'
    obtain ⟨c, hc, hkeys, hcached, hown, hlayered⟩ := check_layered hn'.1 hcheck
    have hs : Sourced _ _ c := ⟨hc, hkeys, hcached, hown⟩
    obtain ⟨⟨d, hd⟩, hin⟩ := hinner.layered hn'.2.1
    have hobjects : ({ scope with children := scope.children ++ inner } : Scope).allObjects =
        scope.allObjects ++ Scope.allObjectsIn inner := by
      simp only [Scope.allObjects_eq, Scope.objects, Scope.allObjectsIn_append, List.append_assoc]
    rw [hobjects]
    exact ⟨⟨_, hs.append hd hn⟩, hlayered.extend hin (hs.apart hd hn)⟩

theorem AllAssembled.layered : {ps : List PackageFiles} → {ss : List Scope} → AllAssembled ps ss →
    (((PackageFiles.allOf ps).flatMap SourceFile.specs).map TypeSpec.pos).Nodup →
      (∃ cache, Sourced ((PackageFiles.allOf ps).flatMap SourceFile.specs)
        (Scope.allObjectsIn ss) cache) ∧ Scope.LayeredIn TypeName.Holds ss
  | _, _, .nil, _ => ⟨⟨_, .nil⟩, trivial⟩
  | _ :: _, _ :: _, .cons hp hps, hn => by
    rw [PackageFiles.allOf, List.flatMap_append] at hn ⊢
    have hn' := hn
    rw [List.map_append, List.nodup_append] at hn'
    obtain ⟨⟨c, hc⟩, hs⟩ := hp.layered hn'.1
    obtain ⟨⟨d, hd⟩, hss⟩ := hps.layered hn'.2.1
    exact ⟨⟨_, hc.append hd hn⟩, hs, hc.apart hd hn, hss⟩

end

/-! ## Loading -/

theorem AllAssembled.append {ps qs : List PackageFiles} {ss ts : List Scope}
    (h : AllAssembled ps ss) (h' : AllAssembled qs ts) : AllAssembled (ps ++ qs) (ss ++ ts) :=
  match h with
  | .nil => h'
  | .cons hp hps => .cons hp (hps.append h')

namespace Package

variable {watch : Watch} {path : String} {c c' : Progress}

theorem ok_of_ofExcept {α : Type} {x : Except LoadError α} {a : α}
    (h : (MonadExcept.ofExcept x : Load α).run.run c = (.ok a, c')) : x = .ok a := by
  cases x with
  | error e => cases h
  | ok b => cases h; rfl

theorem checkFiles_eq_ok {files : List SourceFile} {scope : Scope}
    (h : (checkFiles path files).run.run c = (.ok scope, c')) :
    (check files (nameOf path files) path).1 = .ok scope := by
  unfold checkFiles at h
  dsimp only at h
  split at h
  · cases h
  · generalize check files (nameOf path files) path = r at h ⊢
    obtain ⟨outcome, warnings⟩ := r
    obtain ⟨_, _, -, h⟩ := bind_run_eq_ok.mp h
    cases outcome with
    | error e => cases h
    | ok s =>
      cases h
      rfl

/-- What a directory inside of a package is loaded from. -/
theorem loadInner_eq_ok {entries : List (String × FileTree)} {o : Option (Scope × PackageFiles)}
    (h : (loadInner watch path (.directory entries)).run.run c = (.ok o, c')) :
    ∃ fs files scope inner c₁ c₂, readFiles path (.startingAt c.next) entries = .ok (fs, files) ∧
      (check files (nameOf path files) path).1 = .ok scope ∧
      (loadEntries watch path entries).run.run c₁ = (.ok inner, c₂) ∧
      o = if files.isEmpty && inner.isEmpty then none
        else some (assemble path files scope inner) := by
  unfold loadInner at h
  split at h
  · cases h
  · obtain ⟨_, _, hget, h⟩ := bind_run_eq_ok.mp h
    cases hget
    obtain ⟨⟨fs, files⟩, _, hread, h⟩ := bind_run_eq_ok.mp h
    obtain ⟨_, _, -, h⟩ := bind_run_eq_ok.mp h
    -- a directory without files attaches nothing, and both ways go on alike
    obtain ⟨c₁, h⟩ : ∃ c₁, (do
        let scope ← checkFiles path files
        let inner ← loadEntries watch path entries
        return if files.isEmpty && inner.isEmpty then none
          else some (assemble path files scope inner) : Load _).run.run c₁ = (.ok o, c') := by
      dsimp only at h
      split at h
      · exact ⟨_, h⟩
      · obtain ⟨_, _, -, h⟩ := bind_run_eq_ok.mp h
        exact ⟨_, h⟩
    obtain ⟨scope, _, hscope, h⟩ := bind_run_eq_ok.mp h
    obtain ⟨inner, _, hinner, h⟩ := bind_run_eq_ok.mp h
    cases h
    exact ⟨fs, files, scope, inner, _, _, ok_of_ofExcept hread, checkFiles_eq_ok hscope, hinner, rfl⟩

theorem loadEntries_cons_eq_ok {name : String} {t : FileTree} {rest : List (String × FileTree)}
    {inner : List (Scope × PackageFiles)}
    (h : (loadEntries watch path ((name, t) :: rest)).run.run c = (.ok inner, c')) :
    (∃ c₁ c₂, (loadEntries watch path rest).run.run c₁ = (.ok inner, c₂)) ∨
      ∃ own others c₁ c₂ c₃, (loadInner watch (Path.join path name) t).run.run c = (.ok own, c₁) ∧
        (loadEntries watch path rest).run.run c₂ = (.ok others, c₃) ∧
        inner = own.toList ++ others := by
  unfold loadEntries at h
  split at h
  · exact .inl ⟨_, _, h⟩
  · obtain ⟨own, _, hown, h⟩ := bind_run_eq_ok.mp h
    obtain ⟨others, _, hothers, h⟩ := bind_run_eq_ok.mp h
    cases h
    exact .inr ⟨own, others, _, _, _, hown, hothers, rfl⟩

/-- What a package is loaded from. -/
theorem loadTop_eq_ok {recursive : Bool} {entries : List (String × FileTree)} {pkg : Package}
    (h : (loadTop watch recursive path entries).run.run c = (.ok pkg, c')) :
    ∃ fs files scope inner, readFiles path .empty entries = .ok (fs, files) ∧
      (check files (nameOf path files) path).1 = .ok scope ∧
      (inner = [] ∨ ∃ c₁ c₂, (loadEntries watch path entries).run.run c₁ = (.ok inner, c₂)) ∧
      pkg.scope = (assemble path files scope inner).1 ∧
      pkg.sources = (assemble path files scope inner).2 := by
  unfold loadTop at h
  obtain ⟨⟨fs, files⟩, _, hread, h⟩ := bind_run_eq_ok.mp h
  obtain ⟨_, _, -, h⟩ := bind_run_eq_ok.mp h
  obtain ⟨scope, _, hscope, h⟩ := bind_run_eq_ok.mp h
  obtain ⟨inner, c₁, hinner, h⟩ : ∃ inner c₁,
      (inner = [] ∨ ∃ c₁ c₂, (loadEntries watch path entries).run.run c₁ = (.ok inner, c₂)) ∧
      (do
        if files.isEmpty && inner.isEmpty then throw (.noFiles path)
        let made := assemble path files scope inner
        return { scope := made.1, sources := made.2, locator := (← get).locator } :
          Load Package).run.run c₁ = (.ok pkg, c') := by
    dsimp only at h
    split at h
    · obtain ⟨inner, _, hinner, h⟩ := bind_run_eq_ok.mp h
      exact ⟨inner, _, .inr ⟨_, _, hinner⟩, h⟩
    · exact ⟨[], _, .inl rfl, h⟩
  dsimp only at h
  split at h
  · cases h
  · obtain ⟨_, _, -, h⟩ := bind_run_eq_ok.mp h
    cases h
    exact ⟨fs, files, scope, inner, ok_of_ofExcept hread, checkFiles_eq_ok hscope, hinner, rfl, rfl⟩

theorem assembled_of_check {files : List SourceFile} {scope : Scope}
    {inner : List (Scope × PackageFiles)}
    (h : (check files (nameOf path files) path).1 = .ok scope)
    (hinner : AllAssembled (inner.map Prod.snd) (inner.map Prod.fst)) :
    Assembled (assemble path files scope inner).2 (assemble path files scope inner).1 :=
  .mk h hinner

mutual

theorem loadInner_assembled {path : String} {c c' : Progress} {o : Option (Scope × PackageFiles)} :
    (t : FileTree) → (loadInner watch path t).run.run c = (.ok o, c') →
      AllAssembled (o.toList.map Prod.snd) (o.toList.map Prod.fst)
  | .file _, h => by
    unfold loadInner at h
    cases h
    exact .nil
  | .directory entries, h => by
    obtain ⟨_, files, scope, inner, _, _, -, hscope, hinner, rfl⟩ := loadInner_eq_ok h
    split
    · exact .nil
    · exact .cons (assembled_of_check hscope (loadEntries_assembled entries hinner)) .nil

theorem loadEntries_assembled {path : String} {c c' : Progress}
    {inner : List (Scope × PackageFiles)} :
    (entries : List (String × FileTree)) →
      (loadEntries watch path entries).run.run c = (.ok inner, c') →
      AllAssembled (inner.map Prod.snd) (inner.map Prod.fst)
  | [], h => by
    unfold loadEntries at h
    cases h
    exact .nil
  | (name, t) :: rest, h => by
    rcases loadEntries_cons_eq_ok h with ⟨_, _, h⟩ | ⟨own, others, _, _, _, hown, hothers, rfl⟩
    · exact loadEntries_assembled rest h
    · rw [List.map_append, List.map_append]
      exact (loadInner_assembled t hown).append (loadEntries_assembled rest hothers)

end

theorem loadTop_assembled {recursive : Bool} {entries : List (String × FileTree)} {pkg : Package}
    (h : (loadTop watch recursive path entries).run.run c = (.ok pkg, c')) :
    Assembled pkg.sources pkg.scope := by
  obtain ⟨_, files, scope, inner, -, hscope, hinner, hs, hf⟩ := loadTop_eq_ok h
  rw [hs, hf]
  refine assembled_of_check hscope ?_
  rcases hinner with rfl | ⟨_, _, hinner⟩
  · exact .nil
  · exact loadEntries_assembled entries hinner

theorem loadTop_of_load {recursive : Bool} {entries : List (String × FileTree)} {pkg : Package}
    {warnings : List Warning} (h : load watch recursive path entries = (.ok pkg, warnings)) :
    ∃ c, (loadTop watch recursive path entries).run.run {} = (.ok pkg, c) :=
  ⟨_, Prod.ext (Prod.mk.inj h).1 rfl⟩

/-- Packages that are loaded are assembled. -/
theorem load_assembled {recursive : Bool} {entries : List (String × FileTree)} {pkg : Package}
    {warnings : List Warning} (h : load watch recursive path entries = (.ok pkg, warnings)) :
    Assembled pkg.sources pkg.scope := by
  obtain ⟨_, hrun⟩ := loadTop_of_load h
  exact loadTop_assembled hrun

end Package

end StructLayout
