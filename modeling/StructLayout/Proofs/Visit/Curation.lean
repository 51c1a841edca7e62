import StructLayout.Proofs.Check.Packages
import StructLayout.Proofs.Visit.Arrival
import StructLayout.Proofs.Visit.Outcome
import StructLayout.Proofs.Visit.Progress

/-!
Curating a package comes to the same whatever the schedule of the visit: to the outcomes that its
structures have by themselves.
-/

namespace StructLayout

namespace Visit

section

variable {v : Setting} {root : Scope} {specs : List TypeSpec} {cache : TypeCache}

/-- The identities of declarations are different from each other. -/
def Distinct (v : Setting) (specs : List TypeSpec) : Prop :=
  (specs.map fun t => v.identity t.pos).Nodup

theorem Distinct.nodup_pos (h : Distinct v specs) : (specs.map TypeSpec.pos).Nodup := by
  refine List.Nodup.of_map v.identity ?_
  rw [List.map_map]
  exact h

theorem Distinct.inj (h : Distinct v specs) {p q : Nat} (hp : p ∈ specs.map TypeSpec.pos)
    (hq : q ∈ specs.map TypeSpec.pos) (he : v.identity p = v.identity q) : p = q := by
  obtain ⟨t, ht, rfl⟩ := List.mem_map.mp hp
  obtain ⟨u, hu, rfl⟩ := List.mem_map.mp hq
  rw [List.inj_on_of_nodup_map h ht hu he]

theorem Distinct.name_eq (h : Distinct v specs) {m n : String} {p : Nat}
    (hm : (m, p) ∈ specs.map TypeSpec.key) (hn : (n, p) ∈ specs.map TypeSpec.key) : m = n := by
  have hpos : ((specs.map TypeSpec.key).map Prod.snd).Nodup := by
    rw [List.map_map]
    exact h.nodup_pos
  exact (Prod.mk.inj (List.inj_on_of_nodup_map hpos hm hn rfl)).1

theorem founded_of_sourced (hd : Distinct v specs) (hs : Sourced specs root.allObjects cache) :
    Founded v root :=
  founded_of_cached hs.coherent hs.keys hs.cached fun _ hp _ hq => hd.inj hp hq

theorem consistent_of_sourced (hd : Distinct v specs)
    (hs : Sourced specs root.allObjects cache) : Consistent v root := by
  intro t ht f hf x hx u hu he
  have hx := mem_parts_of_mem_fields hf hx
  have ht := objects_of_targets ht
  have hu := objects_of_targets hu
  have hpos : u.pos = x.pos := hd.inj (hs.pos_mem hu) (hs.part_pos_mem ht hx) he
  obtain ⟨hty, hkey⟩ := hs.part_mem ht hx
  have hcached := hs.cached u hu
  rw [hpos, hty] at hcached
  have hown : (u.name, u.pos) ∈ specs.map TypeSpec.key := hs.key_mem hu
  rw [hpos] at hown
  exact ⟨hpos, hd.name_eq hown hkey, (Option.some.inj hcached).symm⟩

/-- Who needs a slot of another structure holds it. -/
theorem holds_of_needs (hd : Distinct v specs) (hs : Sourced specs root.allObjects cache)
    {t u : TypeName} (ht : t ∈ root.allObjects) (hu : u ∈ root.allObjects) (h : v.Needs t u) :
    t.Holds u := by
  obtain ⟨f, hf, he⟩ := List.mem_filterMap.mp h
  rw [Ty.heldStruct?_eq, Option.map_map] at he
  obtain ⟨x, hx, he⟩ := Option.map_eq_some_iff.mp he
  have hx := mem_parts_of_mem_fields hf hx
  exact ⟨x, hx, hd.inj (hs.part_pos_mem ht hx) (hs.pos_mem hu) he⟩

theorem targets_sublist (v : Setting) (root : Scope) :
    (v.targets root).Sublist root.allObjects := by
  refine List.filter_sublist.trans ?_
  rw [Scope.allObjects_eq]
  refine List.Sublist.append_left ?_ _
  unfold Setting.inner
  split
  · exact List.Sublist.refl _
  · exact List.nil_sublist _

theorem nodup_targets (hd : Distinct v specs) (hs : Sourced specs root.allObjects cache) :
    ((v.targets root).map fun t => v.identity t.pos).Nodup := by
  have hsub := subperm_map hs.own fun k => v.identity k.2
  rw [List.map_map, List.map_map] at hsub
  obtain ⟨ids, hperm, hids⟩ := hsub
  exact (hperm.nodup_iff.mp (hd.sublist hids)).sublist ((targets_sublist v root).map _)

end

/-- Curating a checked package whose declarations have identities of their own, with back
references and under a context that is not done while the visit lasts. Whatever the schedule, the
visit does not get stuck, and it ends with the outcomes that are given by recursion on the structs
that fields hold. The same results, or the same first failure, come of them in whatever order they
arrive, and it is these that the package is curated to. -/
theorem visit_deterministic {p : Plan} {pkg : Package} {watch : Watch}
    (hpkg : Assembled pkg.sources pkg.scope)
    (hid : ((pkg.sources.all.flatMap SourceFile.specs).map fun t =>
      pkg.locator.identity t.pos).Nodup)
    (hlines : pkg.locator.Worded) (hback : p.backref = true) (hlive : watch .visit = none) :
    let v := (p.visitor pkg.locator).setting
    (∀ seen s, Reaches v (.start p.backref pkg.scope) seen s → (∀ status ∈ seen, status = none) →
      (s.tasks ≠ [] → ∃ i t, s.step v none i = some t) ∧
      (s.tasks = [] → s.results.Perm (v.outcomes pkg.scope) ∧
        ∀ arrived, arrived.Perm s.results →
          Plan.settle watch arrived = Plan.settle watch (v.outcomes pkg.scope))) ∧
    p.curate watch pkg = Plan.settle watch (v.outcomes pkg.scope) := by
  intro v
  have hd : Distinct v (pkg.sources.all.flatMap SourceFile.specs) := hid
  obtain ⟨⟨cache, hs⟩, hholds⟩ := hpkg.layered hd.nodup_pos
  have hf := founded_of_sourced hd hs
  have hlayers : pkg.scope.Layered v.Needs :=
    hholds.mono fun t ht u hu => holds_of_needs hd hs ht hu
  have progress {seen : List (Option ContextError)} {s : State}
      (h : Reaches v (.start p.backref pkg.scope) seen s) (hne : s.tasks ≠ []) :
      ∃ i t, s.step v none i = some t :=
    exists_step hf (accounted_of_reaches h) (orderly_of_reaches h) hne none
  have hids : ((v.outcomes pkg.scope).map Applied.id).Nodup := by
    rw [Setting.outcomes, List.map_map]
    exact nodup_targets hd hs
  have lined : ∀ a ∈ v.outcomes pkg.scope, a.id.Lined := by
    intro a ha
    obtain ⟨t, -, rfl⟩ := List.mem_map.mp ha
    exact hlines.lined t.pos
  have settled {arrived : List Applied} (h : arrived.Perm (v.outcomes pkg.scope)) :
      Plan.settle watch arrived = Plan.settle watch (v.outcomes pkg.scope) :=
    (Plan.settle_eq_of_perm h.symm hids lined watch).symm
  have outcomes {seen : List (Option ContextError)} {s : State}
      (h : Reaches v (.start p.backref pkg.scope) seen s) (hseen : ∀ status ∈ seen, status = none)
      (hend : s.tasks = []) : s.results.Perm (v.outcomes pkg.scope) :=
    results_perm_outcomes (consistent_of_sourced hd hs) hlayers (nodup_targets hd hs)
      (hback ▸ h) hseen hend
  refine ⟨fun seen s h hseen => ⟨progress h, fun hend => ?_⟩, ?_⟩
  · exact ⟨outcomes h hseen hend, fun arrived ha => settled (ha.trans (outcomes h hseen hend))⟩
  · obtain ⟨n, hn⟩ := reaches_run v none (.start p.backref pkg.scope)
    have hend : ((State.start p.backref pkg.scope).run v none).tasks = [] := by
      by_contra hne
      obtain ⟨i, t, hstep⟩ := progress hn hne
      rw [State.step_run] at hstep
      cases hstep
    rw [Plan.curate, hlive]
    exact settled (outcomes hn (fun status h => List.eq_of_mem_replicate h) hend)

def holderPackage : Package where
  scope := holderScope
  sources := ⟨"a", "", [holderFile], []⟩
  locator := .ofRoot holderFiles

/-- A plan that puts a padding of eight bytes in front of all fields. -/
def padded : Plan where
  package := ""
  recursive := false
  platform := ⟨"gc", "amd64", ⟨8, 8⟩, []⟩
  pipe := [.transform (.separate 8 true)]
  wanted := fun _ => true
  deep := true
  backref := true
  emitter := ⟨.layouts, .stream⟩
  print := {}

/-- The task of `O` waits for the one of `I`, and reads its size. -/
def waited : List (Option ContextError × Nat) :=
  heldUp ++ List.replicate 9 (none, 0)

theorem visit_deterministic_padded :
    let v := (padded.visitor holderPackage.locator).setting
    Assembled holderPackage.sources holderPackage.scope ∧
      ((v.outcomes holderScope).map fun a => (a.origin.name, outcomeSize a)) =
        [("I", some 9), ("O", some 17)] ∧
      (∃ s, (State.start true holderScope).follow v waited = some s ∧ s.tasks = [] ∧
        s.results.Perm (v.outcomes holderScope)) ∧
      padded.curate (.steady none) holderPackage =
        Plan.settle (.steady none) (v.outcomes holderScope) := by
  intro v
  have hpkg : Assembled holderPackage.sources holderPackage.scope := by
    have hcheck : (check [holderFile] "a" "").1 = .ok holderScope := by cbv
    exact .mk hcheck .nil
  have hid : ((holderPackage.sources.all.flatMap SourceFile.specs).map fun t =>
      holderPackage.locator.identity t.pos).Nodup := by
    decide +kernel
  have hlines : holderPackage.locator.Worded := by
    simp [Locator.Worded, holderPackage, Locator.ofRoot, holderFiles, Text.wordBound]
  have hlive : Watch.steady none .visit = none := rfl
  obtain ⟨hruns, hcurate⟩ := visit_deterministic (p := padded) hpkg hid hlines rfl hlive
  have hsizes : ((v.outcomes holderScope).map fun a => (a.origin.name, outcomeSize a)) =
      [("I", some 9), ("O", some 17)] := by
    decide +kernel
  have hfollow : ((State.start true holderScope).follow v waited).map
      (fun s => s.tasks.length) = some 0 := by
    decide +kernel
  obtain ⟨s, hs, hlen⟩ := Option.map_eq_some_iff.mp hfollow
  have hend := List.eq_nil_of_length_eq_zero hlen
  have hseen : ∀ status ∈ (waited.map Prod.fst).reverse, status = none := by decide
  exact ⟨hpkg, hsizes, ⟨s, hs, hend, ((hruns _ s (reaches_of_follow hs) hseen).2 hend).1⟩, hcurate⟩

end Visit

end StructLayout
