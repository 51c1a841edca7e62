import Mathlib
import StructLayout.Proofs.Visit.Schedule

/-!
What becomes of a claim. Every claimed identity stays with one task until its outcome is handed
over, and no identity is claimed twice; so under every schedule a visit that ends has one outcome
for each claimed identity. If the context is never done, the claimed identities are those of all
wanted structures.
-/

namespace StructLayout

namespace Visit

variable {v : Setting} {status : Option ContextError} {visited : List Identity} {b : Backrefs}
  {task : Task} {e : Effect}

/-! ## What a visit is to find -/

namespace Setting

/-- The types inside of a scope that a visit goes through after those of the scope. -/
def inner (v : Setting) (scope : Scope) : List TypeName :=
  if v.deep then Scope.allObjectsIn scope.children else []

/-- The types that a visit goes through. -/
def region (v : Setting) (scope : Scope) : List TypeName :=
  scope.objects ++ v.inner scope

/-- The declarations that a visit is to curate. -/
def targets (v : Setting) (scope : Scope) : List TypeName :=
  (v.region scope).filter v.wants

/-- An outcome of one of the declarations, under a context found as in `seen`. -/
def IsOutcome (v : Setting) (scope : Scope) (seen : List (Option ContextError)) (a : Applied) :
    Prop :=
  ∃ t ∈ v.targets scope, ∃ status ∈ seen, ∃ sizes,
    a = apply v status (v.identity t.pos) t sizes

theorem mem_targets {scope : Scope} {t : TypeName} :
    t ∈ v.targets scope ↔ t ∈ v.region scope ∧ v.wants t = true :=
  List.mem_filter

theorem inner_eq_flatMap {scope : Scope} (h : v.deep = true) :
    v.inner scope = scope.children.flatMap v.region := by
  have hr : v.region = Scope.allObjects := by
    funext s
    rw [region, inner, if_pos h, Scope.allObjects_eq]
  rw [inner, if_pos h, Scope.allObjectsIn_eq, hr]

theorem inner_eq_nil {scope : Scope} (h : v.deep = false) : v.inner scope = [] := by
  rw [inner, h]
  rfl

theorem region_sub_inner {scope s : Scope} (h : v.deep = true) (hs : s ∈ scope.children) :
    v.region s ⊆ v.inner scope := by
  rw [inner_eq_flatMap h]
  exact fun t ht => List.mem_flatMap.mpr ⟨s, hs, ht⟩

theorem inner_sub (v : Setting) (scope : Scope) :
    v.inner scope ⊆ Scope.allObjectsIn scope.children := by
  unfold inner
  split
  · exact List.Subset.refl _
  · exact List.nil_subset _

/-- A visit goes through no other types than those of the scope and of the ones inside of it. -/
theorem region_sub (v : Setting) (scope : Scope) : v.region scope ⊆ scope.allObjects := by
  rw [Scope.allObjects_eq]
  exact List.append_subset.mpr ⟨List.subset_append_left _ _,
    List.Subset.trans (inner_sub v scope) (List.subset_append_right _ _)⟩

theorem IsOutcome.mono {scope : Scope} {seen later : List (Option ContextError)} {a : Applied}
    (h : v.IsOutcome scope seen a) (hs : seen ⊆ later) : v.IsOutcome scope later a := by
  obtain ⟨t, ht, status, hst, sizes, ha⟩ := h
  exact ⟨t, ht, status, hs hst, sizes, ha⟩

end Setting

/-! ## What a task holds -/

namespace Task

/-- The declarations that a task has claimed and not curated yet. -/
def claims : Task → List (Identity × TypeName)
  | .scan _ _ claimed => claimed
  | .alloc id t _ _ claimed => claimed ++ [(id, t)]
  | .descend _ => []
  | .lookup id t _ _ | .await id t _ _ _ => [(id, t)]
  | .publish _ | .send _ => []

/-- The outcomes that a task has yet to hand over. -/
def outcomes : Task → List Applied
  | .publish a | .send a => [a]
  | _ => []

/-- The types that a task has yet to go through. -/
def pending (v : Setting) : Task → List TypeName
  | .scan scope rest _ | .alloc _ _ scope rest _ => rest ++ v.inner scope
  | .descend scope => v.inner scope
  | _ => []

/-- The identities that a task answers for. -/
def ids (task : Task) : List Identity :=
  task.claims.map Prod.fst ++ task.outcomes.map Applied.id

end Task

theorem claims_curate (claimed : List (Identity × TypeName)) :
    (claimed.map fun c => Task.lookup c.1 c.2 (fieldsOf c.2) []).flatMap Task.claims = claimed := by
  induction claimed with
  | nil => rfl
  | cons c cs ih => rw [List.map_cons, List.flatMap_cons, ih]; rfl

theorem outcomes_curate (claimed : List (Identity × TypeName)) :
    (claimed.map fun c => Task.lookup c.1 c.2 (fieldsOf c.2) []).flatMap Task.outcomes = [] := by
  rw [List.flatMap_map]
  exact List.flatMap_eq_nil_iff.mpr fun _ _ => rfl

theorem pending_curate (claimed : List (Identity × TypeName)) :
    (claimed.map fun c => Task.lookup c.1 c.2 (fieldsOf c.2) []).flatMap (Task.pending v) = [] := by
  rw [List.flatMap_map]
  exact List.flatMap_eq_nil_iff.mpr fun _ _ => rfl

theorem claims_descend (scopes : List Scope) :
    (scopes.map fun s => Task.scan s s.objects []).flatMap Task.claims = [] := by
  simp [Task.claims]

theorem outcomes_descend (scopes : List Scope) :
    (scopes.map fun s => Task.scan s s.objects []).flatMap Task.outcomes = [] := by
  simp [Task.outcomes]

theorem pending_descend (scopes : List Scope) :
    (scopes.map fun s => Task.scan s s.objects []).flatMap (Task.pending v) =
      scopes.flatMap v.region := by
  rw [List.flatMap_map]
  rfl

/-! ## One step -/

theorem flatMap_ids (tasks : List Task) : (tasks.flatMap Task.ids).Perm
    ((tasks.flatMap Task.claims).map Prod.fst ++ (tasks.flatMap Task.outcomes).map Applied.id) := by
  rw [List.map_flatMap, List.map_flatMap]
  exact (List.flatMap_append_perm tasks _ _).symm

/-- A step hands on all that the task answers for, with what it claims. -/
theorem Moves.ids_perm (h : Moves v status visited b task e) :
    ∃ new, e.visited = new ++ visited ∧ (visited.Nodup → (new ++ visited).Nodup) ∧
      (e.tasks.flatMap Task.ids ++ e.results.map Applied.id).Perm (new ++ task.ids) := by
  cases h with
  | claim _ hn =>
    refine ⟨[_], rfl, fun hv => List.nodup_cons.mpr ⟨hn, hv⟩, ?_⟩
    simp [Task.ids, Task.claims, Task.outcomes]
  | @spawn scope claimed =>
    refine ⟨[], rfl, id, ?_⟩
    have hc := flatMap_ids (claimed.map fun c => Task.lookup c.1 c.2 (fieldsOf c.2) [])
    rw [claims_curate, outcomes_curate] at hc
    simpa [Task.ids, Task.claims, Task.outcomes] using hc
  | @descend scope =>
    refine ⟨[], rfl, id, ?_⟩
    have hc := flatMap_ids (scope.children.map fun s => Task.scan s s.objects [])
    rw [claims_descend, outcomes_descend] at hc
    rw [List.map_nil, List.append_nil]
    exact hc
  | _ => exact ⟨[], rfl, id, by simp [Task.ids, Task.claims, Task.outcomes, Visit.apply]⟩

/-- What a step leaves claimed was so before, or is a wanted type that the task went through. -/
theorem Moves.claims_sub (h : Moves v status visited b task e) {c : Identity × TypeName}
    (hc : c ∈ e.tasks.flatMap Task.claims) :
    c ∈ task.claims ∨ ∃ t ∈ task.pending v, v.wants t = true ∧ c = (v.identity t.pos, t) := by
  cases h with
  | claim hw _ =>
    rw [List.flatMap_singleton, Task.claims, List.mem_append] at hc
    rcases hc with hc | hc
    · exact .inl hc
    · exact .inr ⟨_, List.mem_append_left _ List.mem_cons_self, hw, List.mem_singleton.mp hc⟩
  | spawn =>
    rw [List.flatMap_append, claims_curate] at hc
    exact .inl (by simpa [Task.claims] using hc)
  | descend =>
    rw [claims_descend] at hc
    cases hc
  | _ => grind [Task.claims]

/-- A step adds nothing to what is to be gone through. -/
theorem Moves.pending_sub (h : Moves v status visited b task e) :
    e.tasks.flatMap (Task.pending v) ⊆ task.pending v := by
  intro t ht
  cases h with
  | spawn =>
    rw [List.flatMap_append, pending_curate] at ht
    simpa [Task.pending] using ht
  | descend hd _ =>
    rw [pending_descend, ← Setting.inner_eq_flatMap hd] at ht
    exact ht
  | _ => grind [Task.pending]

/-- The outcomes that a step leaves were there before, or are made of a claim. -/
theorem Moves.outcomes_sub (h : Moves v status visited b task e) {a : Applied}
    (ha : a ∈ e.tasks.flatMap Task.outcomes ∨ a ∈ e.results) :
    a ∈ task.outcomes ∨ ∃ c ∈ task.claims, ∃ sizes, a = apply v status c.1 c.2 sizes := by
  cases h with
  | spawn => simp [List.flatMap_append, outcomes_curate, Task.outcomes] at ha
  | descend => simp [outcomes_descend] at ha
  | curate => exact .inr ⟨_, List.mem_singleton.mpr rfl, _, by simpa [Task.outcomes] using ha⟩
  | _ => grind [Task.outcomes]

/-- While the context is not done, a wanted type is gone through until its identity is claimed. -/
theorem Moves.pending_kept (h : Moves v none visited b task e) {t : TypeName}
    (ht : t ∈ task.pending v) (hw : v.wants t = true) :
    v.identity t.pos ∈ e.visited ∨ t ∈ e.tasks.flatMap (Task.pending v) := by
  cases h with
  | stop hs => exact absurd rfl hs
  | pass hn =>
    rcases List.mem_cons.mp ht with rfl | ht
    · rw [hw] at hn
      cases hn
    · exact .inr (by simpa [Task.pending] using ht)
  | leave _ hv =>
    rcases List.mem_cons.mp ht with rfl | ht
    · exact .inl hv
    · exact .inr (by simpa [Task.pending] using ht)
  | claim =>
    rcases List.mem_cons.mp ht with rfl | ht
    · exact .inl List.mem_cons_self
    · exact .inr (by simpa [Task.pending] using ht)
  | spawn =>
    rw [List.flatMap_append, pending_curate]
    exact .inr (by simpa [Task.pending] using ht)
  | descend hd _ =>
    rw [pending_descend, ← Setting.inner_eq_flatMap hd]
    exact .inr ht
  | rest hr =>
    rcases hr with hd | hs
    · rw [Task.pending, Setting.inner_eq_nil hd] at ht
      cases ht
    · exact absurd rfl hs
  | alloc => exact .inr (by simpa [Task.pending] using ht)
  | _ => cases ht

/-! ## A whole visit -/

/-- Where the claims of a visit of `root` are, after steps that found the context as in `seen`. -/
structure Accounted (v : Setting) (root : Scope) (seen : List (Option ContextError)) (s : State) :
    Prop where
  nodup : s.visited.Nodup
  ids : (s.tasks.flatMap Task.ids ++ s.results.map Applied.id).Perm s.visited
  pending : s.tasks.flatMap (Task.pending v) ⊆ v.region root
  claims : ∀ c ∈ s.tasks.flatMap Task.claims, c.2 ∈ v.targets root ∧ c.1 = v.identity c.2.pos
  outcomes : ∀ a, a ∈ s.tasks.flatMap Task.outcomes ∨ a ∈ s.results → v.IsOutcome root seen a
  missing : (∀ status ∈ seen, status = none) → ∀ t ∈ v.targets root,
    v.identity t.pos ∈ s.visited ∨ t ∈ s.tasks.flatMap (Task.pending v)

theorem accounted_start (v : Setting) (backref : Bool) (root : Scope) :
    Accounted v root [] (.start backref root) where
  nodup := List.nodup_nil
  ids := .refl []
  pending := by
    rw [State.start, List.flatMap_singleton]
    exact List.Subset.refl _
  claims := by simp [State.start, Task.claims]
  outcomes := by simp [State.start, Task.outcomes]
  missing := fun _ t ht => by
    rw [State.start, List.flatMap_singleton]
    exact .inr (Setting.mem_targets.mp ht).1

theorem Accounted.step {root : Scope} {seen : List (Option ContextError)} {s t : State} {i : Nat}
    (ha : Accounted v root seen s) (h : s.step v status i = some t) :
    Accounted v root (status :: seen) t := by
  obtain ⟨front, task, back, e, htasks, hm, rfl⟩ := State.step_eq_some h
  obtain ⟨hnodup, hids, hpending, hclaims, houtcomes, hmissing⟩ := ha
  simp only [htasks, List.flatMap_append, List.flatMap_cons, List.append_subset,
    List.mem_append] at hids hpending hclaims houtcomes hmissing
  constructor <;> dsimp only
  case nodup =>
    obtain ⟨new, hv, hn, -⟩ := hm.ids_perm
    rw [hv]
    exact hn hnodup
  case ids =>
    obtain ⟨new, hv, -, hp⟩ := hm.ids_perm
    rw [hv]
    refine List.perm_iff_count.mpr fun id => ?_
    have h1 := hids.count_eq id
    have h2 := hp.count_eq id
    simp only [List.flatMap_append, List.map_append, List.count_append] at h1 h2 ⊢
    omega
  case pending =>
    simp only [List.flatMap_append, List.append_subset]
    exact ⟨⟨hpending.1, List.Subset.trans hm.pending_sub hpending.2.1⟩, hpending.2.2⟩
  case claims =>
    simp only [List.flatMap_append, List.mem_append]
    rintro c ((hc | hc) | hc)
    · exact hclaims c (.inl hc)
    · rcases hm.claims_sub hc with hc | ⟨t, ht, hw, rfl⟩
      · exact hclaims c (.inr (.inl hc))
      · exact ⟨Setting.mem_targets.mpr ⟨hpending.2.1 ht, hw⟩, rfl⟩
    · exact hclaims c (.inr (.inr hc))
  case outcomes =>
    have old : ∀ a, v.IsOutcome root seen a → v.IsOutcome root (status :: seen) a :=
      fun a h => h.mono (List.subset_cons_self ..)
    have own : ∀ a, a ∈ e.tasks.flatMap Task.outcomes ∨ a ∈ e.results →
        v.IsOutcome root (status :: seen) a := by
      intro a ha
      rcases hm.outcomes_sub ha with ha | ⟨c, hc, sizes, rfl⟩
      · exact old a (houtcomes a (.inl (.inr (.inl ha))))
      · obtain ⟨ht, hid⟩ := hclaims c (.inr (.inl hc))
        exact ⟨c.2, ht, status, List.mem_cons_self, sizes, by rw [hid]⟩
    simp only [List.flatMap_append, List.mem_append]
    rintro a (((ha | ha) | ha) | (ha | ha))
    · exact old a (houtcomes a (.inl (.inl ha)))
    · exact own a (.inl ha)
    · exact old a (houtcomes a (.inl (.inr (.inr ha))))
    · exact old a (houtcomes a (.inr ha))
    · exact own a (.inr ha)
  case missing =>
    simp only [List.forall_mem_cons, List.flatMap_append, List.mem_append]
    rintro ⟨rfl, hseen⟩ t ht
    obtain ⟨new, hv, -⟩ := hm.ids_perm
    rcases hmissing hseen t ht with hold | hf | hp | hb
    · exact .inl (by rw [hv]; exact List.mem_append_right _ hold)
    · exact .inr (.inl (.inl hf))
    · rcases hm.pending_kept hp (Setting.mem_targets.mp ht).2 with hnew | hp
      · exact .inl hnew
      · exact .inr (.inl (.inr hp))
    · exact .inr (.inr hb)

theorem accounted_of_reaches {backref : Bool} {root : Scope} {seen : List (Option ContextError)}
    {s : State} (h : Reaches v (.start backref root) seen s) : Accounted v root seen s := by
  induction h with
  | start => exact accounted_start v backref root
  | step _ hs ih => exact ih.step hs

/-- No two outcomes have one identity. -/
theorem Accounted.results_nodup {root : Scope} {seen : List (Option ContextError)} {s : State}
    (ha : Accounted v root seen s) : (s.results.map Applied.id).Nodup :=
  (ha.ids.nodup_iff.mpr ha.nodup).sublist (List.sublist_append_right _ _)

/-- A visit that has ended has handed over what it claimed. -/
theorem Accounted.results_perm {root : Scope} {seen : List (Option ContextError)} {s : State}
    (ha : Accounted v root seen s) (hs : s.tasks = []) :
    (s.results.map Applied.id).Perm s.visited := by
  have := ha.ids
  rwa [hs, List.flatMap_nil, List.nil_append] at this

/-- A claim is never given back. -/
theorem Reaches.visited_sub {s t : State} {seen : List (Option ContextError)}
    (h : Reaches v s seen t) : s.visited ⊆ t.visited := by
  induction h with
  | start => exact List.Subset.refl _
  | step _ hs ih =>
    obtain ⟨front, task, back, e, -, hm, rfl⟩ := State.step_eq_some hs
    obtain ⟨new, hv, -⟩ := hm.ids_perm
    rw [hv]
    exact List.Subset.trans ih (List.subset_append_right _ _)

/-- A visit that has ended has handed over one outcome for each identity that was claimed on the
way, each of them the outcome of a wanted declaration. If the context was never done, these are
the identities of all wanted declarations. -/
theorem results_once {backref : Bool} {root : Scope} {seen : List (Option ContextError)} {s : State}
    (h : Reaches v (.start backref root) seen s) (hs : s.tasks = []) :
    (s.results.map Applied.id).Nodup ∧
    (∀ r later, Reaches v r later s → ∀ id ∈ r.visited, id ∈ s.results.map Applied.id) ∧
    (∀ a ∈ s.results, v.IsOutcome root seen a) ∧
    ((∀ status ∈ seen, status = none) → ∀ id,
      id ∈ s.results.map Applied.id ↔ ∃ t ∈ v.targets root, v.identity t.pos = id) := by
  have ha := accounted_of_reaches h
  have hids := ha.results_perm hs
  refine ⟨hids.nodup_iff.mpr ha.nodup, ?_, fun a h => ha.outcomes a (.inr h), ?_⟩
  · intro r later hr id hid
    exact hids.mem_iff.mpr (hr.visited_sub hid)
  · intro hseen id
    constructor
    · intro hid
      obtain ⟨a, har, rfl⟩ := List.mem_map.mp hid
      obtain ⟨t, ht, status, -, sizes, rfl⟩ := ha.outcomes a (.inr har)
      exact ⟨t, ht, rfl⟩
    · rintro ⟨t, ht, rfl⟩
      rcases ha.missing hseen t ht with hv | hp
      · exact hids.mem_iff.mpr hv
      · rw [hs] at hp
        cases hp

/-- A package with a structure, and with a block that is found twice. -/
def twofold : Scope :=
  let object := fun name pos =>
    (name, (⟨name, pos, false, .named name pos (.struct [])⟩ : TypeName))
  let block : Scope := { kind := .block, types := [object "t" 9] }
  { kind := .package "demo" "/pkg", types := [object "T" 3], children := [block, block] }

/-- All structures are wanted and stay as they are. -/
def Setting.lines : Setting where
  platform := ⟨"gc", "amd64", ⟨8, 8⟩, []⟩
  strategy := fun _ origin => .ok origin
  wanted := fun _ => true
  identity := .ofLine
  location := fun _ => "/pkg"
  deep := true

/-- The second finder of the block claims its structure, the first one passes it by, and then the
context is done. -/
def raced : List (Option ContextError × Nat) :=
  [0, 0, 0, 1, 2, 1, 1, 1].map (none, ·) ++
    [1, 0, 0, 0, 0, 0, 0, 0, 0].map (some .cancelled, ·)

theorem results_once_twofold :
    (∃ s, (State.start true twofold).follow .lines raced = some s ∧ s.tasks = [] ∧
      (s.results.map Applied.id).Nodup ∧ (s.results.map Applied.id).length = 2 ∧
      ∀ a ∈ s.results, Setting.lines.IsOutcome twofold (raced.map Prod.fst).reverse a) ∧
    ((State.start true twofold).run .lines none).tasks = [] ∧
    ∀ id, id ∈ ((State.start true twofold).run .lines none).results.map Applied.id ↔
      ∃ t ∈ Setting.lines.targets twofold, Setting.lines.identity t.pos = id := by
  constructor
  · have hr : ((State.start true twofold).follow .lines raced).map
        (fun s => (s.tasks.length, s.results.length)) = some (0, 2) := by cbv
    obtain ⟨s, hs, hl⟩ := Option.map_eq_some_iff.mp hr
    obtain ⟨ht, hn⟩ := Prod.mk.inj hl
    have ht := List.eq_nil_of_length_eq_zero ht
    obtain ⟨hnodup, -, houtcome, -⟩ := results_once (reaches_of_follow hs) ht
    exact ⟨s, hs, ht, hnodup, by rw [List.length_map, hn], houtcome⟩
  · have ht : ((State.start true twofold).run .lines none).tasks = [] := by cbv
    obtain ⟨n, hn⟩ := reaches_run .lines none (.start true twofold)
    obtain ⟨-, -, -, hall⟩ := results_once hn ht
    exact ⟨ht, hall fun status h => List.eq_of_mem_replicate h⟩

end Visit

end StructLayout
