import StructLayout.Proofs.Check.Scopes
import StructLayout.Proofs.Source.Identities
import StructLayout.Proofs.Visit.Slots

/-!
Visits do not get stuck. A task waits only for structures that its own one holds by value, and
checking leaves no structure that holds itself.
-/

namespace StructLayout

mutual

theorem Block.fits_all (outer : List Nat) :
    (b : Block) → b.Fits (fun _ _ _ => True) outer
  | ⟨_, _, _, blocks⟩ => ⟨fun _ _ => ⟨trivial, fun _ _ _ _ _ => trivial⟩, fitsIn_all _ blocks⟩

theorem Block.fitsIn_all (outer : List Nat) :
    (bs : List Block) → Block.FitsIn (fun _ _ _ => True) outer bs
  | [] => trivial
  | b :: bs => ⟨b.fits_all outer, fitsIn_all outer bs⟩

end

namespace Visit

variable {v : Setting} {status : Option ContextError} {root : Scope} {s : State}
  {seen : List (Option ContextError)}

/-- Whenever a structure of the visit holds another one, it has the larger type. -/
def Founded (v : Setting) (root : Scope) : Prop :=
  ∀ t ∈ v.targets root, ∀ f ∈ fieldsOf t, ∀ pos, f.ty.heldStruct? = some pos →
    ∀ u ∈ v.targets root, v.identity u.pos = v.identity pos → sizeOf u.ty < sizeOf t.ty

theorem objects_of_targets {t : TypeName} (h : t ∈ v.targets root) : t ∈ root.allObjects :=
  v.region_sub root (Setting.mem_targets.mp h).1

/-- Types from one coherent cache are founded, if identities tell their declarations apart. -/
theorem founded_of_cached {R : Refers} {cache : TypeCache} {places : List Nat}
    (hc : Coherent R cache) (hk : ∀ e ∈ cache, e.1 ∈ places)
    (hroot : Check.Cached cache root.allObjects)
    (hid : ∀ p ∈ places, ∀ q ∈ places, v.identity p = v.identity q → p = q) : Founded v root := by
  intro t ht f hf pos hpos u hu he
  rw [Ty.heldStruct?_eq] at hpos
  obtain ⟨x, hx, rfl⟩ := Option.map_eq_some_iff.mp hpos
  have htc := mem_of_lookup (hroot t (objects_of_targets ht))
  have huc := hroot u (objects_of_targets hu)
  have hxc := (hc _ htc x (mem_parts_of_mem_fields hf hx)).1
  have hsame : u.pos = x.pos :=
    hid _ (hk _ (mem_of_lookup huc)) _ (hk _ (mem_of_lookup hxc)) he
  rw [hsame, hxc] at huc
  obtain ⟨fs, hfs, hf⟩ := mem_fields hf
  rw [← Option.some.inj huc]
  exact Ty.sizeOf_part_lt hfs hf (Ty.mem_parts_of_held? hx)

/-- One task waits for a slot that another one has yet to close. -/
def State.WaitsOn (s : State) (i j : Nat) : Prop :=
  ∃ id t slot rest sizes key u, s.tasks[i]? = some (.await id t slot rest sizes) ∧
    s.backrefs.read? slot = none ∧ (key, slot) ∈ s.backrefs.keys ∧ s.tasks[j]? = some u ∧
      key ∈ u.owed

/-- Who waits for a slot of one that waits has the larger type. -/
theorem sizeOf_lt_of_await {id id' : Identity} {t t' : TypeName} {slot slot' : Nat}
    {rest rest' : List TyField} {sizes sizes' : List (Option Nat)} {key : Identity}
    (hf : Founded v root) (ha : Accounted v root seen s) (ho : Orderly v s)
    (ht : .await id t slot rest sizes ∈ s.tasks) (hk : (key, slot) ∈ s.backrefs.keys)
    (hu : .await id' t' slot' rest' sizes' ∈ s.tasks)
    (hkey : key ∈ (Task.await id' t' slot' rest' sizes').owed) : sizeOf t'.ty < sizeOf t.ty := by
  obtain ⟨f, pos, hs, hpos, hm⟩ := ho.follows _ ht
  have hclaim : (id, t) ∈ s.tasks.flatMap Task.claims :=
    List.mem_flatMap.mpr ⟨_, ht, List.mem_singleton.mpr rfl⟩
  have hclaim' : (id', t') ∈ s.tasks.flatMap Task.claims :=
    List.mem_flatMap.mpr ⟨_, hu, List.mem_singleton.mpr rfl⟩
  obtain ⟨htarget', hid'⟩ := ha.claims _ hclaim'
  refine hf t (ha.claims _ hclaim).1 f (hs.subset List.mem_cons_self) pos hpos t' htarget' ?_
  rw [← hid', ← ho.numbered.key_eq hk hm]
  exact (List.mem_singleton.mp hkey).symm

/-- Among tasks that wait for open slots, none waits for the smallest one. -/
theorem exists_step (hf : Founded v root) (ha : Accounted v root seen s) (ho : Orderly v s)
    (hs : s.tasks ≠ []) (status : Option ContextError) : ∃ i t, s.step v status i = some t := by
  by_contra hno
  have blocked := State.blocked fun i t h => hno ⟨i, t, h⟩
  have none_waits : ∀ n id t slot rest sizes, .await id t slot rest sizes ∈ s.tasks →
      sizeOf t.ty = n → False := by
    intro n
    induction n using Nat.strongRecOn with
    | ind n ih =>
      intro id t slot rest sizes ht hn
      obtain ⟨_, _, _, _, _, h, hr⟩ := blocked _ ht
      cases h
      obtain ⟨f, pos, -, -, hm⟩ := ho.follows _ ht
      have hopen : s.backrefs.Open (v.identity pos) :=
        ⟨slot, hm, ho.numbered.open_of_read? hm hr⟩
      obtain ⟨u, hu, hkey⟩ := List.mem_flatMap.mp (ho.owed _ hopen)
      obtain ⟨id', t', slot', rest', sizes', rfl, -⟩ := blocked u hu
      exact ih _ (hn ▸ sizeOf_lt_of_await hf ha ho ht hm hu hkey) id' t' slot' rest' sizes' hu rfl
  obtain ⟨task, ht⟩ := List.exists_mem_of_ne_nil _ hs
  obtain ⟨id, t, slot, rest, sizes, rfl, -⟩ := blocked task ht
  exact none_waits _ id t slot rest sizes ht rfl

/-- Along a chain of tasks that wait for one another the types get smaller. -/
theorem sizeOf_lt_of_chain (hf : Founded v root) (ha : Accounted v root seen s)
    (ho : Orderly v s) {i j : Nat} (h : Relation.TransGen s.WaitsOn i j)
    {id id' : Identity} {t t' : TypeName} {slot slot' : Nat} {rest rest' : List TyField}
    {sizes sizes' : List (Option Nat)} (hi : s.tasks[i]? = some (.await id t slot rest sizes))
    (hj : s.tasks[j]? = some (.await id' t' slot' rest' sizes')) : sizeOf t'.ty < sizeOf t.ty := by
  induction h generalizing id' t' slot' rest' sizes' with
  | single h =>
    obtain ⟨_, _, _, _, _, key, u, hi', -, hk, hj', hkey⟩ := h
    cases hi.symm.trans hi'
    cases hj.symm.trans hj'
    exact sizeOf_lt_of_await hf ha ho (List.mem_of_getElem? hi) hk (List.mem_of_getElem? hj) hkey
  | tail _ h ih =>
    obtain ⟨_, _, _, _, _, key, u, hk', -, hk, hj', hkey⟩ := h
    cases hj.symm.trans hj'
    exact Nat.lt_trans (sizeOf_lt_of_await hf ha ho (List.mem_of_getElem? hk') hk
      (List.mem_of_getElem? hj) hkey) (ih hk')

theorem not_waits_cycle (hf : Founded v root) (ha : Accounted v root seen s) (ho : Orderly v s)
    (i : Nat) : ¬ Relation.TransGen s.WaitsOn i i := by
  intro h
  obtain ⟨_, ⟨id, t, slot, rest, sizes, _, _, hi, -⟩, -⟩ := Relation.TransGen.head'_iff.mp h
  exact Nat.lt_irrefl _ (sizeOf_lt_of_chain hf ha ho h hi hi)

/-- A visit of a checked package does not get stuck, whatever it is after: while a task is left, a
task can take a step, however it finds the context; and no tasks wait for one another in a
circle. -/
theorem visit_progress {base : Nat} {sources : List (String × List Char)} {fs : FileSet}
    {files : List SourceFile} {name path : String} {l : Locator} {backref : Bool}
    (hread : SourceFile.readAll (.startingAt base) sources = .ok (fs, files))
    (hnames : (sources.map Prod.fst).Nodup) (hnamed : "" ∉ sources.map Prod.fst)
    (hsha : Sha1.CollisionFree (declaredPlaces files))
    (hcheck : (check files name path).1 = .ok root) (hroot : l.root = fs)
    (hid : v.identity = l.identity) (h : Reaches v (.start backref root) seen s) :
    (s.tasks ≠ [] → ∀ status, ∃ i t, s.step v status i = some t) ∧
      ∀ i, ¬ Relation.TransGen s.WaitsOn i i := by
  obtain ⟨cache, hc, hk, hcached, -⟩ := check_eq_ok ((packageBlock files).fits_all []) hcheck
  have hf : Founded v root := founded_of_cached hc hk hcached fun p hp q hq he =>
    l.identity_inj hread hnames hnamed hroot hsha hp hq (hid ▸ he)
  have ha := accounted_of_reaches h
  have ho := orderly_of_reaches h
  exact ⟨fun hs status => exists_step hf ha ho hs status, not_waits_cycle hf ha ho⟩

/-! A package whose first structure holds the second one. -/

def holderText : List Char :=
  "package a\ntype O struct\x7bi I\x7d\ntype I struct\x7bb bool\x7d\n".toList

def holderFiles : FileSet :=
  ⟨53, [⟨"a.go", 1, 51, [0, 10, 29, 51]⟩]⟩

def holderSpec (name : String) (pos : Nat) (fields : List FieldDecl) (start stop doc : Nat) :
    TypeSpec where
  name := name
  pos := pos
  isAlias := false
  isGeneric := false
  ty := .struct ⟨⟨start, stop⟩, fields, [], "", none⟩
  tySpan := ⟨start, stop⟩
  doc := []
  docSpan := ⟨doc, doc⟩
  comment := []
  commentSpan := ⟨stop, stop⟩
  indent := ""

def holderFile : SourceFile where
  path := "a.go"
  package := "a"
  text := ⟨holderText, ⟨"a.go", 1, 51, [0, 10, 29, 51]⟩⟩
  root :=
    { span := ⟨0, 51⟩
      specs := [holderSpec "O" 16 [⟨["i"], 25, .ref none "I", "I", none, [], []⟩] 17 28 10,
        holderSpec "I" 35 [⟨["b"], 44, .ref none "bool", "bool", none, [], []⟩] 36 50 29] }

def holderScope : Scope :=
  let held : Ty := .named "I" 35 (.struct [⟨"b", .basic .bool, "", false, false⟩])
  { kind := .package "a" ""
    types := [("I", ⟨"I", 35, false, held⟩),
      ("O", ⟨"O", 16, false, .named "O" 16 (.struct [⟨"i", held, "", false, false⟩])⟩)] }

def Setting.held : Setting :=
  { Setting.lines with identity := (Locator.ofRoot holderFiles).identity }

/-- After these steps the task of `O` waits for the one of `I`. -/
def heldUp : List (Option ContextError × Nat) :=
  [0, 0, 0, 0, 0, 1].map (none, ·)

theorem visit_progress_held :
    SourceFile.readAll (.startingAt 1) [("a.go", holderText)] = .ok (holderFiles, [holderFile]) ∧
      (check [holderFile] "a" "").1 = .ok holderScope ∧
      Sha1.CollisionFree (declaredPlaces [holderFile]) ∧
      ∃ s, (State.start true holderScope).follow .held heldUp = some s ∧
        s.step .held none 1 = none ∧ (∀ status, ∃ i t, s.step .held status i = some t) ∧
        ∀ i, ¬ Relation.TransGen s.WaitsOn i i := by
  have hread : SourceFile.readAll (.startingAt 1) [("a.go", holderText)] =
      .ok (holderFiles, [holderFile]) := by cbv
  have hcheck : (check [holderFile] "a" "").1 = .ok holderScope := by cbv
  have hsha : Sha1.CollisionFree (declaredPlaces [holderFile]) := by
    have hp : declaredPlaces [holderFile] = ["a.go/2:6", "a.go/3:6"] := by cbv
    have hd : Sha1.digest "a.go/2:6" ≠ Sha1.digest "a.go/3:6" := by decide +kernel
    rw [hp]
    simp [Sha1.CollisionFree, hd, hd.symm]
  have hfollow : ((State.start true holderScope).follow .held heldUp).map
      (fun s => (s.tasks.length, (s.step .held none 1).isNone)) = some (3, true) := by
    decide +kernel
  obtain ⟨s, hs, hw⟩ := Option.map_eq_some_iff.mp hfollow
  obtain ⟨hlen, hwait⟩ := Prod.mk.inj hw
  have htasks : s.tasks ≠ [] := fun h => by
    rw [h] at hlen
    cases hlen
  obtain ⟨hstep, hcycle⟩ := visit_progress (l := .ofRoot holderFiles) hread (by decide)
    (by decide) hsha hcheck rfl rfl (reaches_of_follow hs)
  exact ⟨hread, hcheck, hsha, s, hs, Option.isNone_iff_eq_none.mp hwait, hstep htasks, hcycle⟩

end Visit

end StructLayout
