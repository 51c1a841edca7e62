import StructLayout.Proofs.Sequence
import StructLayout.Resolve

/-!
The named types that a resolved type holds by value. Each is the one that the cache has for its
declaration, and its declaration was in sight.
-/

namespace StructLayout

/-- A named type that another type holds by value. -/
structure Part where
  name : String
  pos : Nat
  underlying : Ty

def Part.ty (x : Part) : Ty :=
  .named x.name x.pos x.underlying

namespace Ty

mutual

/-- The named types that values of a type are made of, the type among them. -/
def parts : Ty → List Part
  | .named name pos u => ⟨name, pos, u⟩ :: parts u
  | .array _ elem => parts elem
  | .struct fields => fieldsParts fields
  | .basic _ | .pointer _ | .slice _ | .map .. | .chan _ | .func _ | .interface _ | .foreign _ => []

def fieldParts : TyField → List Part
  | ⟨_, ty, _, _, _⟩ => parts ty

def fieldsParts : List TyField → List Part
  | [] => []
  | f :: fs => fieldParts f ++ fieldsParts fs

end

theorem fieldParts_eq (f : TyField) : fieldParts f = f.ty.parts := by
  cases f
  rw [fieldParts]

theorem mem_fieldsParts {x : Part} {fs : List TyField} :
    x ∈ fieldsParts fs ↔ ∃ f ∈ fs, x ∈ f.ty.parts := by
  induction fs with
  | nil => simp [fieldsParts]
  | cons f fs ih => simp [fieldsParts, fieldParts_eq, ih]

theorem fieldsParts_append (fs gs : List TyField) :
    fieldsParts (fs ++ gs) = fieldsParts fs ++ fieldsParts gs := by
  induction fs with
  | nil => rfl
  | cons f fs ih => rw [List.cons_append, fieldsParts, ih, fieldsParts, List.append_assoc]

theorem parts_underlying (t : Ty) : t.underlying.parts ⊆ t.parts := by
  fun_induction underlying t with
  | case1 name pos u ih =>
    rw [parts]
    exact List.Subset.trans ih (List.subset_cons_self ..)
  | case2 t => exact List.Subset.refl _

theorem fields?_eq_some {t : Ty} {fs : List TyField} :
    t.fields? = some fs ↔ t.underlying = .struct fs := by
  unfold fields?
  split
  · rename_i h
    rw [h]
    simp
  · rename_i h
    exact ⟨fun hn => (nomatch hn), fun hs => absurd hs (h fs)⟩

/-- What the fields of a struct type are made of is part of the type. -/
theorem parts_of_field {t : Ty} {fs : List TyField} {f : TyField} (h : t.fields? = some fs)
    (hf : f ∈ fs) : f.ty.parts ⊆ t.parts := by
  intro x hx
  refine t.parts_underlying ?_
  rw [fields?_eq_some.mp h, parts]
  exact mem_fieldsParts.mpr ⟨f, hf, hx⟩

mutual

theorem sizeOf_part_le {x : Part} : (t : Ty) → x ∈ t.parts → sizeOf x.ty ≤ sizeOf t
  | .named name pos u, h => by
    rw [parts, List.mem_cons] at h
    rcases h with rfl | h
    · exact Nat.le_refl _
    · exact Nat.le_trans (sizeOf_part_le u h) (by simp)
  | .array len elem, h => Nat.le_trans (sizeOf_part_le elem (by rwa [parts] at h)) (by simp)
  | .struct fields, h =>
    Nat.le_trans (sizeOf_fieldsPart_le fields (by rwa [parts] at h)) (by simp)

theorem sizeOf_fieldPart_le {x : Part} : (f : TyField) → x ∈ fieldParts f → sizeOf x.ty ≤ sizeOf f
  | ⟨_, ty, _, _, _⟩, h =>
    Nat.le_trans (sizeOf_part_le ty (by rwa [fieldParts] at h)) (by simp; omega)

theorem sizeOf_fieldsPart_le {x : Part} :
    (fs : List TyField) → x ∈ fieldsParts fs → sizeOf x.ty ≤ sizeOf fs
  | f :: fs, h => by
    rw [fieldsParts, List.mem_append] at h
    rcases h with h | h
    · exact Nat.le_trans (sizeOf_fieldPart_le f h) (by simp; omega)
    · exact Nat.le_trans (sizeOf_fieldsPart_le fs h) (by simp)

end

/-- What a struct type holds by value is smaller than the type. -/
theorem sizeOf_part_lt {t : Ty} {fs : List TyField} {f : TyField} {x : Part}
    (h : t.fields? = some fs) (hf : f ∈ fs) (hx : x ∈ f.ty.parts) : sizeOf x.ty < sizeOf t := by
  have hu : sizeOf t.underlying ≤ sizeOf t := by
    fun_induction underlying t with
    | case1 name pos u ih =>
      exact Nat.le_trans (ih (by simpa [fields?, underlying] using h)) (by simp)
    | case2 t => exact Nat.le_refl _
  rw [fields?_eq_some.mp h] at hu
  have hle := sizeOf_fieldsPart_le fs (mem_fieldsParts.mpr ⟨f, hf, hx⟩)
  simp at hu
  omega

end Ty

theorem FieldDecl.mem_typed {d : FieldDecl} {ty : Ty} {f : TyField} (h : f ∈ d.typed ty) :
    f.ty = ty := by
  unfold FieldDecl.typed at h
  split at h
  · rw [List.mem_singleton.mp h]
  · obtain ⟨name, -, rfl⟩ := List.mem_map.mp h
    rfl

/-! ## What is in sight -/

/-- The declarations of some blocks. -/
def declared (env : List Frame) : List Declared :=
  env.flatMap fun f => f.types.map Prod.snd

/-- `Refers p name q`: the type declared at `p` may be made of the one declared as `name` at `q`. -/
abbrev Refers := Nat → String → Nat → Prop

variable {R : Refers}

/-- A declaration may be made of itself and of all that the declarations in sight may be. -/
def Sees (R : Refers) (env : List Frame) (d : Declared) : Prop :=
  R d.spec.pos d.spec.name d.spec.pos ∧
    ∀ d' ∈ declared env, ∀ name q, R d'.spec.pos name q → R d.spec.pos name q

/-- What a block declares sees that block and those around it. -/
def Scoped (R : Refers) : List Frame → Prop
  | [] => True
  | f :: outer => (∀ e ∈ f.types, Sees R (f :: outer) e.2) ∧ Scoped R outer

theorem Scoped.lookup {env env' : List Frame} {name : String} {d : Declared} (hn : Scoped R env)
    (h : lookupType? name env = some (d, env')) :
    d ∈ declared env ∧ Scoped R env' ∧ Sees R env' d := by
  induction env with
  | nil => cases h
  | cons f outer ih =>
    unfold lookupType? at h
    split at h
    · rename_i d' hd
      cases h
      have hm : (name, d) ∈ f.types := mem_of_lookup hd
      refine ⟨List.mem_flatMap.mpr ⟨f, List.mem_cons_self, ?_⟩, hn, hn.1 _ hm⟩
      exact List.mem_map.mpr ⟨_, hm, rfl⟩
    · obtain ⟨hd, hr⟩ := ih hn.2 h
      refine ⟨?_, hr⟩
      rw [declared, List.flatMap_cons]
      exact List.mem_append_right _ hd

end StructLayout
