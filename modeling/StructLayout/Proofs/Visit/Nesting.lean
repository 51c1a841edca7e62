import StructLayout.Proofs.Visit.Slots

/-!
The outcomes of a visit without tasks: by recursion on the structures that fields hold, each of
which is as large as it comes out itself.
-/

namespace StructLayout

namespace Visit

section

variable (v : Setting) (claimed : Nat → Bool)

mutual

/-- The size of a type, in which claimed structures that can be curated take what their curated
fields take. -/
def sizeIn : Ty → Nat
  | .named name pos u =>
    if u.fields?.isSome && claimed pos then
      match v.strategy none { name, fields := fieldsIn u } with
      | .ok st => st.fieldsSize
      | .error _ => v.platform.typeSize (.named name pos u)
    else v.platform.typeSize (.named name pos u)
  | .array 0 _ => 0
  | .array (n + 1) elem => alignUp (sizeIn elem) (v.platform.typeAlign elem) * n + sizeIn elem
  | t => v.platform.typeSize t

/-- The fields of a struct type, also behind a name. -/
def fieldsIn : Ty → List Field
  | .named _ _ u => fieldsIn u
  | .struct fields => fieldListIn fields
  | _ => []

def fieldIn : TyField → Field
  | ⟨name, ty, tag, embedded, exported⟩ =>
    { Field.ofType name ty.render (sizeIn ty) (v.platform.typeAlign ty) with
      tag, embedded, exported }

def fieldListIn : List TyField → List Field
  | [] => []
  | f :: fs => fieldIn f :: fieldListIn fs

end

end

/-- A structure is claimed in the course of a visit. -/
def Setting.takes (v : Setting) (root : Scope) (pos : Nat) : Bool :=
  (v.targets root).any fun t => t.pos == pos

/-- The outcome for a declaration. -/
def Setting.outcome (v : Setting) (root : Scope) (t : TypeName) : Applied :=
  let origin : Struct := { name := t.name, fields := fieldsIn v (v.takes root) t.ty }
  { id := v.identity t.pos, location := v.location t.pos, origin,
    result := v.strategy none origin }

/-- The outcomes of a visit, one for each declaration that is wanted. -/
def Setting.outcomes (v : Setting) (root : Scope) : List Applied :=
  (v.targets root).map (v.outcome root)

/-! ## The same outcomes by the sizes that fields are given -/

variable {v : Setting} {claimed : Nat → Bool}

/-- The size that the struct in a type is given. -/
def given (v : Setting) (claimed : Nat → Bool) (t : Ty) : Option Nat :=
  t.held?.bind fun x =>
    if claimed x.pos then
      (v.strategy none { name := x.name, fields := fieldsIn v claimed x.underlying }).toOption.map
        Struct.fieldsSize
    else none

theorem sizeIn_eq (t : Ty) : sizeIn v claimed t =
    ((given v claimed t).map fun own => t.sizeWith v.platform own).getD
      (v.platform.typeSize t) := by
  match t with
  | .named name pos u =>
    rw [sizeIn, given, Ty.held?]
    cases u.fields?.isSome <;> cases hc : claimed pos <;> simp [hc]
    cases v.strategy none { name, fields := fieldsIn v claimed u } <;>
      simp [Except.toOption, Ty.sizeWith]
  | .array 0 elem => simp [sizeIn, given, Ty.held?, Platform.typeSize]
  | .array (n + 1) elem =>
    have hg : given v claimed (.array (n + 1) elem) = given v claimed elem := by
      rw [given, given, Ty.held?, if_neg (Nat.succ_ne_zero n)]
    rw [sizeIn, sizeIn_eq elem, hg]
    cases given v claimed elem <;> simp [Ty.sizeWith, Platform.typeSize]
  | .basic _ | .pointer _ | .slice _ | .map .. | .chan _ | .func _ | .interface _ | .struct _
  | .foreign _ => simp [sizeIn, given, Ty.held?]

theorem fieldListIn_eq (fs : List TyField) :
    fieldListIn v claimed fs = fs.map (fieldIn v claimed) := by
  induction fs with
  | nil => rfl
  | cons f fs ih => rw [fieldListIn, ih, List.map_cons]

theorem fieldsIn_eq (t : Ty) :
    fieldsIn v claimed t = (t.fields?.getD []).map (fieldIn v claimed) := by
  match t with
  | .named name pos u =>
    have hu : (Ty.named name pos u).fields? = u.fields? := by
      simp [Ty.fields?, Ty.underlying]
    rw [fieldsIn, fieldsIn_eq u, hu]
  | .struct fields => simp [fieldsIn, Ty.fields?, Ty.underlying, fieldListIn_eq]
  | .basic _ | .pointer _ | .slice _ | .map .. | .chan _ | .func _ | .interface _ | .array ..
  | .foreign _ => simp [fieldsIn, Ty.fields?, Ty.underlying]

theorem toField_given (f : TyField) :
    f.toField v.platform (given v claimed f.ty) = fieldIn v claimed f := by
  obtain ⟨name, ty, tag, embedded, exported⟩ := f
  rw [fieldIn, sizeIn_eq]
  unfold TyField.toField
  rw [v.platform.extent_eq]
  cases given v claimed ty <;> rfl

/-- Curating a declaration whose fields have been given the sizes of the structs in them. -/
theorem apply_given {root : Scope} (t : TypeName) :
    apply v none (v.identity t.pos) t ((fieldsOf t).map fun f => given v (v.takes root) f.ty) =
      v.outcome root t := by
  have ho : Struct.ofType v.platform t.name
      ((fieldsOf t).map fun f => given v (v.takes root) f.ty) (fieldsOf t) =
      { name := t.name, fields := fieldsIn v (v.takes root) t.ty } := by
    rw [Struct.ofType, fieldsIn_eq, List.zipWith_map_right, List.zipWith_self]
    simp only [toField_given]
    rfl
  rw [apply, ho]
  rfl

end Visit

end StructLayout
