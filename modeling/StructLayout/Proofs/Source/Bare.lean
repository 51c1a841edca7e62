import StructLayout.Source.Printer

/-!
Declarations without their places in a text: no positions, spans or indentation.
-/

namespace StructLayout

namespace TypeExpr

mutual

/-- A type as it is spelled, wherever it stands. -/
def bare : TypeExpr → TypeExpr
  | .pointer elem => .pointer elem.bare
  | .array len elem => .array len elem.bare
  | .slice elem => .slice elem.bare
  | .map key value => .map key.bare value.bare
  | .struct body => .struct (bareBody body)
  | .ref pkg name => .ref pkg name
  | .chan text => .chan text
  | .func text => .func text
  | .interface text => .interface text
  | .generic base text => .generic base text

def bareBody : StructExpr → StructExpr
  | ⟨_, fields, trailing, _, _⟩ => ⟨⟨0, 0⟩, bareFields fields, trailing, "", none⟩

def bareField : FieldDecl → FieldDecl
  | ⟨names, _, ty, tyText, tag, doc, comment⟩ => ⟨names, 0, ty.bare, tyText, tag, doc, comment⟩

def bareFields : List FieldDecl → List FieldDecl
  | [] => []
  | f :: fs => bareField f :: bareFields fs

end

theorem bareFields_eq (fs : List FieldDecl) : bareFields fs = fs.map bareField := by
  induction fs with
  | nil => rfl
  | cons f fs ih => rw [bareFields, ih, List.map_cons]

mutual

@[simp] theorem render_bare : (ty : TypeExpr) → ty.bare.render = ty.render
  | .pointer elem => by rw [bare, render, render, render_bare elem]
  | .array len elem => by rw [bare, render, render, render_bare elem]
  | .slice elem => by rw [bare, render, render, render_bare elem]
  | .map key value => by rw [bare, render, render, render_bare key, render_bare value]
  | .struct body => by rw [bare, render, render, renderBody_bare body]
  | .ref _ _ | .chan _ | .func _ | .interface _ | .generic _ _ => by rw [bare]

theorem renderBody_bare : (body : StructExpr) → renderBody (bareBody body) = renderBody body
  | ⟨_, fields, _, _, _⟩ => by rw [bareBody, renderBody, renderBody, renderFields_bare fields]

theorem renderField_bare : (f : FieldDecl) → renderField (bareField f) = renderField f
  | ⟨_, _, ty, _, _, _, _⟩ => by rw [bareField, renderField, renderField, render_bare ty]

theorem renderFields_bare : (fs : List FieldDecl) → renderFields (bareFields fs) = renderFields fs
  | [] => by rw [bareFields]
  | f :: fs => by
      rw [bareFields, renderFields, renderFields, renderField_bare f, renderFields_bare fs]

end

theorem render_congr {ty ty' : TypeExpr} (h : ty'.bare = ty.bare) : ty'.render = ty.render := by
  rw [← render_bare ty', h, render_bare]

@[simp] theorem embeddedName?_bare : (ty : TypeExpr) → ty.bare.embeddedName? = ty.embeddedName?
  | .pointer elem => by rw [bare, embeddedName?, embeddedName?, embeddedName?_bare elem]
  | .ref _ _ | .generic _ _ | .chan _ | .func _ | .interface _ => by rw [bare]
  | .array _ _ | .slice _ | .map _ _ | .struct _ => by rw [bare]; rfl

end TypeExpr

/-! ## Printing does not depend on places -/

namespace FieldDecl

open TypeExpr

theorem cells_bare (d : FieldDecl) : (bareField d).cells = d.cells := by
  cases d
  rw [bareField]
  rfl

theorem doc_bare (d : FieldDecl) : (bareField d).doc = d.doc := by
  cases d
  rw [bareField]

theorem runs_bare (ds : List FieldDecl) :
    runs (ds.map bareField) = (runs ds).map (List.map bareField) := by
  induction ds with
  | nil => rfl
  | cons d ds ih =>
      rw [List.map_cons, runs, runs, ih, List.head?_map, Option.all_map]
      simp only [doc_bare]
      split
      · cases runs ds <;> rfl
      · rfl

theorem lines_bare (run : List FieldDecl) : lines (run.map bareField) = lines run := by
  have hcells : cells ∘ bareField = cells := funext cells_bare
  rw [lines, lines, List.map_map, hcells, List.zip_map_left, List.flatMap_map]
  refine congrArg (List.flatMap · _) (funext fun d => ?_)
  rw [Prod.map_fst, Prod.map_snd, doc_bare]
  rfl

end FieldDecl

theorem StructExpr.bodyLines_bare (body : StructExpr) :
    (TypeExpr.bareBody body).bodyLines = body.bodyLines := by
  cases body
  rw [TypeExpr.bareBody, bodyLines, bodyLines, TypeExpr.bareFields_eq, FieldDecl.runs_bare,
    List.flatMap_map]
  simp only [FieldDecl.lines_bare]

theorem StructExpr.isEmpty_bare (body : StructExpr) :
    (TypeExpr.bareBody body).isEmpty = body.isEmpty := by
  cases body
  rw [TypeExpr.bareBody, isEmpty, isEmpty, TypeExpr.bareFields_eq, List.isEmpty_map]

/-! ## Declarations -/

/-- A declaration without its place. -/
def TypeSpec.bare (t : TypeSpec) : TypeSpec :=
  { t with
    pos := 0
    ty := t.ty.bare
    tySpan := ⟨0, 0⟩
    docSpan := ⟨0, 0⟩
    commentSpan := ⟨0, 0⟩
    indent := ""
    modified := false }

namespace Block

mutual

def bare : Block → Block
  | ⟨_, specs, consts, blocks⟩ => ⟨⟨0, 0⟩, specs.map TypeSpec.bare, consts, bareAll blocks⟩

def bareAll : List Block → List Block
  | [] => []
  | b :: bs => b.bare :: bareAll bs

end

mutual

theorem allSpecs_bare : (b : Block) → b.bare.allSpecs = b.allSpecs.map TypeSpec.bare
  | ⟨_, specs, _, blocks⟩ => by
      rw [bare, allSpecs, allSpecs, allSpecsIn_bare blocks, List.map_append]

theorem allSpecsIn_bare : (bs : List Block) →
    allSpecsIn (bareAll bs) = (allSpecsIn bs).map TypeSpec.bare
  | [] => rfl
  | b :: bs => by
      rw [bareAll, allSpecsIn, allSpecsIn, allSpecs_bare b, allSpecsIn_bare bs, List.map_append]

end

end Block

end StructLayout
