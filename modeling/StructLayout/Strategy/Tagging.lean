import StructLayout.Layout.Struct
import StructLayout.Tag.Annotation

/-! Strategies that record the applied strategies in the tags of the fields. -/

namespace StructLayout

inductive TagMode where
  | soft
  | force
  | discrete
  | forceDiscrete
  | remove
  deriving DecidableEq, Repr

namespace TagMode

/-- Fields that have an annotation keep it. -/
def keepsExisting : TagMode → Bool
  | .soft | .discrete => true
  | _ => false

/-- Every field gets a group of its own. -/
def isDiscrete : TagMode → Bool
  | .discrete | .forceDiscrete => true
  | _ => false

end TagMode

/-- How annotations are written: the names to record, and the group, empty for the default one. -/
structure Tagging where
  mode : TagMode
  names : List String
  group : String
  deriving DecidableEq, Repr

namespace Tagging

/-- The group of the field with an index; discrete groups are numbered from one. -/
def groupAt (t : Tagging) (index : Nat) : Option String :=
  if t.mode.isDiscrete then
    some ((if t.group.isEmpty then "default" else t.group) ++ "-" ++ toString (index + 1))
  else if t.group.isEmpty then none
  else some t.group

def annotationAt (t : Tagging) (index : Nat) : Annotation :=
  { group := t.groupAt index, strategies := t.names }

/-- The tag of the field with an index after this stage. -/
def retag (t : Tagging) (index : Nat) (tag : String) : String :=
  if t.mode = .remove then Tag.removeCurator tag
  else if t.mode.keepsExisting && (Tag.curator? tag).isSome then tag
  else Tag.setCurator tag (t.annotationAt index).render.toList

end Tagging

/-- Changes the tag of every field. -/
def Struct.retag (t : Tagging) (st : Struct) : Struct :=
  { st with fields := st.fields.mapIdx fun i f => { f with tag := t.retag i f.tag } }

end StructLayout
