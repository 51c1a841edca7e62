import StructLayout.Strategy.Registry

/-! Replaying the strategies that the tags of the fields record, group by group. -/

namespace StructLayout

/-- A field with its group and with the strategies that its annotation lists. -/
structure Member where
  field : Field
  key : GroupKey
  strategies : Option (List String)
  deriving DecidableEq, Repr

namespace Member

/-- Reads the annotation of a field. -/
def ofField (f : Field) : Except StrategyError Member :=
  match Tag.curator? f.tag with
  | none => .ok ⟨f, .untagged, none⟩
  | some value =>
    match Annotation.parse value with
    | .error reason => .error (.malformedTag f.name f.tag reason)
    | .ok none => .ok ⟨f, .untagged, none⟩
    | .ok (some a) => .ok ⟨f, a.key, some a.strategies⟩

/-- Fields of one name are in one group, and the fields of a group list the same strategies. -/
def enlist (seen : List Member) (m : Member) : Except StrategyError (List Member) :=
  let rival := seen.find? fun o =>
    !m.field.isPadding && !o.field.isPadding && o.field.name == m.field.name && o.key != m.key
  match rival with
  | some o => .error (.overlappingGroups m.field.name o.key m.key)
  | none =>
    if seen.any fun o => o.key == m.key && o.strategies != m.strategies then
      .error (.inconsistentGroup m.key m.field.name (",".intercalate (m.strategies.getD [])))
    else .ok (seen ++ [m])

/-- All fields of a structure with their groups. -/
def ofFields (fields : List Field) : Except StrategyError (List Member) :=
  fields.foldlM (fun seen f => do enlist seen (← ofField f)) []

end Member

/-- The fields of one group, and the strategies that all of them list. -/
structure FieldGroup where
  key : GroupKey
  strategies : Option (List String)
  fields : List Field
  deriving DecidableEq, Repr

namespace FieldGroup

/-- A group of the members that have a key. -/
def ofKey (members : List Member) (key : GroupKey) : FieldGroup :=
  let own := members.filter fun m => m.key == key
  { key, strategies := own.head?.bind Member.strategies, fields := own.map Member.field }

/-- The groups in the order of their keys. -/
def ofMembers (members : List Member) : List FieldGroup :=
  ((members.map Member.key).eraseDups.mergeSort GroupKey.le).map (ofKey members)

/-- The transforms of a group. A group cannot replay annotations itself. -/
def transforms (r : Registry) (g : FieldGroup) : Except StrategyError (List Transform) :=
  match g.strategies with
  | none => .ok [.ignore]
  | some names =>
    if replayName ∈ names then .error (.nestedGroup replayName) else r.transforms names

end FieldGroup

/-- The structure with the fields of one group only, after the strategies of the group. -/
def Struct.applyGroup (st : Struct) (job : FieldGroup × List Transform) : Struct :=
  Transform.applyAll job.2 { st with fields := job.1.fields }

/-- Replays all groups and puts their fields one behind the other. Docs and comments are those of
the default group, if there is one. -/
def Struct.replay (r : Registry) (st : Struct) : Except StrategyError Struct := do
  let members ← Member.ofFields st.fields
  let jobs ← (FieldGroup.ofMembers members).mapM fun g => do return (g, ← g.transforms r)
  let fields := jobs.flatMap fun job => (st.applyGroup job).fields
  match jobs.find? fun job => job.1.key == .default with
  | some job =>
    let own := st.applyGroup job
    return { st with fields, doc := own.doc, comment := own.comment }
  | none => return { st with fields }

end StructLayout
