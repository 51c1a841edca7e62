import StructLayout.Source.Declaration
import StructLayout.Source.Literal
import StructLayout.Strategy.Note

/-! Writing a structure back into its declaration. -/

namespace StructLayout

inductive SyncError where
  | notStruct (name : String)
  | notFlat (name field : String)
  | unexpectedPad (name typeName : String)
  | lengthMismatch (name : String) (wanted found : Nat)
  deriving DecidableEq, Repr

def SyncError.message : SyncError → String
  | .notStruct name => "declaration " ++ Text.quoted name ++ " is not a struct type"
  | .notFlat name field =>
    "struct " ++ Text.quoted name ++ " has a field that can't be flattened: " ++ field
  | .unexpectedPad name typeName =>
    "struct " ++ Text.quoted name ++ " has unexpected pad type expression " ++ Text.quoted typeName
  | .lengthMismatch name wanted found =>
    s!"struct {Text.quoted name} has {found} fields after sync, expected {wanted}"

/-- The type of a padding has, on one line, an opening bracket and later a closing one with the
name of the byte type behind it. -/
def isPadType (typeName : String) : Bool :=
  let lines := Text.split (· == '\n') typeName.toList
  lines.any fun line =>
    line.contains '[' && Text.occursIn "]byte".toList (line.dropWhile (· != '[')).tail

namespace FieldDecl

/-- One declaration for each name; the doc stays with the first. -/
def single (d : FieldDecl) : List FieldDecl :=
  d.names.mapIdx fun i name =>
    { d with names := [name], doc := if i = 0 then d.doc else [] }

/-- Declarations of one field each. The embedded ones must have a name. -/
def flatten (structName : String) : List FieldDecl → Except SyncError (List FieldDecl)
  | [] => .ok []
  | d :: ds =>
    if d.isEmbedded then
      if d.name?.isNone then .error (.notFlat structName d.tyText)
      else (flatten structName ds).map (d :: ·)
    else (flatten structName ds).map (d.single ++ ·)

def nameOrEmpty (d : FieldDecl) : String :=
  d.name?.getD ""

/-- The structure still has the field, and it is no padding. -/
def isKept (st : Struct) (d : FieldDecl) : Bool :=
  d.nameOrEmpty != padName && (st.field? d.nameOrEmpty).isSome

/-- The place of the first field of the same name. -/
def rank (st : Struct) (d : FieldDecl) : Nat :=
  (st.fields.findIdx? fun f => f.name == d.nameOrEmpty).getD 0

/-- The kept declarations in the order of the structure. -/
def arrange (st : Struct) (ds : List FieldDecl) : List FieldDecl :=
  (ds.filter (isKept st)).mergeSort fun a b => decide (a.rank st ≤ b.rank st)

/-- A new declaration for every padding and the next old one for every other field, until there are
no more. -/
def place (structName : String) : List Field → List FieldDecl → Except SyncError (List FieldDecl)
  | [], _ => .ok []
  | f :: fs, ds =>
    if f.isPadding then
      if isPadType f.typeName then (place structName fs ds).map (pad f.size :: ·)
      else .error (.unexpectedPad structName f.typeName)
    else
      match ds with
      | [] => .ok []
      | d :: ds => (place structName fs ds).map (d :: ·)

/-- The lines that were not generated, and then those of the structure. -/
def syncNotes (lines notes : List String) : List String :=
  (lines.filter fun line => !isStamped line) ++ notes

/-- Takes over the tag and the notes of a field. -/
def take (d : FieldDecl) (f : Field) : FieldDecl :=
  { d with
    tag := if f.tag.isEmpty then none else some (String.ofList (Literal.quoteTag f.tag.toList))
    doc := syncNotes d.doc f.doc
    comment := syncNotes d.comment f.comment }

/-- The declarations of the fields of a structure, made from the old declarations. -/
def sync (structName : String) (st : Struct) (ds : List FieldDecl) :
    Except SyncError (List FieldDecl) := do
  let kept := arrange st (← flatten structName ds)
  let placed ← place structName st.fields kept
  let wanted := st.fields.length
  let found := kept.length + st.paddings.length
  if placed.length ≠ wanted ∨ found ≠ wanted then
    throw (.lengthMismatch structName wanted found)
  return placed.zipWith take st.fields

end FieldDecl

namespace TypeSpec

def withFields (t : TypeSpec) (fields : List FieldDecl) : TypeSpec :=
  match t.ty with
  | .struct body => { t with ty := .struct { body with fields } }
  | _ => t

/-- The declaration of a curated structure: its fields in their order, explicit paddings, tags and
notes. -/
def sync (t : TypeSpec) (st : Struct) : Except SyncError TypeSpec :=
  match t.ty.struct? with
  | none => .error (.notStruct t.name)
  | some body => do
    let fields ← FieldDecl.sync t.name st body.fields
    return { t.withFields fields with
      doc := FieldDecl.syncNotes t.doc st.doc
      comment := FieldDecl.syncNotes t.comment st.comment
      modified := true }

/-- What is left of a declaration that could not be synced. -/
def spoiled (t : TypeSpec) : TypeSpec :=
  t.withFields []

end TypeSpec

end StructLayout
