import StructLayout.Tag.Entries
import StructLayout.Text.Quoted

/-! The annotation in a field's tag: the strategies to replay, and the group of the field. -/

namespace StructLayout

namespace Tag

/-- The key of annotations. -/
def curatorKey : List Char :=
  "curator".toList

/-- What the annotation of a field with this tag is written as. -/
def curator? (tag : String) : Option (List Char) :=
  lookup tag.toList curatorKey

def setCurator (tag : String) (value : List Char) : String :=
  String.ofList (set tag.toList curatorKey value)

def removeCurator (tag : String) : String :=
  String.ofList (remove tag.toList curatorKey)

end Tag

/-- The group that a field belongs to. -/
inductive GroupKey where
  | default
  | untagged
  | named (name : String)
  deriving DecidableEq, Repr

namespace GroupKey

/-- Groups are put together in this order: default, untagged, and then by name. -/
def le : GroupKey → GroupKey → Bool
  | .default, _ => true
  | .untagged, .default => false
  | .untagged, _ => true
  | .named a, .named b => decide (a ≤ b)
  | .named _, _ => false

def render : GroupKey → String
  | .default => "default"
  | .untagged => "untagged"
  | .named name => Text.quoted name

end GroupKey

inductive AnnotationError where
  | anchorMissing
  | emptyGroupName
  | tooManyParts
  | noStrategies
  deriving DecidableEq, Repr

def AnnotationError.message : AnnotationError → String
  | .anchorMissing => "named group `group:` anchor is missing"
  | .emptyGroupName => "named group has an empty name"
  | .tooManyParts => "neither a default nor a named group annotation"
  | .noStrategies => "empty strategies list"

/-- Strategies recorded for the fields of one group; no group is the default group. -/
structure Annotation where
  group : Option String
  strategies : List String
  deriving DecidableEq, Repr

namespace Annotation

/-- What stands in front of the name of a group. -/
def anchor : List Char :=
  "group:".toList

/-- A text without the semicolons at its ends. -/
def trimSemicolons (cs : List Char) : List Char :=
  ((cs.dropWhile (· == ';')).reverse.dropWhile (· == ';')).reverse

/-- The strategies of a list with commas; blank ones do not count. -/
def parseList (cs : List Char) : List String :=
  let trimmed := (Text.split (· == ',') cs).map Text.trim
  (trimmed.filter fun s => !s.isEmpty).map String.ofList

def parseGroup (cs : List Char) : Except AnnotationError String :=
  if anchor.isPrefixOf cs then
    let name := cs.drop anchor.length
    if name.isEmpty then .error .emptyGroupName else .ok (String.ofList name)
  else .error .anchorMissing

def ofList (group : Option String) (cs : List Char) : Except AnnotationError Annotation :=
  let strategies := parseList cs
  if strategies.isEmpty then .error .noStrategies else .ok { group, strategies }

/-- Reads a list of strategies, or the name of a group, a semicolon and a list. A lone dash says
that the field has no annotation. -/
def parse (value : List Char) : Except AnnotationError (Option Annotation) :=
  let value := Text.trim value
  if value = ['-'] then .ok none
  else
    match Text.split (· == ';') (trimSemicolons value) with
    | [list] => (ofList none list).map some
    | [group, list] => do
      let name ← parseGroup group
      (ofList (some name) list).map some
    | _ => .error .tooManyParts

def render (a : Annotation) : String :=
  let group := match a.group with
    | some name => "group:" ++ name ++ ";"
    | none => ""
  group ++ ",".intercalate a.strategies

def key (a : Annotation) : GroupKey :=
  match a.group with
  | some name => .named name
  | none => .default

end Annotation

end StructLayout
