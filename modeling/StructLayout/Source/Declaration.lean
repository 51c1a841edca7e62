import StructLayout.Layout.Struct

/-! What a source file declares: types, constants, and the blocks that they stand in. -/

namespace StructLayout

/-- Bytes of a source text, from `start` up to `stop`. -/
structure Span where
  start : Nat
  stop : Nat
  deriving DecidableEq, Repr, Inhabited

inductive ArrayLen where
  | literal (n : Nat)
  | const (name : String)
  | expr (text : String)
  deriving DecidableEq, Repr

def ArrayLen.render : ArrayLen → String
  | .literal n => toString n
  | .const name => name
  | .expr text => text

mutual

/-- A type as it is spelled. Channels, functions, interfaces and instances of generic types are
kept as text. -/
inductive TypeExpr where
  | ref (pkg : Option String) (name : String)
  | pointer (elem : TypeExpr)
  | array (len : ArrayLen) (elem : TypeExpr)
  | slice (elem : TypeExpr)
  | map (key value : TypeExpr)
  | chan (text : String)
  | func (text : String)
  | interface (text : String)
  | struct (body : StructExpr)
  | generic (base text : String)
  deriving Repr

/-- A struct type: its bytes from the keyword to the closing brace, its fields, the comments behind
the last field, the blanks in front of the closing brace, and those in front of the first line of
the body if it has lines of its own. -/
structure StructExpr where
  span : Span
  fields : List FieldDecl
  trailing : List String
  closeIndent : String
  fieldIndent : Option String
  deriving Repr

/-- A field declaration; embedded fields have no names, and a tag is kept with its quotes. -/
structure FieldDecl where
  names : List String
  pos : Nat
  ty : TypeExpr
  tyText : String
  tag : Option String := none
  doc : List String := []
  comment : List String := []
  deriving Repr

end

instance : Inhabited TypeExpr := ⟨.ref none ""⟩

namespace TypeExpr

/-- The name of an embedded field of this type. -/
def embeddedName? : TypeExpr → Option String
  | .ref _ name => some name
  | .pointer elem => elem.embeddedName?
  | .generic base _ => some (String.ofList (base.toList.reverse.takeWhile (· != '.')).reverse)
  | _ => none

def struct? : TypeExpr → Option StructExpr
  | .struct body => some body
  | _ => none

mutual

/-- The spelling of a type on one line. -/
def render : TypeExpr → String
  | .ref (some pkg) name => pkg ++ "." ++ name
  | .ref none name => name
  | .pointer elem => "*" ++ elem.render
  | .array len elem => "[" ++ len.render ++ "]" ++ elem.render
  | .slice elem => "[]" ++ elem.render
  | .map key value => "map[" ++ key.render ++ "]" ++ value.render
  | .chan text | .func text | .interface text | .generic _ text => text
  | .struct body => renderBody body

def renderBody : StructExpr → String
  | ⟨_, fields, _, _, _⟩ => "struct\x7b" ++ "; ".intercalate (renderFields fields) ++ "\x7d"

def renderField : FieldDecl → String
  | ⟨names, _, ty, _, _, _, _⟩ =>
    if names.isEmpty then ty.render else ", ".intercalate names ++ " " ++ ty.render

def renderFields : List FieldDecl → List String
  | [] => []
  | f :: fs => renderField f :: renderFields fs

end

end TypeExpr

namespace FieldDecl

/-- The type of a padding of `size` bytes. -/
def padExpr (size : Nat) : TypeExpr :=
  .array (.literal size) (.ref none "byte")

/-- A padding of `size` bytes. -/
def pad (size : Nat) : FieldDecl :=
  { names := [padName], pos := 0, ty := padExpr size, tyText := (padExpr size).render }

def isEmbedded (d : FieldDecl) : Bool :=
  d.names.isEmpty

/-- The only name of a declaration, the one of the type if the field is embedded. -/
def name? (d : FieldDecl) : Option String :=
  match d.names with
  | [] => d.ty.embeddedName?
  | [name] => some name
  | _ => none

/-- At most one field is declared. -/
def isFlat (d : FieldDecl) : Bool :=
  d.names.length ≤ 1

end FieldDecl

/-- A constant, with its value if that is an integer literal. -/
structure ConstSpec where
  name : String
  value : Option Nat
  deriving DecidableEq, Repr

/-- A type declaration. The doc's bytes reach from its first line to the line of the declaration,
the comment's bytes from the end of the type to the end of the line comment. -/
structure TypeSpec where
  name : String
  pos : Nat
  isAlias : Bool
  isGeneric : Bool
  ty : TypeExpr
  tySpan : Span
  doc : List String
  docSpan : Span
  comment : List String
  commentSpan : Span
  indent : String
  modified : Bool := false
  deriving Repr

/-- A file or a part of it between braces. -/
structure Block where
  span : Span
  specs : List TypeSpec := []
  consts : List ConstSpec := []
  blocks : List Block := []
  deriving Repr

namespace Block

mutual

/-- All type declarations: those of the block itself, then those of the blocks in it. -/
def allSpecs : Block → List TypeSpec
  | ⟨_, specs, _, blocks⟩ => specs ++ allSpecsIn blocks

def allSpecsIn : List Block → List TypeSpec
  | [] => []
  | b :: bs => b.allSpecs ++ allSpecsIn bs

end

mutual

/-- Puts changed declarations, in the order of `allSpecs`, in the place of the old ones; what is
left over comes back too. -/
def refill : Block → List TypeSpec → Block × List TypeSpec
  | ⟨span, specs, consts, blocks⟩, new =>
    let inner := refillAll blocks (new.drop specs.length)
    (⟨span, new.take specs.length, consts, inner.1⟩, inner.2)

def refillAll : List Block → List TypeSpec → List Block × List TypeSpec
  | [], new => ([], new)
  | b :: bs, new =>
    let head := b.refill new
    let tail := refillAll bs head.2
    (head.1 :: tail.1, tail.2)

end

end Block

end StructLayout
