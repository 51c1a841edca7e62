import StructLayout.Scope
import StructLayout.Source.File

/-! Resolving the declared types of a package. Types that have no known size are left out with a
warning; a type that contains itself by value is an error. -/

namespace StructLayout

/-- Why a declaration is left out. -/
inductive SkipReason where
  | genericType (name : String)
  | undefinedType (name : String)
  | unknownLength (name : String)
  | unsupportedLength (text : String)
  | genericInstance (text : String)
  deriving DecidableEq, Repr

def SkipReason.message : SkipReason → String
  | .genericType name => "generic type " ++ name
  | .undefinedType name => "undefined type " ++ name
  | .unknownLength name => "unknown array length " ++ name
  | .unsupportedLength text => "unsupported array length " ++ text
  | .genericInstance text => "generic instantiation " ++ text

inductive CheckError where
  | recursiveType (name : String) (position : Position)
  | redeclared (name : String) (position : Position)
  deriving DecidableEq, Repr

def CheckError.message : CheckError → String
  | .recursiveType name position => s!"{position.render}: invalid recursive type {name}"
  | .redeclared name position => s!"{position.render}: {name} redeclared in this block"

/-- A declaration that has been left out. -/
structure Warning where
  position : Position
  name : String
  reason : SkipReason
  deriving DecidableEq, Repr

def Warning.message (w : Warning) : String :=
  s!"{w.position.render}: skipping type {w.name}: {w.reason.message}"

/-- Why an expression has no type. -/
inductive Unresolved where
  | recursive (name : String) (position : Position)
  | skip (reason : SkipReason)
  deriving DecidableEq, Repr

/-- A type declaration and its file. -/
structure Declared where
  spec : TypeSpec
  file : FileInfo
  deriving Repr

namespace Declared

def position (d : Declared) : Position :=
  d.file.position d.spec.pos

end Declared

/-- What one block declares; the first entry of a name counts. -/
structure Frame where
  types : List (String × Declared)
  consts : List (String × Option Nat)
  deriving Repr

namespace Frame

/-- Later declarations of a name hide earlier ones, and the blank name is never looked up. -/
def ofDecls (decls : List Declared) (consts : List ConstSpec) : Frame where
  types := ((decls.filter fun d => d.spec.name != "_").map fun d => (d.spec.name, d)).reverse
  consts := (consts.map fun c => (c.name, c.value)).reverse

end Frame

/-- The innermost declaration of a name, with the frames that it sees. -/
def lookupType? (name : String) : List Frame → Option (Declared × List Frame)
  | [] => none
  | f :: outer =>
    match f.types.lookup name with
    | some d => some (d, f :: outer)
    | none => lookupType? name outer

/-- The value of the innermost constant of a name, if it is known. -/
def lookupConst? (name : String) : List Frame → Option Nat
  | [] => none
  | f :: outer =>
    match f.consts.lookup name with
    | some value => value
    | none => lookupConst? name outer

/-- What a name means that nothing declares. -/
def universe? (name : String) : Option Ty :=
  match BasicKind.ofName? name with
  | some kind => some (.basic kind)
  | none =>
    if name = "error" ∨ name = "any" ∨ name = "comparable" then some (.interface name) else none

/-- The number of elements of an array. -/
def arrayLength (env : List Frame) : ArrayLen → Except SkipReason Nat
  | .literal n => .ok n
  | .const name =>
    match lookupConst? name env with
    | some n => .ok n
    | none => .error (.unknownLength name)
  | .expr text => .error (.unsupportedLength text)

/-- The fields that a declaration of a type makes. -/
def FieldDecl.typed (d : FieldDecl) (ty : Ty) : List TyField :=
  let tag := ((d.tag.bind fun t => Literal.unquote t.toList).map String.ofList).getD ""
  let field := fun name embedded =>
    { name, ty, tag, embedded, exported := Text.isExportedName name : TyField }
  if d.isEmbedded then [field (d.ty.embeddedName?.getD "") true]
  else d.names.map fun name => field name false

/-- The types of the declarations that have been resolved, by position. -/
abbrev TypeCache := List (Nat × Ty)

/-- A resolved type with the cache that results. -/
abbrev Resolved (α : Type) := Except Unresolved α × TypeCache

theorem length_filter_ne_lt {pos : Nat} {pending : List Nat} (h : pos ∈ pending) :
    (pending.filter (· != pos)).length < pending.length := by
  exact List.length_filter_lt_length_iff_exists.2 ⟨pos, h, by simp⟩

mutual

/-- The type of an expression. `pending` holds the positions of the declarations that are not being
resolved already. -/
def resolveExpr (pending : List Nat) (env : List Frame) (cache : TypeCache) :
    TypeExpr → Resolved Ty
  | .ref (some pkg) name =>
    if pkg = "unsafe" ∧ name = "Pointer" then (.ok (.basic .unsafePointer), cache)
    else (.ok (.foreign (pkg ++ "." ++ name)), cache)
  | .ref none name =>
    match lookupType? name env with
    | some (d, env) => resolveDecl pending env cache d
    | none =>
      match universe? name with
      | some ty => (.ok ty, cache)
      | none => (.error (.skip (.undefinedType name)), cache)
  | .pointer elem => (.ok (.pointer elem.render), cache)
  | .slice elem => (.ok (.slice elem.render), cache)
  | .map key value => (.ok (.map key.render value.render), cache)
  | .chan text => (.ok (.chan text), cache)
  | .func text => (.ok (.func text), cache)
  | .interface text => (.ok (.interface text), cache)
  | .generic _ text => (.error (.skip (.genericInstance text)), cache)
  | .array len elem =>
    match arrayLength env len with
    | .error reason => (.error (.skip reason), cache)
    | .ok n =>
      let r := resolveExpr pending env cache elem
      (r.1.map (.array n), r.2)
  | .struct ⟨_, fields, _, _, _⟩ =>
    let r := resolveFields pending env cache fields
    (r.1.map .struct, r.2)
termination_by e => (pending.length, sizeOf e + 1)

def resolveFields (pending : List Nat) (env : List Frame) (cache : TypeCache) :
    List FieldDecl → Resolved (List TyField)
  | [] => (.ok [], cache)
  | d :: ds =>
    match resolveField pending env cache d with
    | (.error e, cache) => (.error e, cache)
    | (.ok own, cache) =>
      let r := resolveFields pending env cache ds
      (r.1.map (own ++ ·), r.2)
termination_by ds => (pending.length, sizeOf ds + 1)

def resolveField (pending : List Nat) (env : List Frame) (cache : TypeCache) :
    FieldDecl → Resolved (List TyField)
  | ⟨names, pos, ty, tyText, tag, doc, comment⟩ =>
    let r := resolveExpr pending env cache ty
    (r.1.map (FieldDecl.typed ⟨names, pos, ty, tyText, tag, doc, comment⟩), r.2)
termination_by d => (pending.length, sizeOf d + 1)

/-- The type that a declaration stands for, from the cache if it has been resolved before. -/
def resolveDecl (pending : List Nat) (env : List Frame) (cache : TypeCache) (d : Declared) :
    Resolved Ty :=
  match cache.lookup d.spec.pos with
  | some ty => (.ok ty, cache)
  | none =>
    if d.spec.isGeneric then (.error (.skip (.genericType d.spec.name)), cache)
    else if _open : d.spec.pos ∈ pending then
      match resolveExpr (pending.filter (· != d.spec.pos)) env cache d.spec.ty with
      | (.error e, cache) => (.error e, cache)
      | (.ok ty, cache) =>
        let ty := if d.spec.isAlias then ty else .named d.spec.name d.spec.pos ty.underlying
        (.ok ty, (d.spec.pos, ty) :: cache)
    else (.error (.recursive d.spec.name d.position), cache)
termination_by (pending.length, 0)
decreasing_by exact Prod.Lex.left _ _ (length_filter_ne_lt _open)

end

end StructLayout
