import StructLayout.Resolve

/-! Checking a package: from its files to the scopes of its types. -/

namespace StructLayout

/-- What checking has found so far. -/
structure Checked where
  cache : TypeCache := []
  warnings : List Warning := []
  deriving Repr

/-- Checking keeps what it has found also when it fails. -/
abbrev Check := ExceptT CheckError (StateM Checked)

namespace Check

/-- The type of a declaration, or none if it is left out with a warning. -/
def resolve (pending : List Nat) (env : List Frame) (d : Declared) : Check (Option Ty) := do
  let c ← get
  let r := resolveDecl pending env c.cache d
  set { c with cache := r.2 }
  match r.1 with
  | .ok ty => return some ty
  | .error (.recursive name position) => throw (.recursiveType name position)
  | .error (.skip reason) =>
    modify fun c => { c with warnings := c.warnings ++ [⟨d.position, d.spec.name, reason⟩] }
    return none

/-- Declares types in a scope, in order. Generic types are left out without a warning. -/
def declare (pending : List Nat) (env : List Frame) (scope : Scope) :
    List Declared → Check Scope
  | [] => return scope
  | d :: ds => do
    if d.spec.isGeneric then declare pending env scope ds
    else
      match ← resolve pending env d with
      | some ty =>
        let t : TypeName :=
          { name := d.spec.name, pos := d.spec.pos, isAlias := d.spec.isAlias, ty }
        declare pending env (scope.declare t) ds
      | none => declare pending env scope ds

mutual

/-- The scope of a block, unless nothing is declared in it. -/
def block (pending : List Nat) (env : List Frame) (file : FileInfo) :
    Block → Check (Option Scope)
  | ⟨_, specs, consts, inner⟩ => do
    let decls := specs.map fun spec => (⟨spec, file⟩ : Declared)
    let env := .ofDecls decls consts :: env
    let scope ← declare pending env { kind := .block } decls
    let children ← blocks pending env file inner
    let scope := { scope with children }
    return if scope.isEmpty then none else some scope

def blocks (pending : List Nat) (env : List Frame) (file : FileInfo) :
    List Block → Check (List Scope)
  | [] => return []
  | b :: bs => do
    let own ← block pending env file b
    let others ← blocks pending env file bs
    return own.toList ++ others

end

/-- The blocks inside of several files. -/
def allBlocks (pending : List Nat) (env : List Frame) : List SourceFile → Check (List Scope)
  | [] => return []
  | f :: fs => do
    let own ← blocks pending env f.text.info f.root.blocks
    let others ← allBlocks pending env fs
    return own ++ others

end Check

/-- The first declaration of a name that some declaration before it has too. -/
def redeclared? (seen : List String) : List Declared → Option Declared
  | [] => none
  | d :: ds =>
    if d.spec.name = "_" then redeclared? seen ds
    else if d.spec.name ∈ seen then some d
    else redeclared? (d.spec.name :: seen) ds

namespace SourceFile

/-- The declarations outside of all blocks. -/
def topDecls (f : SourceFile) : List Declared :=
  f.root.specs.map fun spec => ⟨spec, f.text.info⟩

end SourceFile

/-- The scope of a package, whose name and directory are given. Names are declared once outside of
blocks, and again inside of blocks where the last declaration counts. -/
def checkPackage (files : List SourceFile) (name path : String) : Check Scope := do
  let decls := files.flatMap SourceFile.topDecls
  match redeclared? [] decls with
  | some d => throw (.redeclared d.spec.name d.position)
  | none =>
    let env := [Frame.ofDecls decls (files.flatMap fun f => f.root.consts)]
    let pending := files.flatMap fun f => f.specs.map TypeSpec.pos
    let scope ← Check.declare pending env { kind := .package name path } decls
    let children ← Check.allBlocks pending env files
    return { scope with children }

/-- The outcome of checking a package, and the warnings up to its end. -/
def check (files : List SourceFile) (name path : String) : Except CheckError Scope × List Warning :=
  let r := (checkPackage files name path).run.run {}
  (r.1, r.2.warnings)

end StructLayout
