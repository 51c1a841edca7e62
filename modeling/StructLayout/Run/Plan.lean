import StructLayout.Output.Emitter
import StructLayout.Run.Error
import StructLayout.Source.Printer
import StructLayout.Visit.Order

/-! Curating a package: from its checked files to the documents of a run. -/

namespace StructLayout

/-- What a run does with the package that it loads. -/
structure Plan where
  package : String
  recursive : Bool
  platform : Platform
  pipe : Pipe
  wanted : String → Bool
  deep : Bool
  backref : Bool
  emitter : Emitter
  print : PrintOptions

/-- A text, and the file that it comes from or belongs to. -/
structure Document where
  path : String
  text : String
  deriving DecidableEq, Repr

/-- The first structure of a visit that could not be curated. -/
def Applied.failure? (outcomes : List Applied) : Option RunError :=
  outcomes.findSome? fun a =>
    match a.result with
    | .ok _ => none
    | .error cause => some (.strategy a.origin.name a.id cause)

namespace Plan

def visitor (p : Plan) (locator : Locator) : Visitor :=
  { platform := p.platform, pipe := p.pipe, wanted := p.wanted, locator, deep := p.deep }

/-- The structures of a visit, whose outcomes are given in the order that they arrive in, or the
failure of the first one by directory and declaration. -/
def settle (watch : Watch) (arrived : List Applied) : Except RunError Results :=
  let outcomes := Applied.sort arrived
  match Applied.failure? outcomes with
  | some e => .error e
  | none =>
    match watch .curated with
    | some cause => .error (.context cause)
    | none => .ok (.ofApplied outcomes)

/-- The curated structures of a package. -/
def curate (p : Plan) (watch : Watch) (pkg : Package) : Except RunError Results :=
  settle watch ((p.visitor pkg.locator).visit (watch .visit) p.backref pkg.scope)

/-- The files that declare curated structures, printed anew. -/
def printed (p : Plan) (watch : Watch) (pkg : Package) (results : Results) :
    Except RunError (List Document) := do
  if let some cause := watch .reload then throw (.load (.context cause))
  let reconciler : Reconciler := ⟨pkg.locator, results.flat⟩
  let status := fun (f : SourceFile) => watch (.reconcile f.path)
  let (_, files) ← (reconciler.files status pkg.sources.all).mapError .reconcile
  if let some cause := watch .rendered then throw (.context cause)
  return (files.filter SourceFile.isModified).map fun f => ⟨f.path, f.print p.print⟩

/-- The documents of a run. -/
def documents (p : Plan) (watch : Watch) (pkg : Package) : Except RunError (List Document) := do
  let results ← p.curate watch pkg
  match p.emitter.form with
  | .layouts => return [⟨Path.join pkg.path Emitter.layoutsFile, results.render⟩]
  | .sources => p.printed watch pkg results

end Plan

end StructLayout
