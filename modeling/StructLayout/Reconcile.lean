import StructLayout.Context
import StructLayout.Locator
import StructLayout.OrderedMap
import StructLayout.Source.File
import StructLayout.Source.Sync

/-! Writing curated structures back into the files that declare them. -/

namespace StructLayout

inductive ReconcileError where
  | context (cause : ContextError)
  | sync (cause : SyncError)
  deriving DecidableEq, Repr

def ReconcileError.message : ReconcileError → String
  | .context cause => cause.message
  | .sync cause => cause.message

/-- What the declarations of some files are to become: structures by identity. -/
structure Reconciler where
  locator : Locator
  results : List (Identity × Struct)

namespace Reconciler

/-- The structure that a declaration is to become. -/
def result? (r : Reconciler) (t : TypeSpec) : Option Struct :=
  OrderedMap.find? Identity.compare (r.locator.identity t.pos) r.results

/-- Syncs the declarations that have a result, and counts them. -/
def specs (r : Reconciler) : List TypeSpec → Except ReconcileError (Nat × List TypeSpec)
  | [] => .ok (0, [])
  | t :: ts => do
    match r.result? t with
    | none =>
      let (count, ts) ← r.specs ts
      return (count, t :: ts)
    | some st =>
      let t ← (t.sync st).mapError .sync
      let (count, ts) ← r.specs ts
      return (count + 1, t :: ts)

/-- The files with their synced declarations, and the number of these. `status` is the context as
each file finds it. -/
def files (r : Reconciler) (status : SourceFile → Option ContextError) :
    List SourceFile → Except ReconcileError (Nat × List SourceFile)
  | [] => .ok (0, [])
  | f :: fs => do
    match status f with
    | some cause => throw (.context cause)
    | none =>
      let (own, specs) ← r.specs f.specs
      let (others, fs) ← r.files status fs
      return (own + others, f.withSpecs specs :: fs)

end Reconciler

end StructLayout
