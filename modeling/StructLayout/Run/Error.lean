import StructLayout.Package.Load
import StructLayout.Reconcile
import StructLayout.Strategy.Error

/-! Why a run fails. -/

namespace StructLayout

inductive RunError where
  | load (cause : LoadError)
  | strategy (name : String) (id : Identity) (cause : StrategyError)
  | reconcile (cause : ReconcileError)
  | unwritable (path : String) (cause : FileError)
  | context (cause : ContextError)
  deriving DecidableEq, Repr

namespace RunError

/-- The texts of an error and of what caused it. -/
def chain : RunError → List String
  | .load cause => cause.chain
  | .strategy name id cause =>
    [s!"struct {name} ({id.text}) can't be curated: {cause.message}", cause.message]
  | .reconcile cause => [cause.message]
  | .unwritable path cause => [s!"can't write {path}: {cause.message}", cause.message]
  | .context cause => [cause.message]

end RunError

end StructLayout
