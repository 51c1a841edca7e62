import StructLayout.Context

/-! When a run looks at its context. -/

namespace StructLayout

/-- The moments of a run that a context can stop it at. -/
inductive Moment where
  | load
  | loadInner (directory : String)
  | visit
  | curated
  | reload
  | reconcile (file : String)
  | rendered
  | write (file : String)
  deriving DecidableEq, Repr

/-- The context as it is found at each moment. -/
abbrev Watch := Moment → Option ContextError

/-- A context that stays as it is. -/
def Watch.steady (status : Option ContextError) : Watch :=
  fun _ => status

end StructLayout
