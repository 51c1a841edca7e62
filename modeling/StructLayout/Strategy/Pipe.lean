import StructLayout.Strategy.Replay

/-! Pipes: strategies applied one after the other until one fails. -/

namespace StructLayout

/-- A strategy of a pipe. -/
inductive Stage where
  | transform (t : Transform)
  | replay (r : Registry)
  deriving DecidableEq, Repr

def Stage.apply : Stage → Struct → Except StrategyError Struct
  | .transform t, st => .ok (t.apply st)
  | .replay r, st => st.replay r

abbrev Pipe := List Stage

namespace Registry

def stage (r : Registry) (recorded : List String) (name : String) : Except StrategyError Stage :=
  if name = replayName then .ok (.replay r) else (r.transform recorded name).map .transform

/-- The stages of a list of names, or the first name that stands for none. -/
def pipe (r : Registry) (names : List String) : Except StrategyError Pipe :=
  names.mapM (r.stage (recorded names))

end Registry

namespace Pipe

/-- Applies a pipe while the context is live. -/
def run (p : Pipe) (st : Struct) : Except StrategyError Struct :=
  p.foldlM (fun st s => s.apply st) st

/-- Applies a pipe; a context that is done stops it before its first stage. -/
def apply (p : Pipe) (status : Option ContextError) (st : Struct) : Except StrategyError Struct :=
  match status with
  | some cause => .error (.context cause)
  | none => p.run st

/-- The number of stages in one line. -/
def describe (p : Pipe) : String :=
  s!"Pipe \x7b stages: {p.length} \x7d"

end Pipe

end StructLayout
