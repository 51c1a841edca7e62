import StructLayout.Config.Basic
import StructLayout.Run.Plan

/-! From a configuration to the plan of a run. -/

namespace StructLayout

/-- Why a configuration makes no plan. -/
inductive SetupError where
  | invalid (cause : ConfigError)
  | platform (cause : PlatformError)
  | pipe (cause : StrategyError)
  deriving DecidableEq, Repr

/-- The texts of an error and of what caused it. -/
def SetupError.chain : SetupError → List String
  | .invalid cause => ["invalid configuration: " ++ cause.message]
  | .platform cause => ["can't build target platform", cause.message]
  | .pipe cause => ["can't build strategy pipe", cause.message]

namespace Config

/-- The strategies of a run. The one that writes tags comes last, unless another one has been named
that has to do with tags. -/
def pipeNames (c : Config) : List String :=
  match c.tagStrategy? with
  | some tag => if c.strategies.any isTagStrategy then c.strategies else c.strategies ++ [tag]
  | none => c.strategies

/-- The plan of a configuration that breaks no rule. -/
def plan (c : Config) : Except SetupError Plan :=
  match c.error?, Emitter.ofName? c.emitter, Pattern.read? c.wanted with
  | none, some emitter, some pattern => do
    let platform ← (Platform.of c.compiler c.arch c.cacheLines).mapError .platform
    let pipe ← (Registry.pipe ⟨platform, c.tagGroup⟩ c.pipeNames).mapError .pipe
    return { package := c.package, recursive := c.recursive, platform, pipe,
             wanted := pattern.isMatch, deep := c.deep, backref := c.backref, emitter,
             print := c.print }
  | some e, _, _ => .error (.invalid e)
  | none, none, _ => .error (.invalid (.unknownEmitter c.emitter))
  | none, _, none => .error (.invalid (.invalidPattern c.wanted))

/-- What a failed run says before it gives its reasons. -/
def failureTitle (c : Config) : String :=
  s!"walker {c.emitter} failed on package {c.package}"

end Config

end StructLayout
