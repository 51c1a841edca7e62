import StructLayout.Output.Emitter
import StructLayout.Pattern.Reader
import StructLayout.Platform
import StructLayout.Source.Printer

/-! Configurations of a run, and what is wrong with them. -/

namespace StructLayout

structure Config where
  emitter : String := ""
  package : String := ""
  strategies : List String := []
  compiler : String := "gc"
  arch : String := "amd64"
  cacheLines : List Int := [64, 64, 64]
  wanted : String := ".*"
  deep : Bool := false
  backref : Bool := false
  recursive : Bool := false
  tagGroup : String := ""
  tagType : String := ""
  print : PrintOptions := {}
  timeoutSeconds : Int := 0
  maxThreads : Nat := 1
  logLevel : String := "info"
  deriving DecidableEq, Repr

inductive ConfigError where
  | unknownEmitter (name : String)
  | noPackage
  | noStrategies
  | unknownCompiler (name : String)
  | tooManyCacheLines (count : Nat)
  | invalidPattern (text : String)
  | unknownTagType (name : String)
  | noIndent
  | noThreads
  deriving DecidableEq, Repr

def ConfigError.message : ConfigError → String
  | .unknownEmitter name =>
    "unknown walker " ++ Text.quoted name ++ ", expected one of " ++ ", ".intercalate Emitter.names
  | .noPackage => "package path must be set"
  | .noStrategies => "at least one strategy must be set"
  | .unknownCompiler name => "unknown compiler " ++ Text.quoted name
  | .tooManyCacheLines count => s!"at most 3 cache lines can be set, got {count}"
  | .invalidPattern text => "invalid regex " ++ Text.quoted text
  | .unknownTagType name => "unknown tag type " ++ Text.quoted name
  | .noIndent => "indent must be greater than 0 when tabs are off"
  | .noThreads => "max_threads must be greater than 0"

namespace Config

/-- The strategies that write tags, by the type of the tags. -/
def tagTypes : List (String × String) :=
  [("soft", "add_tag_group_soft"),
   ("force", "add_tag_group_force"),
   ("discrete", "add_tag_group_discrete"),
   ("force_discrete", "add_tag_group_force_discrete")]

/-- The strategy that writes the tags of a run. -/
def tagStrategy? (c : Config) : Option String :=
  tagTypes.lookup c.tagType

/-- Each rule that a configuration can break. -/
def rules (c : Config) : List (Bool × ConfigError) :=
  [((Emitter.ofName? c.emitter).isNone, .unknownEmitter c.emitter),
   (c.package.isEmpty, .noPackage),
   (c.strategies.isEmpty, .noStrategies),
   ((WordSizes.targets c.compiler).isEmpty, .unknownCompiler c.compiler),
   (decide (3 < c.cacheLines.length), .tooManyCacheLines c.cacheLines.length),
   ((Pattern.read? c.wanted).isNone, .invalidPattern c.wanted),
   (!c.tagType.isEmpty && c.tagType != "none" && c.tagStrategy?.isNone, .unknownTagType c.tagType),
   (!c.print.useTabs && c.print.indent == 0, .noIndent),
   (c.maxThreads == 0, .noThreads)]

/-- The first rule that a configuration breaks. -/
def error? (c : Config) : Option ConfigError :=
  (c.rules.find? (·.1)).map (·.2)

end Config

end StructLayout
