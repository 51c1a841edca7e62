import StructLayout.CommandLine.Arguments
import StructLayout.Config.File
import StructLayout.Config.Plan
import StructLayout.Run.Outcome

/-! The program on a disk: from its arguments to what it writes. -/

namespace StructLayout

namespace Program

def versionText : String :=
  "layout-curator 1.0.0\n"

/-- How to call the program. -/
def usageText : String :=
  "Usage: layout-curator [OPTIONS] <WALKER> <PACKAGE> <STRATEGIES>...\n"

/-- Why the program fails, outermost first. -/
def failureLine (chain : List String) : String :=
  "[!] " ++ ": ".intercalate chain

/-- Warnings are shown unless only errors are. -/
def showsWarnings (logLevel : String) : Bool :=
  logLevel.toList.map Char.toLower != "error".toList

/-- A text in which every line but the first is indented. -/
def indentLines (text : String) : String :=
  "\n    ".intercalate ((Text.split (· == '\n') text.toList).map String.ofList)

def warningLine (w : Warning) : String :=
  "[WARN  layout_curator::source::checker] " ++ indentLines w.message

/-- What one run of the program leaves, and whether it went through to its end. -/
structure Result where
  status : Nat
  finished : Bool := false
  stream : String := ""
  notes : List String := []
  files : List (String × String) := []
  disk : Disk

/-- The configuration of a run: that of the file that is named, and the arguments. -/
def config (a : Arguments) (disk : Disk) : Except ConfigFileError Config :=
  match a.value? "config" with
  | some path => (Config.load disk path).map a.override
  | none => .ok (a.override {})

/-- What is said before a run starts. -/
def startLine (c : Config) : String :=
  s!"[*] Curating {c.package} with " ++ ", ".intercalate c.strategies

/-- A run under a plan. -/
def runPlan (a : Arguments) (c : Config) (plan : Plan) (disk : Disk) : Result :=
  let (written, warnings, store) := plan.run (.steady none) { disk }
  let warnings := if showsWarnings a.logLevel then warnings.map warningLine else []
  let failure := written.failure.map fun e => failureLine (c.failureTitle :: e.chain)
  { status := if written.failure.isSome then 1 else 0
    finished := written.failure.isNone
    stream := written.stream
    notes := startLine c :: warnings ++ failure.toList
    files := written.files
    disk := store.disk }

/-- Runs the program. The status is zero if all went well, one if the run failed, and two if the
arguments make no sense. -/
def run (texts : List String) (disk : Disk) : Result :=
  match Arguments.read texts with
  | .error .help => { status := 0, stream := usageText, disk }
  | .error .version => { status := 0, stream := versionText, disk }
  | .error .usage => { status := 2, disk }
  | .ok a =>
    match config a disk with
    | .error e => { status := 1, notes := [failureLine e.chain], disk }
    | .ok c =>
      match c.plan with
      | .error e => { status := 1, notes := [failureLine e.chain], disk }
      | .ok plan => runPlan a c plan disk

end Program

end StructLayout
