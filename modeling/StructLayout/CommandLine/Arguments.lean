import StructLayout.Config.Basic

/-! The arguments of the program. -/

namespace StructLayout

namespace Text

/-- A whole number of 64 bits with a sign; it may have one in front. -/
def readInt (cs : List Char) : Option Int :=
  match cs with
  | '-' :: digits =>
    match readDigits 10 0 digits with
    | some n => if digits.isEmpty || signedBound < n then none else some (-n)
    | none => none
  | cs =>
    match readNat 10 cs with
    | some n => if n < signedBound then some n else none
    | none => none

end Text

/-- The arguments by their role. Options that may be repeated have an entry for each time. -/
structure Arguments where
  positionals : List String := []
  flags : List String := []
  values : List (String × String) := []
  deriving DecidableEq, Repr

/-- Why the program ends before it has done anything. -/
inductive EarlyEnd where
  | help
  | version
  | usage
  deriving DecidableEq, Repr

namespace Arguments

def flagNames : List String :=
  ["deep", "backref", "recursive", "use-tabs"]

def valueNames : List String :=
  ["compiler", "arch", "cache-lines", "regex", "tag-group", "tag-type", "indent", "timeout",
   "log-level", "config"]

/-- The numbers of a list with commas. -/
def readInts (text : String) : Option (List Int) :=
  (Text.split (· == ',') text.toList).mapM Text.readInt

/-- The text can be the value of an option. -/
def isValue (name text : String) : Bool :=
  match name with
  | "cache-lines" => (readInts text).isSome
  | "indent" => (Text.readNat 10 text.toList).isSome
  | "timeout" => (Text.readInt text.toList).isSome
  | "config" => !text.isEmpty
  | _ => true

def addFlag (a : Arguments) (name : String) : Except EarlyEnd Arguments :=
  if a.flags.contains name then .error .usage else .ok { a with flags := a.flags ++ [name] }

/-- All options but the cache lines are given once at most. -/
def addValue (a : Arguments) (name text : String) : Except EarlyEnd Arguments :=
  if (a.values.lookup name).isSome && name != "cache-lines" || !isValue name text then .error .usage
  else .ok { a with values := a.values ++ [(name, text)] }

/-- The second positional argument, the package, is not empty. -/
def addPositional (a : Arguments) (text : String) : Except EarlyEnd Arguments :=
  if a.positionals.length = 1 ∧ text.isEmpty then .error .usage
  else .ok { a with positionals := a.positionals ++ [text] }

/-- An argument that begins with a dash, but for the dash alone. -/
def isOption (text : String) : Bool :=
  text.toList.head? == some '-' && text != "-"

/-- What stands behind the dashes of a long option: its name, and the value behind an equal sign. -/
def long? (text : String) : Option (String × Option String) :=
  match text.toList with
  | '-' :: '-' :: cs =>
    let name := String.ofList (cs.takeWhile (· != '='))
    match cs.dropWhile (· != '=') with
    | _ :: value => some (name, some (String.ofList value))
    | [] => some (name, none)
  | _ => none

/-- A short option; the first letter decides. -/
def readShort (text : String) : EarlyEnd :=
  match text.toList with
  | _ :: 'h' :: _ => .help
  | _ :: 'V' :: _ => .version
  | _ => .usage

/-- A long option that takes no value behind it. -/
def readFlag (a : Arguments) (name : String) : Except EarlyEnd Arguments :=
  if name = "help" then .error .help
  else if name = "version" then .error .version
  else if flagNames.contains name then a.addFlag name
  else .error .usage

/-- Reads arguments in order. Behind two dashes all of them are positional. -/
def readFrom (a : Arguments) : List String → Except EarlyEnd Arguments
  | [] => .ok a
  | text :: rest =>
    if text = "--" then rest.foldlM addPositional a
    else
      match long? text with
      | some (name, some value) =>
        if valueNames.contains name then do readFrom (← a.addValue name value) rest
        else .error .usage
      | some (name, none) =>
        if valueNames.contains name then
          match rest with
          | value :: rest =>
            if isOption value then .error .usage else do readFrom (← a.addValue name value) rest
          | [] => .error .usage
        else do readFrom (← a.readFlag name) rest
      | none =>
        if isOption text then .error (readShort text)
        else do readFrom (← a.addPositional text) rest

/-- Reads the arguments of the program: an emitter, a package and at least one strategy. -/
def read (texts : List String) : Except EarlyEnd Arguments := do
  let a ← readFrom {} texts
  if a.positionals.length < 3 then throw .usage
  return a

def value? (a : Arguments) (name : String) : Option String :=
  a.values.lookup name

def hasFlag (a : Arguments) (name : String) : Bool :=
  a.flags.contains name

/-- The numbers of all values of an option. -/
def ints (a : Arguments) (name : String) : List Int :=
  (a.values.filter fun v => v.1 == name).flatMap fun v => (readInts v.2).getD []

/-- The log level; without one warnings are shown. -/
def logLevel (a : Arguments) : String :=
  (a.value? "log-level").getD "warn"

/-- The print options: an indent stands for spaces, unless tabs are asked for too. -/
def print (a : Arguments) (o : PrintOptions) : PrintOptions :=
  let o := match (a.value? "indent").bind fun text => Text.readNat 10 text.toList with
    | some indent => { o with indent, useTabs := false }
    | none => o
  if a.hasFlag "use-tabs" then { o with useTabs := true } else o

/-- A configuration with the values of the arguments in place of its own. -/
def override (a : Arguments) (c : Config) : Config :=
  let ints := a.ints "cache-lines"
  { c with
    emitter := a.positionals[0]?.getD ""
    package := a.positionals[1]?.getD ""
    strategies := a.positionals.drop 2
    logLevel := a.logLevel
    compiler := (a.value? "compiler").getD c.compiler
    arch := (a.value? "arch").getD c.arch
    cacheLines := if ints.isEmpty then c.cacheLines else ints
    wanted := (a.value? "regex").getD c.wanted
    deep := c.deep || a.hasFlag "deep"
    backref := c.backref || a.hasFlag "backref"
    recursive := c.recursive || a.hasFlag "recursive"
    tagGroup := (a.value? "tag-group").getD c.tagGroup
    tagType := (a.value? "tag-type").getD c.tagType
    print := a.print c.print
    timeoutSeconds :=
      ((a.value? "timeout").bind fun text => Text.readInt text.toList).getD c.timeoutSeconds }

end Arguments

end StructLayout
