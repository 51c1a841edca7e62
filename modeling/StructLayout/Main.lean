import StructLayout.CommandLine.Program

/-! The program: files are read before a run, and written after it. -/

namespace StructLayout.Program

/-- The text of a file, if its bytes are one. -/
def readText (path : String) : IO (Option String) := do
  return String.fromUTF8? (← IO.FS.readBinFile path)

/-- What stands under a path. Of files only those that a package reads have their texts. -/
partial def readTree (path : String) : IO FileTree := do
  let real ← IO.FS.realPath path
  if ← real.isDir then
    let mut tree := FileTree.directory []
    for entry in ← real.readDir do
      let inner ← readTree (Path.join path entry.fileName)
      tree := FileTree.put inner [entry.fileName] tree
    return tree
  else if Package.isSource ((Path.fileName? path).getD "") then return .file (← readText path)
  else return .file none

/-- What is found under a path, if something is there: what a reader makes of a file, and a
directory without its entries. -/
def look (reader : String → IO FileTree) (path : String) : IO (Option FileTree) := do
  try
    let real ← IO.FS.realPath path
    if ← real.isDir then return some (.directory [])
    else return some (← reader path)
  catch _ => return none

/-- One name further; two dots go up. -/
def stepTo (way : List String) (name : String) : List String :=
  if name = ".." then way.dropLast else way ++ [name]

/-- Adds what is found under the names of a path from a place on, one after another. Directories
that are in the tree already stay. -/
def addNames (reader : String → IO FileTree) (way : List String) :
    List String → FileTree → IO FileTree
  | [], tree => return tree
  | name :: names, tree => do
    let way := stepTo way name
    if ((tree.at? way).map FileTree.isDirectory).getD false then addNames reader way names tree
    else
      match ← look reader ("/" ++ "/".intercalate way) with
      | some found => addNames reader way names (FileTree.put found way tree)
      | none => return tree

/-- The place that a path starts from. -/
def startOf (current path : String) : List String :=
  if Path.isAbsolute path then [] else Path.names current

/-- Adds a file and the directories that its path goes through. -/
def addFile (current : String) (tree : FileTree) (path : String) : IO FileTree :=
  let reader := fun path => return FileTree.file (← readText path)
  addNames reader (startOf current path) (Path.names path) tree

/-- Adds a directory with all that is in it, and the directories that its path goes through. -/
def addDirectory (current : String) (tree : FileTree) (path : String) : IO FileTree := do
  let names := Path.names path
  let start := startOf current path
  let through ← addNames (fun _ => return .file none) start names tree
  try return FileTree.put (← readTree path) (names.foldl stepTo start) through
  catch _ => return through

/-- A disk that holds what the arguments name. -/
def readDisk (a : Arguments) : IO Disk := do
  let current := (← IO.currentDir).toString
  let here := FileTree.put (.directory []) (Path.names current) (.directory [])
  let tree ← a.positionals[1]?.toList.foldlM (addDirectory current) here
  let tree ← (a.value? "config").toList.foldlM (addFile current) tree
  return { root := "", tree, current := Path.names current }

/-- Hundredths of seconds as a decimal. -/
def seconds (milliseconds : Nat) : String :=
  let hundredths := (milliseconds + 5) / 10
  let rest := hundredths % 100
  s!"{hundredths / 100}." ++ (if rest < 10 then "0" else "") ++ toString rest

end StructLayout.Program

open StructLayout in
def main (texts : List String) : IO UInt32 := do
  let start ← IO.monoMsNow
  let disk ← match Arguments.read texts with
    | .ok a => Program.readDisk a
    | .error _ => pure { root := "", tree := .directory [] }
  let result := Program.run texts disk
  for (path, text) in result.files do
    IO.FS.writeFile path text
  IO.print result.stream
  for note in result.notes do
    IO.eprintln note
  if result.status = 2 then IO.eprint Program.usageText
  if result.finished then
    IO.eprintln s!"[+] Done in {Program.seconds ((← IO.monoMsNow) - start)}s"
  return UInt32.ofNat result.status
