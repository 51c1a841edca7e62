import StructLayout.Check
import StructLayout.Files.Disk
import StructLayout.Locator
import StructLayout.Run.Watch

/-! Loading packages from directories, with the packages in the directories inside of them. -/

namespace StructLayout

inductive LoadError where
  | malformed (cause : SyntaxError)
  | check (cause : CheckError)
  | notFound (path : String)
  | noFiles (path : String)
  | mismatch (path expected found : String)
  | unreadable (path : String) (cause : FileError)
  | context (cause : ContextError)
  deriving DecidableEq, Repr

namespace LoadError

def message : LoadError → String
  | .malformed cause => cause.message
  | .check cause => cause.message
  | .notFound path => s!"package directory {path} not found"
  | .noFiles path => s!"no source files found in {path}"
  | .mismatch path expected found => s!"{path}: found packages {expected} and {found}"
  | .unreadable path cause => s!"failed to read {path}: {cause.message}"
  | .context cause => cause.message

/-- The texts of an error and of what caused it. -/
def chain (e : LoadError) : List String :=
  match e with
  | .unreadable _ cause => [e.message, cause.message]
  | _ => [e.message]

end LoadError

/-- The files of a package and of the packages inside of it. -/
structure PackageFiles where
  name : String
  path : String
  files : List SourceFile
  children : List PackageFiles
  deriving Repr

namespace PackageFiles

mutual

/-- The files of a package, and then those of the packages inside of it. -/
def all : PackageFiles → List SourceFile
  | ⟨_, _, files, children⟩ => files ++ allOf children

def allOf : List PackageFiles → List SourceFile
  | [] => []
  | p :: ps => p.all ++ allOf ps

end

end PackageFiles

/-- A package that has been checked. -/
structure Package where
  scope : Scope
  sources : PackageFiles
  locator : Locator
  deriving Repr

namespace Package

def name (p : Package) : String :=
  p.sources.name

def path (p : Package) : String :=
  p.sources.path

/-- What has been found while a package is loaded. -/
structure Progress where
  next : Nat := 1
  locator : Locator := .ofRoot .empty
  warnings : List Warning := []

/-- Loading keeps its warnings also when it fails. -/
abbrev Load := ExceptT LoadError (StateM Progress)

/-- A source file of a package; tests are none. -/
def isSource (name : String) : Bool :=
  Path.extension? name == some "go" && !"_test.go".toList.isSuffixOf name.toList

/-- A directory that belongs to no package. -/
def isSkipped (name : String) : Bool :=
  name.toList.head? == some '.' || name.toList.head? == some '_' || name == "testdata" ||
    name == "vendor"

/-- Reads the source files among the entries of a directory into a file set. -/
def readFiles (path : String) (fs : FileSet) :
    List (String × FileTree) → Except LoadError (FileSet × List SourceFile)
  | [] => .ok (fs, [])
  | (_, .directory _) :: rest => readFiles path fs rest
  | (name, .file text) :: rest =>
    if isSource name then
      let path' := Path.join path name
      match text with
      | none => .error (.unreadable path' .notText)
      | some text => do
        let chars := text.toList
        let file ← (SourceFile.read (fs.nextFile path' chars) path' chars).mapError .malformed
        let (fs, files) ← readFiles path (fs.add path' chars) rest
        return (fs, file :: files)
    else readFiles path fs rest

/-- The name of a package: that of its first file, or of its directory if it has no files. -/
def nameOf (path : String) (files : List SourceFile) : String :=
  match files with
  | f :: _ => f.package
  | [] => (Path.fileName? path).getD ""

/-- Checks the files of one directory. -/
def checkFiles (path : String) (files : List SourceFile) : Load Scope := do
  let name := nameOf path files
  match files.find? fun f => f.package != name with
  | some other => throw (.mismatch path name other.package)
  | none =>
    let (outcome, warnings) := check files name path
    modify fun s => { s with warnings := s.warnings ++ warnings }
    MonadExcept.ofExcept (outcome.mapError .check)

/-- The scope and the files of a directory, with those of the directories inside of it. -/
def assemble (path : String) (files : List SourceFile) (scope : Scope)
    (inner : List (Scope × PackageFiles)) : Scope × PackageFiles :=
  ({ scope with children := scope.children ++ inner.map (·.1) },
    { name := nameOf path files, path, files, children := inner.map (·.2) })

mutual

/-- Loads a directory inside of a package, unless it holds no source files at all. -/
def loadInner (watch : Watch) (path : String) :
    FileTree → Load (Option (Scope × PackageFiles))
  | .file _ => return none
  | .directory entries => do
    if let some cause := watch (.loadInner path) then throw (.context cause)
    let (fs, files) ← MonadExcept.ofExcept
      (readFiles path (.startingAt (← get).next) entries)
    modify fun s => { s with next := fs.next }
    unless files.isEmpty do
      modify fun s => { s with locator := s.locator.attach path fs }
    let scope ← checkFiles path files
    let inner ← loadEntries watch path entries
    return if files.isEmpty && inner.isEmpty then none
      else some (assemble path files scope inner)

/-- Loads the directories among some entries. -/
def loadEntries (watch : Watch) (path : String) :
    List (String × FileTree) → Load (List (Scope × PackageFiles))
  | [] => return []
  | (name, t) :: rest => do
    if isSkipped name then loadEntries watch path rest
    else
      let own ← loadInner watch (Path.join path name) t
      let others ← loadEntries watch path rest
      return own.toList ++ others

end

/-- Loads a directory whose entries are given. -/
def loadTop (watch : Watch) (recursive : Bool) (path : String)
    (entries : List (String × FileTree)) : Load Package := do
  let (fs, files) ← MonadExcept.ofExcept (readFiles path .empty entries)
  modify fun s => { s with next := fs.next, locator := .ofRoot fs }
  let scope ← checkFiles path files
  let inner ← if recursive then loadEntries watch path entries else pure []
  if files.isEmpty && inner.isEmpty then throw (.noFiles path)
  let (scope, sources) := assemble path files scope inner
  return { scope, sources, locator := (← get).locator }

/-- The outcome of loading a directory, and the warnings up to its end. -/
def load (watch : Watch) (recursive : Bool) (path : String)
    (entries : List (String × FileTree)) : Except LoadError Package × List Warning :=
  let r := (loadTop watch recursive path entries).run.run {}
  (r.1, r.2.warnings)

end Package

end StructLayout
