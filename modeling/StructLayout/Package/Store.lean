import StructLayout.Package.Load

/-! Packages that have been loaded once are kept, also when their files change afterwards. -/

namespace StructLayout

/-- A disk, and the packages loaded from it by directory and by whether the directories inside were
loaded too. -/
structure Store where
  disk : Disk
  packages : List ((List String × Bool) × Package) := []
  deriving Repr

namespace Store

/-- The package of a directory; packages that could not be loaded are not kept. -/
def load (s : Store) (watch : Watch) (path : String) (recursive : Bool) :
    (Except LoadError Package × List Warning) × Store :=
  match watch .load with
  | some cause => ((.error (.context cause), []), s)
  | none =>
    match (s.disk.find path).toOption.map fun way => (way, s.disk.tree.at? way) with
    | some (way, some (.directory entries)) =>
      match s.packages.lookup (way, recursive) with
      | some p => ((.ok p, []), s)
      | none =>
        match Package.load watch recursive (s.disk.path way) entries with
        | (.ok p, warnings) =>
          ((.ok p, warnings), { s with packages := ((way, recursive), p) :: s.packages })
        | (.error e, warnings) => ((.error e, warnings), s)
    | _ => ((.error (.notFound path), []), s)

end Store

end StructLayout
