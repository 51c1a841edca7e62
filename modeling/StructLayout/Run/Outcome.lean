import StructLayout.Package.Store
import StructLayout.Run.Plan

/-! Running a plan: loading its package and writing its documents. -/

namespace StructLayout

/-- What has been written up to the end of a run. -/
structure Written where
  stream : String := ""
  files : List (String × String) := []
  failure : Option RunError := none

/-- Writes documents in order up to the first that cannot be written. -/
def Destination.write (d : Destination) (watch : Watch) (disk : Disk) :
    List Document → Written × Disk
  | [] => ({}, disk)
  | doc :: docs =>
    match watch (.write doc.path) with
    | some cause => ({ failure := some (.context cause) }, disk)
    | none =>
      match d with
      | .stream =>
        let (w, disk) := Destination.write d watch disk docs
        ({ w with stream := streamed doc.text ++ w.stream }, disk)
      | d =>
        match d.target? doc.path with
        | none => Destination.write d watch disk docs
        | some path =>
          match disk.write path doc.text with
          | .error cause => ({ failure := some (.unwritable path cause) }, disk)
          | .ok disk =>
            let (w, disk) := Destination.write d watch disk docs
            ({ w with files := (path, doc.text) :: w.files }, disk)

namespace Plan

/-- Runs a plan: what it writes, the warnings, and the store afterwards. -/
def run (p : Plan) (watch : Watch) (store : Store) : Written × List Warning × Store :=
  let ((loaded, warnings), store) := store.load watch p.package p.recursive
  match loaded.mapError .load >>= p.documents watch with
  | .error e => ({ failure := some e }, warnings, store)
  | .ok docs =>
    let (written, disk) := p.emitter.destination.write watch store.disk docs
    (written, warnings, { store with disk })

end Plan

end StructLayout
