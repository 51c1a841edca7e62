import StructLayout.Output.Destination

/-! What a run emits. -/

namespace StructLayout

inductive Form where
  /-- The layouts of all curated structures in one document. -/
  | layouts
  /-- The source files that declare curated structures. -/
  | sources
  deriving DecidableEq, Repr

structure Emitter where
  form : Form
  destination : Destination
  deriving DecidableEq, Repr

namespace Emitter

/-- The emitters by name. -/
def named : List (String × Emitter) :=
  [("json_std", ⟨.layouts, .stream⟩),
   ("json_files", ⟨.layouts, .origin⟩),
   ("ast_std", ⟨.sources, .stream⟩),
   ("ast_go", ⟨.sources, .origin⟩),
   ("ast_copy", ⟨.sources, .beside "curated"⟩)]

def ofName? (name : String) : Option Emitter :=
  named.lookup name

def names : List String :=
  named.map (·.1)

/-- The name of the file that takes the layouts of a directory. -/
def layoutsFile : String := "layout-curator.json"

end Emitter

end StructLayout
