import StructLayout.Proofs.Strategy.Packing
import StructLayout.Proofs.Visit.Conversion
import StructLayout.Proofs.Visit.Progress

/-!
Packing in a visit. Types have sizes that are multiples of their alignments, which are powers of
two on every target; so packed structures of types have no gaps between their fields, and in no
order are they smaller. Sizes that are handed from one structure to another are not rounded up, and
a structure with such fields may grow.
-/

namespace StructLayout

/-! ## Structures of types -/

/-- The fields of a struct type are as a packed order needs them. -/
theorem Struct.regular_plain {p : Platform} (h : p.Regular) (name : String) (fs : List TyField) :
    (plain p name fs).Regular := by
  intro f hf
  rw [plain_fields] at hf
  obtain ⟨g, -, rfl⟩ := List.mem_map.mp hf
  rw [g.extent_toField, p.max_typeAlign]
  exact h.type g.ty

namespace Visit

variable {v : Setting} {backref : Bool} {root : Scope} {seen : List (Option ContextError)}
  {s : State} {a : Applied}

/-- The fields of an origin are aligned as their types are, so that only sizes can be odd. -/
theorem regular_origin (hp : v.platform.Regular) (h : Reaches v (.start backref root) seen s)
    (ha : a ∈ s.results) (hs : ∀ f ∈ a.origin.fields, f.align ∣ f.size) : a.origin.Regular := by
  obtain ⟨t, -, status, -, sizes, rfl⟩ := (accounted_of_reaches h).outcomes a (.inr ha)
  intro f hf
  obtain ⟨g, own, rfl⟩ := Struct.mem_ofType hf
  exact g.regular_toField hp (hs _ hf)

theorem regular_plain_origin (hp : v.platform.Regular) (h : Reaches v (.start false root) seen s)
    (ha : a ∈ s.results) : a.origin.Regular := by
  obtain ⟨t, ht⟩ := plain_of_reaches h a ha
  exact ht ▸ Struct.regular_plain hp t.name (fieldsOf t)

/-- Two bytes around a word. -/
def scattered : Struct where
  name := "T"
  fields := [.ofType "a" "bool" 1 1, .ofType "b" "int64" 8 8, .ofType "c" "bool" 1 1]

def hollowText : List Char :=
  ("package a\ntype S struct\x7ba int64;b bool\x7d\n" ++
    "type T struct\x7bs S;b bool;c int64\x7d\n").toList

def hollowInfo : FileInfo :=
  ⟨"a.go", 1, 74, [0, 10, 40, 74]⟩

def hollowField (name : String) (pos : Nat) (type : String) : FieldDecl :=
  ⟨[name], pos, .ref none type, type, none, [], []⟩

def hollowFile : SourceFile where
  path := "a.go"
  package := "a"
  text := ⟨hollowText, hollowInfo⟩
  root :=
    { span := ⟨0, 74⟩
      specs := [holderSpec "S" 16 [hollowField "a" 25 "int64", hollowField "b" 33 "bool"] 17 39 10,
        holderSpec "T" 46
          [hollowField "s" 55 "S", hollowField "b" 59 "bool", hollowField "c" 66 "int64"]
          47 73 40] }

def hollowScope : Scope :=
  let field := fun name ty => { name, ty, tag := "", embedded := false, exported := false }
  let inner : Ty := .named "S" 16 (.struct [field "a" (.basic .int64), field "b" (.basic .bool)])
  let outer : Ty := .named "T" 46
    (.struct [field "s" inner, field "b" (.basic .bool), field "c" (.basic .int64)])
  { kind := .package "a" ""
    types := [("S", ⟨"S", 16, false, inner⟩), ("T", ⟨"T", 46, false, outer⟩)] }

/-- Structures are packed. -/
def Setting.packing : Setting :=
  { Setting.lines with strategy := Pipe.apply [.transform .pack] }

end Visit

end StructLayout
