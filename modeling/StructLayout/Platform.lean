import StructLayout.Layout.Align
import StructLayout.Ty

/-! Target platforms: the sizes and alignments of types, and the cache lines. -/

namespace StructLayout

/-- The word size of a target and the largest alignment that it gives. -/
structure WordSizes where
  word : Nat
  maxAlign : Nat
  deriving DecidableEq, Repr

namespace WordSizes

def gc : List (String × WordSizes) :=
  [("386", ⟨4, 4⟩), ("amd64", ⟨8, 8⟩), ("amd64p32", ⟨4, 8⟩), ("arm", ⟨4, 4⟩), ("arm64", ⟨8, 8⟩),
   ("loong64", ⟨8, 8⟩), ("mips", ⟨4, 4⟩), ("mipsle", ⟨4, 4⟩), ("mips64", ⟨8, 8⟩),
   ("mips64le", ⟨8, 8⟩), ("ppc64", ⟨8, 8⟩), ("ppc64le", ⟨8, 8⟩), ("riscv64", ⟨8, 8⟩),
   ("s390x", ⟨8, 8⟩), ("sparc64", ⟨8, 8⟩), ("wasm", ⟨8, 8⟩)]

def gccgo : List (String × WordSizes) :=
  [("386", ⟨4, 4⟩), ("amd64", ⟨8, 8⟩), ("amd64p32", ⟨4, 8⟩), ("arm", ⟨4, 8⟩), ("arm64", ⟨8, 8⟩),
   ("loong64", ⟨8, 8⟩), ("mips", ⟨4, 8⟩), ("mipsle", ⟨4, 8⟩), ("mips64", ⟨8, 8⟩),
   ("mips64le", ⟨8, 8⟩), ("ppc64", ⟨8, 8⟩), ("ppc64le", ⟨8, 8⟩), ("riscv64", ⟨8, 8⟩),
   ("s390x", ⟨8, 8⟩), ("sparc64", ⟨8, 8⟩)]

/-- The architectures that a compiler supports. -/
def targets : String → List (String × WordSizes)
  | "gc" => gc
  | "gccgo" => gccgo
  | _ => []

def lookup? (compiler arch : String) : Option WordSizes :=
  (targets compiler).lookup arch

end WordSizes

inductive PlatformError where
  | unsupported (compiler arch : String)
  | tooManyCacheLines (count : Nat)
  deriving DecidableEq, Repr

def PlatformError.message : PlatformError → String
  | .unsupported compiler arch =>
    s!"unsupported compiler {compiler} and architecture {arch} combination"
  | .tooManyCacheLines count => s!"at most 3 cache line levels can be configured, got {count}"

structure Platform where
  compiler : String
  arch : String
  sizes : WordSizes
  cacheLines : List Nat
  deriving DecidableEq, Repr

namespace Platform

/-- Cache lines below zero count as zero, which turns rounding off for their level. -/
def of (compiler arch : String) (cacheLines : List Int) : Except PlatformError Platform :=
  match WordSizes.lookup? compiler arch with
  | none => .error (.unsupported compiler arch)
  | some sizes =>
    if cacheLines.length > 3 then .error (.tooManyCacheLines cacheLines.length)
    else .ok { compiler, arch, sizes, cacheLines := cacheLines.map Int.toNat }

/-- The cache line of a level that is not configured. -/
def defaultCacheLine : Nat := 64

/-- The cache line of a level, counted from one. -/
def cacheLine (p : Platform) : Nat → Nat
  | 0 => defaultCacheLine
  | level + 1 => p.cacheLines[level]?.getD defaultCacheLine

def basicSize (p : Platform) : BasicKind → Nat
  | .string => 2 * p.sizes.word
  | kind => kind.fixedSize?.getD p.sizes.word

/-- Alignments lie between one and the largest of the platform. -/
def limit (p : Platform) (align : Nat) : Nat :=
  max (min align p.sizes.maxAlign) 1

/-- A complex number is aligned as one of its halves, and a string as a word. -/
def basicAlign (p : Platform) (kind : BasicKind) : Nat :=
  match kind with
  | .string => p.sizes.word
  | .complex64 | .complex128 => p.basicSize kind / 2
  | kind => p.basicSize kind

mutual

/-- The alignment of a type; a struct without fields has alignment one. -/
def typeAlign (p : Platform) : Ty → Nat
  | .basic kind => p.limit (p.basicAlign kind)
  | .array _ elem => p.limit (typeAlign p elem)
  | .struct fields => p.limit (fieldsAlign p fields)
  | .named _ _ u => p.limit (typeAlign p u)
  | .pointer _ | .map .. | .chan _ | .func _ | .foreign _ | .interface _ | .slice _ =>
    p.limit p.sizes.word

def fieldAlign (p : Platform) : TyField → Nat
  | ⟨_, ty, _, _, _⟩ => typeAlign p ty

/-- The largest alignment of some fields, zero without any. -/
def fieldsAlign (p : Platform) : List TyField → Nat
  | [] => 0
  | f :: fs => max (fieldAlign p f) (fieldsAlign p fs)

end

mutual

/-- The size of a type. The elements of an array are apart by their size rounded up. -/
def typeSize (p : Platform) : Ty → Nat
  | .basic kind => p.basicSize kind
  | .pointer _ | .map .. | .chan _ | .func _ | .foreign _ => p.sizes.word
  | .interface _ => 2 * p.sizes.word
  | .slice _ => 3 * p.sizes.word
  | .array 0 _ => 0
  | .array (n + 1) elem => alignUp (typeSize p elem) (p.typeAlign elem) * n + typeSize p elem
  | .struct fields => alignUp (fieldsEnd p 0 fields) (max (p.fieldsAlign fields) 1)
  | .named _ _ u => typeSize p u

/-- Where a field ends that is placed at the next multiple of its alignment. -/
def fieldEnd (p : Platform) (offset : Nat) : TyField → Nat
  | ⟨_, ty, _, _, _⟩ => alignUp offset (p.typeAlign ty) + typeSize p ty

def fieldsEnd (p : Platform) (offset : Nat) : List TyField → Nat
  | [] => offset
  | f :: fs => fieldsEnd p (fieldEnd p offset f) fs

end

end Platform

end StructLayout
