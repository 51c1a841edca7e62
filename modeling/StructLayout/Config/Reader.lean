import StructLayout.Config.Basic
import StructLayout.Json.Reader

/-! Configurations from JSON values. A value is an object, or an array of the values in the order of
the keys. -/

namespace StructLayout

namespace JsonValue

def strings? : List JsonValue → Option (List String)
  | [] => some []
  | .string s :: rest => (strings? rest).map (s :: ·)
  | _ => none

/-- Whole numbers of 64 bits with a sign. -/
def signed? : JsonValue → Option Int
  | .int n => if -Text.signedBound ≤ n ∧ n < Text.signedBound then some n else none
  | _ => none

/-- Whole numbers of 64 bits without a sign. -/
def unsigned? : JsonValue → Option Nat
  | .int n => if 0 ≤ n ∧ n < Text.wordBound then some n.toNat else none
  | _ => none

/-- The members of an object, or an array's items under the keys that they stand for. Each key may
be given once; unknown ones may be repeated. -/
def members? (keys : List String) : JsonValue → Option (List (String × JsonValue))
  | .object members =>
    if ((members.map (·.1)).filter fun key => keys.contains key).Nodup then some members else none
  | .array items => if items.length ≤ keys.length then some (keys.zip items) else none
  | _ => none

end JsonValue

namespace PrintOptions

def keys : List String := ["indent", "use_tabs"]

/-- Both keys must be there. -/
def ofJson? (v : JsonValue) : Option PrintOptions := do
  let members ← v.members? keys
  let indent ← (← members.lookup "indent").unsigned?
  match ← members.lookup "use_tabs" with
  | .bool useTabs => return { indent, useTabs }
  | _ => none

end PrintOptions

namespace Config

def keys : List String :=
  ["walker", "package", "strategies", "compiler", "arch", "cache_lines", "regex", "deep",
   "backref", "recursive", "tag_group", "tag_type", "print", "timeout_seconds", "max_threads",
   "log_level"]

/-- A configuration with the value of one key; unknown keys change nothing. -/
def set (c : Config) (key : String) (v : JsonValue) : Option Config :=
  match key, v with
  | "walker", .string s => some { c with emitter := s }
  | "package", .string s => some { c with package := s }
  | "strategies", .array items =>
    (JsonValue.strings? items).map fun strategies => { c with strategies }
  | "compiler", .string s => some { c with compiler := s }
  | "arch", .string s => some { c with arch := s }
  | "cache_lines", .array items =>
    (items.mapM JsonValue.signed?).map fun cacheLines => { c with cacheLines }
  | "regex", .string s => some { c with wanted := s }
  | "deep", .bool b => some { c with deep := b }
  | "backref", .bool b => some { c with backref := b }
  | "recursive", .bool b => some { c with recursive := b }
  | "tag_group", .string s => some { c with tagGroup := s }
  | "tag_type", .string s => some { c with tagType := s }
  | "print", v => (PrintOptions.ofJson? v).map fun print => { c with print }
  | "timeout_seconds", v => v.signed?.map fun timeoutSeconds => { c with timeoutSeconds }
  | "max_threads", v => v.unsigned?.map fun maxThreads => { c with maxThreads }
  | "log_level", .string s => some { c with logLevel := s }
  | key, _ => if keys.contains key then none else some c

/-- A configuration; keys that are missing keep their defaults. -/
def ofJson? (v : JsonValue) : Option Config := do
  (← v.members? keys).foldlM (fun c m => c.set m.1 m.2) {}

/-- The configuration that a text holds. -/
def read? (text : String) : Option Config :=
  (JsonValue.read? text).bind ofJson?

end Config

end StructLayout
