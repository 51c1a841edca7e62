import StructLayout.Text.Quoted

/-! JSON values, and their text with indented lines. -/

namespace StructLayout

/-- A JSON value. Of numbers with a fraction, an exponent or no place in 64 bits, and of strings and
objects with texts or keys that hold other code units than characters, only the kind is known. -/
inductive JsonValue where
  | null
  | bool (b : Bool)
  | int (n : Int)
  | otherNumber
  | string (s : String)
  | otherString
  | array (items : List JsonValue)
  | object (members : List (String × JsonValue))
  | otherObject
  deriving Repr

namespace JsonValue

def nat (n : Nat) : JsonValue :=
  .int n

def strings (xs : List String) : JsonValue :=
  .array (xs.map .string)

/-- A character inside of a string; controls without a short form are written by their number. -/
def escape (c : Char) : List Char :=
  match c with
  | '"' => ['\\', '"']
  | '\\' => ['\\', '\\']
  | '\x08' => ['\\', 'b']
  | '\x0c' => ['\\', 'f']
  | '\n' => ['\\', 'n']
  | '\r' => ['\\', 'r']
  | '\t' => ['\\', 't']
  | c =>
    if c.toNat < 32 then
      ['\\', 'u', '0', '0', Nat.digitChar (c.toNat / 16), Nat.digitChar (c.toNat % 16)]
    else [c]

def quote (s : String) : String :=
  String.ofList ('"' :: s.toList.flatMap escape ++ ['"'])

/-- Parts on lines of their own between two brackets, two spaces further in than the brackets. -/
def block (depth : Nat) (opening closing : String) (parts : List String) : String :=
  if parts.isEmpty then opening ++ closing
  else
    let newLine := fun depth => "\n" ++ "".pushn ' ' (2 * depth)
    opening ++ newLine (depth + 1) ++ ("," ++ newLine (depth + 1)).intercalate parts
      ++ newLine depth ++ closing

mutual

/-- The text of a value that stands `depth` levels deep. -/
def render (depth : Nat) : JsonValue → String
  | .null => "null"
  | .bool b => if b then "true" else "false"
  | .int n => toString n
  | .otherNumber => "null"
  | .string s => quote s
  | .otherString => "null"
  | .array items => block depth "[" "]" (renderItems (depth + 1) items)
  | .object members => block depth "\x7b" "\x7d" (renderMembers (depth + 1) members)
  | .otherObject => "null"

def renderItems (depth : Nat) : List JsonValue → List String
  | [] => []
  | v :: vs => render depth v :: renderItems depth vs

def renderMembers (depth : Nat) : List (String × JsonValue) → List String
  | [] => []
  | (key, v) :: rest => (quote key ++ ": " ++ render depth v) :: renderMembers depth rest

end

end JsonValue

end StructLayout
