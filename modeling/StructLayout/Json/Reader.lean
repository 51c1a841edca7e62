import StructLayout.Json.Value
import StructLayout.Text.Numeral
import StructLayout.Text.Rest

/-! Reading JSON texts. -/

namespace StructLayout.JsonValue

open Text (Shorter NotLonger)

/-- Drops the blanks of JSON. -/
def skip (cs : List Char) : NotLonger cs :=
  Text.dropLead (fun c => c == ' ' || c == '\n' || c == '\t' || c == '\r') cs

/-- The first character, and what follows it. -/
def head? : (cs : List Char) → Option (Char × Shorter cs)
  | [] => none
  | c :: cs => some (c, .tail c cs)

/-- The first character that is not blank, and what follows it. -/
def next? (cs : List Char) : Option (Char × Shorter cs) :=
  (head? (skip cs).1).map fun r => (r.1, (skip cs).shorter r.2)

/-- Reads a word that stands for a value. -/
def word? (w : Char) (word : List Char) (v : JsonValue) :
    (cs : List Char) → Option (JsonValue × Shorter cs)
  | [] => none
  | c :: cs => if w = c then (Text.dropWord? word cs).map fun r => (v, r.behind c) else none

/-- The digits at the start of a text and what follows them. -/
def digits (cs : List Char) : List Char × NotLonger cs :=
  (cs.takeWhile Char.isDigit, Text.dropLead Char.isDigit cs)

/-- A fraction with at least one digit, or none. -/
def fraction (cs : List Char) : Option (Bool × NotLonger cs) :=
  let behind := Text.dropOne '.' cs
  if cs.head? = some '.' then
    let ds := digits behind.1
    if ds.1.isEmpty then none else some (true, behind.trans ds.2)
  else some (false, .all cs)

/-- The text behind a sign, if it has one. -/
def unsigned (cs : List Char) : NotLonger cs :=
  if cs.head? = some '+' then Text.dropOne '+' cs else Text.dropOne '-' cs

/-- An exponent with at least one digit, or none. -/
def exponent : (cs : List Char) → Option (Bool × NotLonger cs)
  | [] => some (false, .all [])
  | c :: cs =>
    if c = 'e' ∨ c = 'E' then
      let ds := digits (unsigned cs).1
      if ds.1.isEmpty then none
      else some (true, (((unsigned cs).trans ds.2).behind c).notLonger)
    else some (false, .all (c :: cs))

/-- The value of an integer. Zero with a sign counts as a fraction. -/
def intValue (negative : Bool) (ds : List Char) : JsonValue :=
  match Text.readDigits 10 0 ds with
  | none => .otherNumber
  | some n =>
    if negative then if 0 < n ∧ n ≤ Text.signedBound then .int (-n) else .otherNumber
    else if n < Text.wordBound then .int n else .otherNumber

/-- A number whose sign has been read. -/
def unsignedNumber (negative : Bool) : (cs : List Char) → Option (JsonValue × Shorter cs)
  | [] => none
  | c :: cs =>
    let ds := digits cs
    if !c.isDigit || (c = '0' && !ds.1.isEmpty) then none
    else do
      let (isFraction, r) ← fraction ds.2.1
      let (hasExponent, q) ← exponent r.1
      let v := if isFraction || hasExponent then .otherNumber else intValue negative (c :: ds.1)
      return (v, ((ds.2.trans r).trans q).behind c)

/-- Reads a number, with its sign. -/
def number : (cs : List Char) → Option (JsonValue × Shorter cs)
  | [] => none
  | c :: cs =>
    if c = '-' then (unsignedNumber true cs).map fun r => (r.1, r.2.behind c)
    else unsignedNumber false (c :: cs)

/-- Reads a word or a number. -/
def readScalar (cs : List Char) : Option (JsonValue × Shorter cs) :=
  (((word? 'n' "ull".toList .null cs).or (word? 't' "rue".toList (.bool true) cs)).or
    (word? 'f' "alse".toList (.bool false) cs)).or (number cs)

/-- The number that four hexadecimal digits stand for. -/
def hexUnit (a b c d : Char) : Option Nat :=
  Text.readDigits 16 0 [a, b, c, d]

/-- A code unit that begins a pair. -/
def isHigh (n : Nat) : Bool :=
  0xD800 ≤ n && n < 0xDC00

/-- A code unit that ends a pair. -/
def isLow (n : Nat) : Bool :=
  0xDC00 ≤ n && n < 0xE000

/-- Code units of a string; those that are no character come as none. -/
def decodeUnits : List (Char ⊕ Nat) → Option (List Char)
  | [] => some []
  | .inl c :: rest => (decodeUnits rest).map (c :: ·)
  | .inr m :: .inr n :: rest =>
    if isHigh m && isLow n then
      let c := Char.ofNat (0x10000 + (m - 0xD800) * 0x400 + (n - 0xDC00))
      (decodeUnits rest).map (c :: ·)
    else if isHigh m || isLow m then none
    else (decodeUnits (.inr n :: rest)).map (Char.ofNat m :: ·)
  | .inr m :: rest =>
    if isHigh m || isLow m then none else (decodeUnits rest).map (Char.ofNat m :: ·)

/-- The character that a letter after a backslash stands for. -/
def shortEscape? : Char → Option Char
  | '"' => some '"'
  | '\\' => some '\\'
  | '/' => some '/'
  | 'b' => some '\x08'
  | 'f' => some '\x0c'
  | 'n' => some '\n'
  | 'r' => some '\r'
  | 't' => some '\t'
  | _ => none

/-- What a string holds up to its closing quote: characters, and code units written by number. -/
def units : (cs : List Char) → Option (List (Char ⊕ Nat) × Shorter cs)
  | [] => none
  | '\\' :: 'u' :: a :: b :: c :: d :: rest => do
    let n ← hexUnit a b c d
    let (us, r) ← units rest
    return (.inr n :: us, (((((r.behind d).behind c).behind b).behind a).behind 'u').behind '\\')
  | '\\' :: e :: rest => do
    let c ← shortEscape? e
    let (us, r) ← units rest
    return (.inl c :: us, (r.behind e).behind '\\')
  | c :: rest =>
    if c = '"' then some ([], .tail c rest)
    else if c.toNat < 32 || c == '\\' then none
    else do
      let (us, r) ← units rest
      return (.inl c :: us, r.behind c)

/-- An object all of whose keys are texts. -/
def ofMembers (members : List (Option String × JsonValue)) : JsonValue :=
  match members.mapM fun m => m.1.map fun key => (key, m.2) with
  | some members => .object members
  | none => .otherObject

mutual

/-- Reads a value, with the blanks in front of it. -/
def readValue (cs : List Char) : Option (JsonValue × Shorter cs) := do
  let (c, ⟨rest, hrest⟩) ← next? cs
  if c = '"' then
    let (us, ⟨r, hr⟩) ← units rest
    let v := match decodeUnits us with
      | some text => .string (String.ofList text)
      | none => .otherString
    return (v, ⟨r, by omega⟩)
  else if c = '[' then
    match next? rest with
    | some (']', ⟨r, hr⟩) => return (.array [], ⟨r, by omega⟩)
    | _ =>
      let (items, ⟨r, hr⟩) ← readElements rest
      return (.array items, ⟨r, by omega⟩)
  else if c = '\x7b' then
    match next? rest with
    | some ('\x7d', ⟨r, hr⟩) => return (.object [], ⟨r, by omega⟩)
    | _ =>
      let (members, ⟨r, hr⟩) ← readMembers rest
      return (ofMembers members, ⟨r, by omega⟩)
  else
    let (v, r) ← readScalar (skip cs).1
    return (v, (skip cs).shorter r)
termination_by (cs.length, 0)

/-- Reads the values of an array, of which there is one at least, and the closing bracket. -/
def readElements (cs : List Char) : Option (List JsonValue × Shorter cs) := do
  let (v, ⟨r, hr⟩) ← readValue cs
  match next? r with
  | some (',', ⟨more, hmore⟩) =>
    let (vs, ⟨q, hq⟩) ← readElements more
    return (v :: vs, ⟨q, by omega⟩)
  | some (']', ⟨more, hmore⟩) => return ([v], ⟨more, by omega⟩)
  | _ => none
termination_by (cs.length, 1)

/-- Reads the members of an object, of which there is one at least, and the closing brace. A key
that is no text comes as none. -/
def readMembers (cs : List Char) : Option (List (Option String × JsonValue) × Shorter cs) := do
  let (quote, ⟨rest, hrest⟩) ← next? cs
  if quote != '"' then none
  else
    let (us, ⟨k, hk⟩) ← units rest
    let key := (decodeUnits us).map String.ofList
    let (colon, ⟨more, hmore⟩) ← next? k
    if colon != ':' then none
    else
      let (v, ⟨r, hr⟩) ← readValue more
      match next? r with
      | some (',', ⟨more', hmore'⟩) =>
        let (ms, ⟨q, hq⟩) ← readMembers more'
        return ((key, v) :: ms, ⟨q, by omega⟩)
      | some ('\x7d', ⟨more', hmore'⟩) => return ([(key, v)], ⟨more', by omega⟩)
      | _ => none
termination_by (cs.length, 1)

end

/-- The value of a text that holds nothing else. -/
def read? (text : String) : Option JsonValue := do
  let (v, ⟨r, _⟩) ← readValue text.toList
  if (skip r).1.isEmpty then return v else none

end StructLayout.JsonValue
