import StructLayout.Text.Blank

/-! Field tags: entries of a key, a colon and a quoted value, with spaces between them. A tag is
read up to the first entry that is not well formed, and edits leave all other text as it is. -/

namespace StructLayout.Tag

/-- Characters of a key: no control, space, colon, quote or delete. -/
def isKeyChar (c : Char) : Bool :=
  32 < c.toNat && c != ':' && c != '"' && c.toNat != 127

/-- The character that a backslash and a letter stand for. -/
def unescape : Char → Char
  | 'n' => '\n'
  | 't' => '\t'
  | c => c

/-- The value up to the closing quote, and the text behind it. -/
def readValue : List Char → Option (List Char × List Char)
  | [] => none
  | '"' :: rest => some ([], rest)
  | ['\\'] => none
  | '\\' :: c :: rest => (readValue rest).map fun r => (unescape c :: r.1, r.2)
  | c :: rest => (readValue rest).map fun r => (c :: r.1, r.2)

/-- How a character of a value is written. -/
def escape : Char → List Char
  | '"' => ['\\', '"']
  | '\\' => ['\\', '\\']
  | '\n' => ['\\', 'n']
  | '\t' => ['\\', 't']
  | c => [c]

def quote (value : List Char) : List Char :=
  '"' :: value.flatMap escape ++ ['"']

theorem readValue_quote (value rest : List Char) :
    readValue (value.flatMap escape ++ '"' :: rest) = some (value, rest) := by
  induction value with
  | nil => rfl
  | cons c cs ih =>
    simp only [List.flatMap_cons, List.append_assoc]
    by_cases h1 : c = '"'
    · subst h1; simp [escape, readValue, unescape, ih]
    by_cases h2 : c = '\\'
    · subst h2; simp [escape, readValue, unescape, ih]
    by_cases h3 : c = '\n'
    · subst h3; simp [escape, readValue, unescape, ih]
    by_cases h4 : c = '\t'
    · subst h4; simp [escape, readValue, unescape, ih]
    · rw [escape] <;> simp_all [readValue]

/-- An entry at the start of a text: its key, its value, and the text behind it. -/
def readEntry (cs : List Char) : Option (List Char × List Char × List Char) :=
  let key := cs.takeWhile isKeyChar
  match cs.dropWhile isKeyChar with
  | ':' :: '"' :: rest =>
    if key.isEmpty then none else (readValue rest).map fun r => (key, r.1, r.2)
  | _ => none

theorem readValue_length {cs : List Char} {r : List Char × List Char} (h : readValue cs = some r) :
    r.2.length < cs.length := by
  fun_induction readValue cs generalizing r with
  | case1 => simp at h
  | case2 => cases h; simp
  | case3 => simp at h
  | case4 c cs ih =>
    obtain ⟨q, hq, rfl⟩ := Option.map_eq_some_iff.1 h
    have := ih hq
    simp only [List.length_cons]; omega
  | case5 =>
    rename_i ih
    obtain ⟨q, hq, rfl⟩ := Option.map_eq_some_iff.1 h
    have := ih hq
    simp only [List.length_cons]; omega

theorem readEntry_length {cs key value rest : List Char}
    (h : readEntry cs = some (key, value, rest)) : rest.length < cs.length := by
  unfold readEntry at h
  dsimp only at h
  split at h
  · rename_i behind heq
    split at h
    · simp at h
    · obtain ⟨r, hr, he⟩ := Option.map_eq_some_iff.1 h
      cases he
      have h1 := readValue_length hr
      have h2 := (List.dropWhile_suffix (l := cs) isKeyChar).length_le
      simp only [heq, List.length_cons] at h2; omega
  · simp at h

/-- One entry of a tag with the spaces in front of it and its text as written. -/
structure Entry where
  gap : List Char
  key : List Char
  value : List Char
  text : List Char
  deriving DecidableEq, Repr

/-- The entries of a tag, and what is left from the first malformed one on. -/
def entries (cs : List Char) : List Entry × List Char :=
  match _read : readEntry (cs.dropWhile (· == ' ')) with
  | none => ([], cs)
  | some (key, value, rest) =>
    let body := cs.dropWhile (· == ' ')
    let more := entries rest
    let entry :=
      { gap := cs.takeWhile (· == ' '), key, value, text := body.take (body.length - rest.length) }
    (entry :: more.1, more.2)
termination_by cs.length
decreasing_by
  have h1 := readEntry_length _read
  have h2 := (List.dropWhile_suffix (l := cs) (· == ' ')).length_le
  omega

/-- Text of some entries as they stand in their tag. -/
def spell (es : List Entry) : List Char :=
  es.flatMap fun e => e.gap ++ e.text

/-- A tag cut at its first entry with some key. -/
structure Found where
  before : List Char
  value : List Char
  after : List Char
  deriving DecidableEq, Repr

def find? (tag key : List Char) : Option Found :=
  let all := entries tag
  match all.1.dropWhile (fun e => e.key != key) with
  | [] => none
  | e :: es =>
    let before := spell (all.1.takeWhile fun e => e.key != key) ++ e.gap
    some { before, value := e.value, after := spell es ++ all.2 }

/-- The value of the first entry with a key. -/
def lookup (tag key : List Char) : Option (List Char) :=
  (find? tag key).map Found.value

/-- Writes a value in place of the entry that has the key, or else behind all entries. -/
def set (tag key value : List Char) : List Char :=
  let entry := key ++ ':' :: quote value
  match find? tag key with
  | some found => found.before ++ entry ++ found.after
  | none => if (Text.trim tag).isEmpty then entry else Text.trimEnd tag ++ ' ' :: entry

/-- Takes the first entry with a key out, and leaves one space in its place. -/
def remove (tag key : List Char) : List Char :=
  match find? tag key with
  | none => tag
  | some found =>
    let head := Text.trimEnd found.before
    let tail := Text.trimStart found.after
    if head.isEmpty then tail else if tail.isEmpty then head else head ++ ' ' :: tail

end StructLayout.Tag
