import StructLayout.Source.Cursor
import StructLayout.Source.Declaration
import StructLayout.Source.Literal

/-! Reading types and the bodies of struct types. -/

namespace StructLayout

namespace Cursor

/-- The tokens of an array length, up to the bracket that closes it. -/
def lengthTokens : Nat → List Token → Option (List Token × List Token)
  | _, [] => none
  | depth, t :: ts =>
    let rest := fun depth => (lengthTokens depth ts).map fun r => (t :: r.1, r.2)
    match t.kind with
    | .lbrack | .lparen => rest (depth + 1)
    | .rparen => rest (depth - 1)
    | .rbrack => if depth = 0 then some ([], t :: ts) else rest (depth - 1)
    | _ => rest depth

theorem lengthTokens_length {depth : Nat} {ts : List Token} {r : List Token × List Token}
    (h : lengthTokens depth ts = some r) : r.2.length ≤ ts.length := by
  induction ts generalizing depth r with
  | nil => simp [lengthTokens] at h
  | cons t ts ih =>
    have aux : ∀ d, (lengthTokens d ts).map (fun r => (t :: r.1, r.2)) = some r →
        r.2.length ≤ (t :: ts).length := by
      intro d hd
      obtain ⟨q, hq, rfl⟩ := Option.map_eq_some_iff.1 hd
      have := ih hq
      simp only [List.length_cons]; omega
    unfold lengthTokens at h
    dsimp only at h
    split at h
    · exact aux _ h
    · exact aux _ h
    · exact aux _ h
    · split at h
      · cases h; simp
      · exact aux _ h
    · exact aux _ h

/-- The tokens of an array length, and the bracket that closes it as the next token. -/
def readLength (s : SourceText) (c : Cursor) : Except SyntaxError (List Token × c.From) :=
  match h : lengthTokens 0 c.ahead with
  | none => .error { position := s.info.position (s.info.pos c.stop), fault := .endInArrayLength }
  | some (inner, ahead) =>
    .ok (inner, ⟨{ before := inner.reverse ++ c.before, ahead, stop := c.stop },
      lengthTokens_length h⟩)

/-- A length is one integer, one name, or else any text. -/
def arrayLen (s : SourceText) : List Token → Option ArrayLen
  | [] => some (.expr "")
  | t :: ts =>
    if ts.isEmpty && t.kind == .int then (Literal.parseInt t.text.toList).map .literal
    else if ts.isEmpty && t.kind == .ident then some (.const t.text)
    else some (.expr (s.collapsed t.start (ts.getLast?.getD t).stop))

/-- The names in front of a field's type; a line may end behind a comma. -/
def readNames (s : SourceText) (c : Cursor) : Except SyntaxError (List String × c.After) := do
  let (name, ⟨d, hd⟩) ← c.expect s .ident "field name"
  if d.kind = .comma then
    have h := Nat.le_trans (Cursor.skip_le [.lineBreak] d.next) d.next_le
    let (names, ⟨e, he⟩) ← readNames s (d.next.skip [.lineBreak])
    return (name.text :: names, ⟨e, by omega⟩)
  else return ([name.text], ⟨d, hd⟩)
termination_by c.ahead.length

/-- A field has no names when its type starts with a star, or is one name with nothing but a
qualifier, a tag, a comment or the end of the field behind it. -/
def startsEmbedded (c : Cursor) : Bool :=
  c.kind == .star ||
    [.dot, .lineBreak, .semicolon, .rbrace, .string, .rawString, .comment, .eof].contains
      (c.peek 1).kind

/-- The names of a field, none if it is embedded. -/
def readFieldNames (s : SourceText) (c : Cursor) : Except SyntaxError (List String × c.From) :=
  if c.startsEmbedded then .ok ([], c.here)
  else (c.readNames s).map fun r => (r.1, r.2.toFrom)

/-- The name behind a dot, or else the first name alone. -/
def readQualified (s : SourceText) (first : String) (c : Cursor) :
    Except SyntaxError (Option String × String × c.From) := do
  if c.kind = .dot then
    let (name, ⟨d, hd⟩) ← c.next.expect s .ident "qualified type name"
    return (some first, name.text, ⟨d, Nat.le_trans (Nat.le_of_lt hd) c.next_le⟩)
  else return (none, first, c.here)

/-- The tag of a field, if there is one. -/
def readTag (c : Cursor) : Option String × c.From :=
  if c.kind = .string ∨ c.kind = .rawString then (some c.token.text, c.behind)
  else (none, c.here)

end Cursor

namespace SourceText

/-- The blanks in front of the first line of a struct body, if the byte starts a line below that of
the keyword. -/
def bodyIndent? (s : SourceText) (keyword offset : Nat) : Option String :=
  let head := s.lineHead offset
  if keyword < offset - Text.byteLen head && head.all isIndentChar then some (String.ofList head)
  else none

/-- The blanks in front of a closing brace, or those of the keyword's line if the brace does not
start a line. -/
def closeIndent (s : SourceText) (keyword brace : Nat) : String :=
  let head := s.lineHead brace
  if head.all isIndentChar then String.ofList head else s.lineIndent keyword

end SourceText

/-- What has been read of a struct body. -/
structure PartialBody where
  fields : List FieldDecl := []
  pending : List String := []
  fieldIndent : Option String := none

namespace TypeExpr

mutual

/-- Reads a type. -/
def read (s : SourceText) (c : Cursor) : Except SyntaxError (TypeExpr × c.After) := do
  if h : c.kind = .eof then throw (c.fault s (.endOfFile "type"))
  else
    let ⟨d, hd⟩ := c.step h
    have hn := d.next_le
    match c.kind with
    | .star =>
      let (elem, ⟨e, he⟩) ← read s d
      return (.pointer elem, ⟨e, by omega⟩)
    | .lparen =>
      let (inner, ⟨e, he⟩) ← read s d
      let (_, ⟨f, hf⟩) ← e.expect s .rparen ")"
      return (inner, ⟨f, by omega⟩)
    | .lbrack =>
      if d.kind = .rbrack then
        let (elem, ⟨e, he⟩) ← read s d.next
        return (.slice elem, ⟨e, by omega⟩)
      else
        let (inner, ⟨close, hc⟩) ← d.readLength s
        have hn := close.next_le
        match Cursor.arrayLen s inner with
        | none => throw (close.fault s .invalidArrayLength)
        | some len =>
          let (elem, ⟨e, he⟩) ← read s close.next
          return (.array len elem, ⟨e, by omega⟩)
    | .arrow =>
      if d.kind = .ident ∧ d.token.text = "chan" then
        let (elem, ⟨e, he⟩) ← read s d.next
        return (.chan ("<-chan " ++ elem.render), ⟨e, by omega⟩)
      else throw (d.fault s .chan)
    | .ident =>
      match c.token.text with
      | "struct" =>
        let (_, ⟨e, he⟩) ← d.expect s .lbrace "\x7b"
        let (body, ⟨f, hf⟩) ← readBody s c.token.start {} e
        return (.struct body, ⟨f, by omega⟩)
      | "interface" =>
        let ⟨e, he⟩ ← d.skipBalanced s .lbrace .rbrace
        let body := s.collapsed d.token.start e.lastStop
        let isEmpty := body == "\x7b\x7d" || body == "\x7b \x7d"
        let text := if isEmpty then "interface\x7b\x7d" else "interface " ++ body
        return (.interface text, ⟨e, by omega⟩)
      | "map" =>
        let (_, ⟨e, he⟩) ← d.expect s .lbrack "["
        let (key, ⟨f, hf⟩) ← read s e
        let (_, ⟨g, hg⟩) ← f.expect s .rbrack "]"
        let (value, ⟨i, hi⟩) ← read s g
        return (.map key value, ⟨i, by omega⟩)
      | "chan" =>
        if d.kind = .arrow then
          let (elem, ⟨e, he⟩) ← read s d.next
          return (.chan ("chan<- " ++ elem.render), ⟨e, by omega⟩)
        else
          let (elem, ⟨e, he⟩) ← read s d
          return (.chan ("chan " ++ elem.render), ⟨e, by omega⟩)
      | "func" =>
        let ⟨e, he⟩ ← d.skipBalanced s .lparen .rparen
        let ⟨f, hf⟩ ← readResult s e
        return (.func (s.collapsed c.token.start f.lastStop), ⟨f, by omega⟩)
      | first =>
        let (pkg, name, ⟨e, he⟩) ← d.readQualified s first
        if e.kind = .lbrack then
          let ⟨f, hf⟩ ← e.skipBalanced s .lbrack .rbrack
          let base := (TypeExpr.ref pkg name).render
          return (.generic base (s.collapsed c.token.start f.lastStop), ⟨f, by omega⟩)
        else return (.ref pkg name, ⟨e, by omega⟩)
    | _ => throw (c.fault s (.mismatch "type" c.token.text))
termination_by (c.ahead.length, 0)

/-- Steps over the results of a function type: a list in parentheses, one type, or none. -/
def readResult (s : SourceText) (c : Cursor) : Except SyntaxError c.From := do
  match c.kind with
  | .lparen =>
    return (← c.skipBalanced s .lparen .rparen).toFrom
  | .ident | .star | .lbrack | .arrow =>
    let (_, d) ← read s c
    return d.toFrom
  | _ => return c.here
termination_by (c.ahead.length, 1)

/-- Reads the body of a struct type behind its opening brace. Comments on lines of their own belong
to the field below them. -/
def readBody (s : SourceText) (keyword : Nat) (done : PartialBody) (c : Cursor) :
    Except SyntaxError (StructExpr × c.After) := do
  if h : c.kind = .eof then throw (c.fault s (.endOfFile "\x7d"))
  else
    let ⟨d, hd⟩ := c.step h
    let indent := done.fieldIndent.or (s.bodyIndent? keyword c.token.start)
    match c.kind with
    | .lineBreak | .semicolon =>
      let (body, ⟨e, he⟩) ← readBody s keyword done d
      return (body, ⟨e, by omega⟩)
    | .comment =>
      let done := { done with pending := done.pending ++ [c.token.text], fieldIndent := indent }
      let (body, ⟨e, he⟩) ← readBody s keyword done d
      return (body, ⟨e, by omega⟩)
    | .rbrace =>
      let body : StructExpr :=
        { span := ⟨keyword, c.token.stop⟩, fields := done.fields, trailing := done.pending,
          closeIndent := s.closeIndent keyword c.token.start, fieldIndent := done.fieldIndent }
      return (body, ⟨d, hd⟩)
    | _ =>
      let (field, ⟨e, he⟩) ← readField s c
      let fields := done.fields ++ [{ field with doc := done.pending }]
      let (body, ⟨f, hf⟩) ← readBody s keyword { fields, fieldIndent := indent } e
      return (body, ⟨f, by omega⟩)
termination_by (c.ahead.length, 2)

/-- Reads one field declaration, up to the end of its line. -/
def readField (s : SourceText) (c : Cursor) : Except SyntaxError (FieldDecl × c.After) := do
  if c.kind != .star && c.kind != .ident then throw (c.fault s .fieldStart)
  else
    let (names, ⟨d, hd⟩) ← c.readFieldNames s
    let (ty, ⟨e, he⟩) ← read s d
    let (tag, ⟨f, hf⟩) := e.readTag
    let ⟨g, hg⟩ := f.skipComments
    if g.kind = .lineBreak ∨ g.kind = .semicolon ∨ g.kind = .rbrace then
      let field : FieldDecl :=
        { names, pos := s.info.pos c.token.start, ty, tyText := s.slice d.token.start e.lastStop,
          tag, comment := (f.run .comment).map Token.text }
      return (field, ⟨g, by omega⟩)
    else throw (g.fault s .fieldEnd)
termination_by (c.ahead.length, 1)
decreasing_by exact Prod.Lex.right' _ hd (by decide)

end

end TypeExpr

end StructLayout
