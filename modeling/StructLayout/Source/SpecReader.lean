import StructLayout.Source.TypeReader

/-! Reading the declarations of types and constants. -/

namespace StructLayout

/-- The comments directly above a place, each alone on its line and without blank lines between
them, given the tokens before the place with the last one in front. -/
def docTokens : List Token → List Token
  | lineBreak :: comment :: rest =>
    if lineBreak.kind = .lineBreak ∧ comment.kind = .comment ∧
        (rest.head?.all fun t => t.kind == .lineBreak) then
      docTokens rest ++ [comment]
    else []
  | _ => []

namespace SourceText

/-- Where the declaration of the token at `offset` starts: with the blanks in front of it, or with
the token itself if it does not start its line. -/
def declStart (s : SourceText) (offset : Nat) : Nat :=
  let head := s.lineHead offset
  if head.all isIndentChar then offset - Text.byteLen head else offset

end SourceText

namespace Cursor

/-- Steps over the type parameters of a generic type. A bracket with one name in it is an array
length instead. -/
def skipTypeParams (s : SourceText) (c : Cursor) : Except SyntaxError (Bool × c.From) := do
  if c.kind = .lbrack ∧ (c.peek 1).kind = .ident ∧ (c.peek 2).kind ≠ .rbrack then
    return (true, (← c.skipBalanced s .lbrack .rbrack).toFrom)
  else return (false, c.here)

/-- Steps over the sign of an alias. -/
def skipAssign (c : Cursor) : Bool × c.From :=
  if c.kind = .assign then (true, c.behind) else (false, c.here)

end Cursor

namespace TypeSpec

/-- Reads a declaration from its name on; it begins with the token at `anchor`. -/
def read (s : SourceText) (anchor c : Cursor) : Except SyntaxError (TypeSpec × c.After) := do
  let (name, ⟨d, hd⟩) ← c.expect s .ident "type name"
  let (isGeneric, ⟨e, he⟩) ← d.skipTypeParams s
  let (isAlias, ⟨f, hf⟩) := e.skipAssign
  let (ty, ⟨g, hg⟩) ← TypeExpr.read s f
  let start := anchor.token.start
  let declStart := s.declStart start
  let docs := docTokens anchor.before
  let docStart := (docs.head?.map fun t => s.lineStart t.start).getD declStart
  let comments := g.run .comment
  let stop := g.lastStop
  let spec : TypeSpec :=
    { name := name.text
      pos := s.info.pos name.start
      isAlias, isGeneric, ty
      tySpan := ⟨f.token.start, stop⟩
      doc := docs.map Token.text
      docSpan := ⟨docStart, declStart⟩
      comment := comments.map Token.text
      commentSpan := ⟨stop, (comments.getLast?.map Token.stop).getD stop⟩
      indent := s.indentOf start }
  let ⟨h, hh⟩ := g.skipComments
  return (spec, ⟨h, by omega⟩)

/-- Reads the declarations of a group, up to its closing parenthesis. -/
def readGroup (s : SourceText) (c : Cursor) : Except SyntaxError (List TypeSpec × c.From) := do
  let d := c.skipTrivia
  have hd : d.ahead.length ≤ c.ahead.length := c.skip_le _
  match d.kind with
  | .rparen => return ([], ⟨d.next, Nat.le_trans d.next_le hd⟩)
  | .eof => throw (d.fault s (.endOfFile ")"))
  | _ =>
    let (spec, ⟨e, he⟩) ← read s d d
    let (specs, ⟨f, hf⟩) ← readGroup s e
    return (spec :: specs, ⟨f, by omega⟩)
termination_by c.ahead.length
decreasing_by exact Nat.lt_of_lt_of_le he hd

/-- Reads what the keyword at the cursor declares: one type, or a group. -/
def readDecl (s : SourceText) (c : Cursor) : Except SyntaxError (List TypeSpec × c.next.From) := do
  if c.next.kind = .lparen then
    let (specs, ⟨d, hd⟩) ← readGroup s c.next.next
    return (specs, ⟨d, Nat.le_trans hd c.next.next_le⟩)
  else
    let (spec, d) ← read s c c.next
    return ([spec], d.toFrom)

end TypeSpec

namespace ConstSpec

/-- Splits tokens behind one declaration. It ends with its line or at a semicolon, in a group also
at the closing parenthesis, but never inside of brackets. -/
def splitTokens (grouped : Bool) : Nat → List Token → List Token × List Token
  | _, [] => ([], [])
  | depth, t :: ts =>
    let goOn := fun depth =>
      let r := splitTokens grouped depth ts
      (t :: r.1, r.2)
    match t.kind with
    | .lineBreak | .semicolon => if depth = 0 then ([], t :: ts) else goOn depth
    | .rparen => if depth = 0 ∧ grouped then ([], t :: ts) else goOn (depth - 1)
    | .lparen | .lbrack | .lbrace => goOn (depth + 1)
    | .rbrack | .rbrace => goOn (depth - 1)
    | _ => goOn depth

theorem splitTokens_length (grouped : Bool) (depth : Nat) (ts : List Token) :
    (splitTokens grouped depth ts).2.length ≤ ts.length := by
  induction ts generalizing depth with
  | nil => simp [splitTokens]
  | cons t ts ih =>
    unfold splitTokens
    dsimp only
    split <;> (try split) <;> simp only [List.length_cons, Nat.le_refl]
    all_goals exact Nat.le_succ_of_le (ih _)

/-- A declaration takes at least its first token, unless that ends it at once. -/
theorem splitTokens_length_lt {grouped : Bool} {t : Token} (ts : List Token)
    (hl : t.kind ≠ .lineBreak) (hs : t.kind ≠ .semicolon) (hp : t.kind ≠ .rparen) :
    (splitTokens grouped 0 (t :: ts)).2.length < (t :: ts).length := by
  unfold splitTokens
  dsimp only
  split <;> first | contradiction | exact Nat.lt_succ_of_le (splitTokens_length _ _ _)

/-- The value behind the equals sign, if it is one integer literal. -/
def value? (tokens : List Token) : Option Nat :=
  match tokens.dropWhile fun t => t.kind != .assign with
  | [_, literal] => if literal.kind = .int then Literal.parseInt literal.text.toList else none
  | _ => none

/-- The constant that some tokens declare. Lists of names declare none. -/
def ofTokens? (tokens : List Token) : Option ConstSpec :=
  match tokens.filter fun t => t.kind != .comment && t.kind != .lineBreak with
  | [] => none
  | name :: rest =>
    if name.kind = .ident ∧ (rest.head?.all fun t => t.kind != .comma) then
      some { name := name.text, value := value? (name :: rest) }
    else none

/-- Reads one declaration. -/
def read (grouped : Bool) (c : Cursor) : Option ConstSpec × c.From :=
  let r := splitTokens grouped 0 c.ahead
  let behind : Cursor := { c with before := r.1.reverse ++ c.before, ahead := r.2 }
  (ofTokens? r.1, ⟨behind, splitTokens_length grouped 0 c.ahead⟩)

theorem read_lt {grouped : Bool} {c : Cursor} (hp : c.kind ≠ .rparen) (he : c.kind ≠ .eof)
    (ht : c.kind ≠ .lineBreak ∧ c.kind ≠ .semicolon) :
    (read grouped c).2.1.ahead.length < c.ahead.length := by
  obtain ⟨before, ahead, stop⟩ := c
  cases ahead with
  | nil => exact absurd rfl he
  | cons t ts => exact splitTokens_length_lt ts ht.1 ht.2 hp

/-- Reads the declarations of a group, up to its closing parenthesis. -/
def readGroup (s : SourceText) (c : Cursor) : Except SyntaxError (List ConstSpec × c.From) :=
  let d := c.skipTrivia
  have hd : d.ahead.length ≤ c.ahead.length := c.skip_le _
  if hp : d.kind = .rparen then .ok ([], ⟨d.next, Nat.le_trans d.next_le hd⟩)
  else if he : d.kind = .eof then .error (d.fault s (.endOfFile ")"))
  else
    let r := read true d
    have hr : r.2.1.ahead.length < d.ahead.length := read_lt hp he c.skipTrivia_kind
    match readGroup s r.2.1 with
    | .error e => .error e
    | .ok (specs, f) => .ok (r.1.toList ++ specs, ⟨f.1, by have := f.2; omega⟩)
termination_by c.ahead.length
decreasing_by exact Nat.lt_of_lt_of_le hr hd

/-- Reads what the keyword at the cursor declares: one constant, or a group. -/
def readDecl (s : SourceText) (c : Cursor) : Except SyntaxError (List ConstSpec × c.next.From) :=
  if c.next.kind = .lparen then
    match readGroup s c.next.next with
    | .error e => .error e
    | .ok (specs, d) => .ok (specs, ⟨d.1, Nat.le_trans d.2 c.next.next_le⟩)
  else
    let r := read false c.next
    .ok (r.1.toList, r.2)

end ConstSpec

end StructLayout
