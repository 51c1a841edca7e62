import StructLayout.Source.SpecReader

/-! Source files: a package clause, and declarations in nested blocks. -/

namespace StructLayout

namespace Block

/-- The keyword declares types, unless a parenthesis stands in front of it. -/
def isTypeDecl (c : Cursor) : Bool :=
  c.token.text == "type" && (c.before.head?.all fun t => t.kind != .lparen)

/-- Reads the rest of a block, up to the brace that closes it if `nested`, or else to the end of
the file. -/
def readFrom (s : SourceText) (nested : Bool) (block : Block) (c : Cursor) :
    Except SyntaxError (Block × c.From) := do
  if h : c.kind = .eof then
    if nested then throw (c.fault s (.endOfFile "\x7d")) else return (block, c.here)
  else
    have hn := Cursor.next_lt (Cursor.ahead_ne_nil_of_kind h)
    match c.kind with
    | .rbrace =>
      if nested then
        let span := { block.span with stop := c.token.stop }
        return ({ block with span }, ⟨c.next, Nat.le_of_lt hn⟩)
      else throw (c.fault s .closingBrace)
    | .lbrace =>
      let (child, ⟨d, hd⟩) ← readFrom s true { span := ⟨c.token.start, c.token.stop⟩ } c.next
      let (block, ⟨e, he⟩) ← readFrom s nested { block with blocks := block.blocks ++ [child] } d
      return (block, ⟨e, by omega⟩)
    | .ident =>
      if isTypeDecl c then
        let (specs, ⟨d, hd⟩) ← TypeSpec.readDecl s c
        let (block, ⟨e, he⟩) ← readFrom s nested { block with specs := block.specs ++ specs } d
        return (block, ⟨e, by omega⟩)
      else if c.token.text = "const" then
        let (consts, ⟨d, hd⟩) ← ConstSpec.readDecl s c
        let (block, ⟨e, he⟩) ← readFrom s nested { block with consts := block.consts ++ consts } d
        return (block, ⟨e, by omega⟩)
      else if (c.token.text = "struct" ∨ c.token.text = "interface") ∧ c.next.kind = .lbrace then
        let ⟨d, hd⟩ ← c.next.skipBalanced s .lbrace .rbrace
        let (block, ⟨e, he⟩) ← readFrom s nested block d
        return (block, ⟨e, by omega⟩)
      else
        let (block, ⟨e, he⟩) ← readFrom s nested block c.next
        return (block, ⟨e, by omega⟩)
    | _ =>
      let (block, ⟨e, he⟩) ← readFrom s nested block c.next
      return (block, ⟨e, by omega⟩)
termination_by c.ahead.length

end Block

/-- A source file. The text is kept, so that all that is no declaration can be printed as it is. -/
structure SourceFile where
  path : String
  package : String
  text : SourceText
  root : Block
  deriving Repr

namespace SourceFile

/-- All type declarations of the file. -/
def specs (f : SourceFile) : List TypeSpec :=
  f.root.allSpecs

/-- The file with changed declarations, given in the order of `specs`. -/
def withSpecs (f : SourceFile) (specs : List TypeSpec) : SourceFile :=
  { f with root := (f.root.refill specs).1 }

def isModified (f : SourceFile) : Bool :=
  f.specs.any TypeSpec.modified

/-- Reads the package clause and the declarations of a file. -/
def readTokens (path : String) (s : SourceText) (tokens : List Token) :
    Except SyntaxError SourceFile := do
  let size := Text.byteLen s.chars
  let c := (Cursor.ofTokens tokens size).skipTrivia
  if c.kind = .ident ∧ c.token.text = "package" then
    let (name, ⟨d, _⟩) ← c.next.expect s .ident "package name"
    let (root, _) ← Block.readFrom s false { span := ⟨0, size⟩ } d
    return { path, package := name.text, text := s, root }
  else throw (c.fault s .packageClause)

/-- Reads a file that has been given a place in a file set. -/
def read (info : FileInfo) (path : String) (chars : List Char) : Except SyntaxError SourceFile :=
  match Token.tokenize chars with
  | .error e =>
    .error { position := info.position (info.pos e.offset), fault := .unterminated e.what }
  | .ok tokens => readTokens path { chars, info } tokens

/-- Reads files into a file set, in order, up to the first that is not well formed. -/
def readAll (fs : FileSet) : List (String × List Char) →
    Except SyntaxError (FileSet × List SourceFile)
  | [] => .ok (fs, [])
  | (path, chars) :: rest => do
    let file ← read (fs.nextFile path chars) path chars
    let (fs, files) ← readAll (fs.add path chars) rest
    return (fs, file :: files)

end SourceFile

end StructLayout
