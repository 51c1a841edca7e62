import StructLayout.Source.Position
import StructLayout.Source.Token
import StructLayout.Text.Blank
import StructLayout.Text.Quoted

/-! A place between the tokens of a text, and what can be wrong there. -/

namespace StructLayout

inductive SyntaxFault where
  | unterminated (what : Unterminated)
  | endOfFile (expected : String)
  | mismatch (what found : String)
  | packageClause
  | closingBrace
  | unbalanced
  | chan
  | endInArrayLength
  | invalidArrayLength
  | fieldStart
  | fieldEnd
  deriving DecidableEq, Repr

def SyntaxFault.message : SyntaxFault → String
  | .unterminated what => what.message
  | .endOfFile expected => "unexpected end of file, expected " ++ expected
  | .mismatch what found => "expected " ++ what ++ ", found " ++ Text.quoted found
  | .packageClause => "expected package clause"
  | .closingBrace => "unexpected \x7d"
  | .unbalanced => "unbalanced delimiters"
  | .chan => "expected chan"
  | .endInArrayLength => "unexpected end of file in array length"
  | .invalidArrayLength => "invalid array length"
  | .fieldStart => "expected field name or embedded type"
  | .fieldEnd => "unexpected token after field declaration"

structure SyntaxError where
  position : Position
  fault : SyntaxFault
  deriving DecidableEq, Repr

def SyntaxError.message (e : SyntaxError) : String :=
  e.position.render ++ ": " ++ e.fault.message

/-- A text and the place that it has in a file set. -/
structure SourceText where
  chars : List Char
  info : FileInfo
  deriving DecidableEq, Repr

namespace SourceText

def slice (s : SourceText) (start stop : Nat) : String :=
  String.ofList (Text.slice start stop s.chars)

/-- A part of the text with its runs of blanks made one space. -/
def collapsed (s : SourceText) (start stop : Nat) : String :=
  String.ofList (Text.collapse (Text.slice start stop s.chars))

/-- What stands in front of a byte on its line. -/
def lineHead (s : SourceText) (offset : Nat) : List Char :=
  Text.lineHeadFrom s.chars 0 offset s.chars

theorem lineHead_eq (s : SourceText) (offset : Nat) :
    s.lineHead offset =
      ((Text.takeBytes offset s.chars).reverse.takeWhile (· != '\n')).reverse :=
  Text.lineHeadFrom_eq [] offset s.chars (by simp)

/-- The byte that the line of a byte starts at. -/
def lineStart (s : SourceText) (offset : Nat) : Nat :=
  offset - Text.byteLen (s.lineHead offset)

def isIndentChar (c : Char) : Bool :=
  c == ' ' || c == '\t'

/-- The spaces and tabs in front of a byte that starts its line, and none for other bytes. -/
def indentOf (s : SourceText) (offset : Nat) : String :=
  let head := s.lineHead offset
  if head.all isIndentChar then String.ofList head else ""

/-- The spaces and tabs at the start of the line of a byte. -/
def lineIndent (s : SourceText) (offset : Nat) : String :=
  let line := Text.dropBytes (s.lineStart offset) s.chars
  String.ofList (line.takeWhile isIndentChar)

end SourceText

/-- The tokens on both sides of a place, those before it with the last one in front. The text ends
at byte `stop`. -/
structure Cursor where
  before : List Token
  ahead : List Token
  stop : Nat
  deriving DecidableEq, Repr

/-- A cursor that has read at least one token more. -/
abbrev Cursor.After (c : Cursor) :=
  { d : Cursor // d.ahead.length < c.ahead.length }

/-- A cursor that has not read less. -/
abbrev Cursor.From (c : Cursor) :=
  { d : Cursor // d.ahead.length ≤ c.ahead.length }

namespace Cursor

/-- In front of the first token. The last token of a text marks its end and is never read. -/
def ofTokens (tokens : List Token) (stop : Nat) : Cursor :=
  { before := [], ahead := tokens.dropLast, stop }

/-- The token that is `n` tokens ahead, or the end. -/
def peek (c : Cursor) (n : Nat) : Token :=
  c.ahead[n]?.getD ⟨.eof, c.stop, ""⟩

def token (c : Cursor) : Token :=
  c.peek 0

def kind (c : Cursor) : TokenKind :=
  c.token.kind

def next (c : Cursor) : Cursor :=
  match c.ahead with
  | [] => c
  | t :: ts => { c with before := t :: c.before, ahead := ts }

/-- The byte behind the token read last. -/
def lastStop (c : Cursor) : Nat :=
  (c.before.head?.map Token.stop).getD 0

theorem next_le (c : Cursor) : c.next.ahead.length ≤ c.ahead.length := by
  unfold next
  split <;> simp_all

theorem next_lt {c : Cursor} (h : c.ahead ≠ []) : c.next.ahead.length < c.ahead.length := by
  unfold next
  split <;> simp_all

theorem ahead_ne_nil_of_kind {c : Cursor} (h : c.kind ≠ .eof) : c.ahead ≠ [] := by
  intro hn
  simp [kind, token, peek, hn] at h

/-- The step over a token that is not the end. -/
def step (c : Cursor) (h : c.kind ≠ .eof) : c.After :=
  ⟨c.next, next_lt (ahead_ne_nil_of_kind h)⟩

/-- Steps over tokens of some kinds. -/
def skip (kinds : List TokenKind) (c : Cursor) : Cursor :=
  { c with
    before := (c.ahead.takeWhile fun t => kinds.contains t.kind).reverse ++ c.before
    ahead := c.ahead.dropWhile fun t => kinds.contains t.kind }

theorem skip_le (kinds : List TokenKind) (c : Cursor) :
    (c.skip kinds).ahead.length ≤ c.ahead.length :=
  (List.dropWhile_suffix _).length_le

def skipComments (c : Cursor) : c.From :=
  ⟨c.skip [.comment], c.skip_le [.comment]⟩

/-- The cursor itself. -/
def here (c : Cursor) : c.From :=
  ⟨c, Nat.le_refl _⟩

/-- The cursor behind the next token, if there is one. -/
def behind (c : Cursor) : c.From :=
  ⟨c.next, c.next_le⟩

def After.toFrom {c : Cursor} (d : c.After) : c.From :=
  ⟨d.1, Nat.le_of_lt d.2⟩

/-- The tokens ahead that are of one kind. -/
def run (kind : TokenKind) (c : Cursor) : List Token :=
  c.ahead.takeWhile fun t => t.kind == kind

/-- Line breaks, comments and semicolons stand between declarations. -/
def skipTrivia (c : Cursor) : Cursor :=
  c.skip [.lineBreak, .comment, .semicolon]

theorem skipTrivia_kind (c : Cursor) :
    c.skipTrivia.kind ≠ .lineBreak ∧ c.skipTrivia.kind ≠ .semicolon := by
  have h := List.head?_dropWhile_not
    (fun t : Token => [TokenKind.lineBreak, .comment, .semicolon].contains t.kind) c.ahead
  simp only [kind, token, peek, skipTrivia, skip, ← List.head?_eq_getElem?]
  split at h
  · rename_i t heq
    simp only [heq, Option.getD_some]
    constructor <;> intro hk <;> simp [hk] at h
  · rename_i heq
    simp only [heq, Option.getD_none]
    decide

/-- A fault at the next token. -/
def fault (s : SourceText) (c : Cursor) (fault : SyntaxFault) : SyntaxError :=
  { position := s.info.position (s.info.pos c.token.start), fault }

/-- The next token, if it is of a kind. -/
def expect (s : SourceText) (c : Cursor) (kind : TokenKind) (what : String) :
    Except SyntaxError (Token × c.After) :=
  if h : c.kind = .eof then .error (c.fault s (.endOfFile what))
  else if c.kind = kind then .ok (c.token, c.step h)
  else .error (c.fault s (.mismatch what c.token.text))

/-- Splits tokens behind the delimiter that closes `depth` more than one open ones. -/
def closeFrom (opening closing : TokenKind) :
    Nat → List Token → List Token → Option (List Token × List Token)
  | _, _, [] => none
  | depth, before, t :: ts =>
    if t.kind = opening then closeFrom opening closing (depth + 1) (t :: before) ts
    else if t.kind = closing then
      match depth with
      | 0 => some (t :: before, ts)
      | depth + 1 => closeFrom opening closing depth (t :: before) ts
    else closeFrom opening closing depth (t :: before) ts

theorem closeFrom_length {opening closing : TokenKind} {depth : Nat} {before ts : List Token}
    {r : List Token × List Token} (h : closeFrom opening closing depth before ts = some r) :
    r.2.length < ts.length := by
  fun_induction closeFrom opening closing depth before ts with
  | case1 => simp at h
  | case2 _ _ _ _ _ ih => have := ih h; simp only [List.length_cons]; omega
  | case3 => cases h; simp
  | case4 _ _ _ _ _ _ ih => have := ih h; simp only [List.length_cons]; omega
  | case5 _ _ _ _ _ _ ih => have := ih h; simp only [List.length_cons]; omega

/-- Steps over a delimiter and everything up to the one that closes it. -/
def skipBalanced (s : SourceText) (c : Cursor) (opening closing : TokenKind) :
    Except SyntaxError c.After := do
  let (_, inner) ← c.expect s opening "opening delimiter"
  match h : closeFrom opening closing 0 inner.1.before inner.1.ahead with
  | none => .error { position := s.info.position (s.info.pos c.stop), fault := .unbalanced }
  | some (before, ahead) =>
    .ok ⟨{ before, ahead, stop := c.stop }, Nat.lt_trans (closeFrom_length h) inner.2⟩

end Cursor

end StructLayout
