import StructLayout.Text.Alphanumeric
import StructLayout.Text.Bytes

/-! Tokens of a source text. Each token holds its own text, so tokens and the blanks between them
give the source back. -/

namespace StructLayout

inductive TokenKind where
  | ident
  | int
  | float
  | char
  | string
  | rawString
  | comment
  | lineBreak
  | lparen
  | rparen
  | lbrack
  | rbrack
  | lbrace
  | rbrace
  | comma
  | semicolon
  | dot
  | ellipsis
  | star
  | assign
  | arrow
  | op
  | eof
  deriving DecidableEq, Repr, Inhabited

/-- A token with the byte that it starts at. -/
structure Token where
  kind : TokenKind
  start : Nat
  text : String
  deriving DecidableEq, Repr, Inhabited

/-- The byte behind a token. -/
def Token.stop (t : Token) : Nat :=
  t.start + t.text.utf8ByteSize

/-- What is left open at the end of a text. -/
inductive Unterminated where
  | comment
  | string
  | rune
  | rawString
  deriving DecidableEq, Repr

def Unterminated.message : Unterminated → String
  | .comment => "comment not terminated"
  | .string => "string literal not terminated"
  | .rune => "rune literal not terminated"
  | .rawString => "raw string literal not terminated"

/-- Where an unterminated token starts. -/
structure LexError where
  offset : Nat
  what : Unterminated
  deriving DecidableEq, Repr

def LexError.message (e : LexError) : String :=
  s!"lexical error at byte {e.offset}: {e.what.message}"

namespace Token

/-- Characters between tokens; a line break is a token of its own. -/
def isGap (c : Char) : Bool :=
  c == ' ' || c == '\t' || c == '\r'

/-- Characters that continue an operator. -/
def isOpChar (c : Char) : Bool :=
  "+-*/%&|^<>=!:~".toList.contains c

/-- Characters up to and with the end of a block comment. -/
def closeComment : List Char → Option Nat
  | [] => none
  | '*' :: '/' :: _ => some 2
  | _ :: cs => (closeComment cs).map (· + 1)

/-- Characters up to and with the closing quote on the same line; a backslash takes the character
behind it along, even a line break. -/
def closeQuote (mark : Char) : List Char → Option Nat
  | [] => none
  | ['\\'] => none
  | '\\' :: _ :: cs => (closeQuote mark cs).map (· + 2)
  | c :: cs =>
    if c = '\n' then none else if c = mark then some 1 else (closeQuote mark cs).map (· + 1)

/-- Characters up to and with the next mark. -/
def closeRaw (mark : Char) : List Char → Option Nat
  | [] => none
  | c :: cs => if c = mark then some 1 else (closeRaw mark cs).map (· + 1)

/-- How a number goes on behind a character, and whether it is a fraction. A sign belongs to the
number only behind an exponent letter. -/
def numberTail (before : Char) (isFloat : Bool) : List Char → Bool × Nat
  | [] => (isFloat, 0)
  | c :: cs =>
    if c.isAlphanum || c == '_' then
      let r := numberTail c isFloat cs
      (r.1, r.2 + 1)
    else if c == '.' || ((c == '+' || c == '-') && "eEpP".toList.contains before) then
      let r := numberTail c true cs
      (r.1, r.2 + 1)
    else (isFloat, 0)

def number (c : Char) (cs : List Char) : TokenKind × Nat :=
  let r := numberTail c (c == '.') cs
  (if r.1 then .float else .int, r.2)

/-- Characters of a line comment behind its first one; a carriage return at its end is none. -/
def lineCommentTail (cs : List Char) : Nat :=
  let line := cs.takeWhile (· != '\n')
  if line.getLast? = some '\r' then line.length - 1 else line.length

def delimiter? : Char → Option TokenKind
  | '(' => some .lparen
  | ')' => some .rparen
  | '[' => some .lbrack
  | ']' => some .rbrack
  | '{' => some .lbrace
  | '}' => some .rbrace
  | ',' => some .comma
  | ';' => some .semicolon
  | '.' => some .dot
  | '*' => some .star
  | _ => none

/-- The kind of the token that starts with `c`, and how many of the characters behind `c` belong to
it. -/
def scan (c : Char) (cs : List Char) : Except Unterminated (TokenKind × Nat) :=
  let closed := fun (kind : TokenKind) (what : Unterminated) (stop : Option Nat) =>
    match stop with
    | some n => Except.ok (kind, n)
    | none => .error what
  if c = '\n' then .ok (.lineBreak, 0)
  else if c = '/' && cs.head? = some '/' then .ok (.comment, lineCommentTail cs)
  else if c = '/' && cs.head? = some '*' then
    closed .comment .comment ((closeComment cs.tail).map (· + 1))
  else if c = '"' then closed .string .string (closeQuote c cs)
  else if c = '\x27' then closed .char .rune (closeQuote c cs)
  else if c = '\x60' then closed .rawString .rawString (closeRaw c cs)
  else if c.isDigit || (c = '.' && cs.head?.any Char.isDigit) then .ok (number c cs)
  else if c = '.' && ['.', '.'].isPrefixOf cs then .ok (.ellipsis, 2)
  else if c = '<' && cs.head? = some '-' then .ok (.arrow, 1)
  else if c = '=' && cs.head? != some '=' then .ok (.assign, 0)
  else
    match delimiter? c with
    | some kind => .ok (kind, 0)
    | none =>
      if Text.isIdent c then .ok (.ident, (cs.takeWhile Text.isIdent).length)
      else if 128 ≤ c.toNat then .ok (.op, 0)
      else .ok (.op, (cs.takeWhile isOpChar).length)

/-- The tokens of a text that starts at byte `offset`; an empty one stands at its end. -/
def tokensFrom (offset : Nat) : List Char → Except LexError (List Token)
  | [] => .ok [⟨.eof, offset, ""⟩]
  | c :: cs =>
    if isGap c then tokensFrom (offset + c.utf8Size) cs
    else
      match scan c cs with
      | .error what => .error ⟨offset, what⟩
      | .ok (kind, n) => do
        let text := c :: cs.take n
        let rest ← tokensFrom (offset + Text.byteLen text) (cs.drop n)
        return ⟨kind, offset, String.ofList text⟩ :: rest
termination_by cs => cs.length

def tokenize (cs : List Char) : Except LexError (List Token) :=
  tokensFrom 0 cs

end Token

end StructLayout
