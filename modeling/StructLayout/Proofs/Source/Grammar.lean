import StructLayout.Source.TypeReader

/-!
The grammar of types, over kinds and texts of tokens. It says which tokens a type takes from those
ahead; where they stand in the text plays no part in it.
-/

namespace StructLayout

/-- A token without its place. -/
structure Lexeme where
  kind : TokenKind
  text : String
  deriving DecidableEq, Repr

def Token.lexeme (t : Token) : Lexeme :=
  ⟨t.kind, t.text⟩

namespace Lexeme

/-- The kind of the first one, or the end. -/
def headKind (ls : List Lexeme) : TokenKind :=
  (ls.head?.map kind).getD .eof

/-- Everything up to the delimiter that closes `depth` more than one open ones. -/
inductive Closes (opening closing : TokenKind) : Nat → List Lexeme → List Lexeme → Prop
  | last {l : Lexeme} {rest : List Lexeme} (ho : l.kind ≠ opening) (hc : l.kind = closing) :
      Closes opening closing 0 (l :: rest) rest
  | opening {depth : Nat} {l : Lexeme} {ls rest : List Lexeme} (ho : l.kind = opening)
      (h : Closes opening closing (depth + 1) ls rest) : Closes opening closing depth (l :: ls) rest
  | closing {depth : Nat} {l : Lexeme} {ls rest : List Lexeme} (ho : l.kind ≠ opening)
      (hc : l.kind = closing) (h : Closes opening closing depth ls rest) :
      Closes opening closing (depth + 1) (l :: ls) rest
  | other {depth : Nat} {l : Lexeme} {ls rest : List Lexeme} (ho : l.kind ≠ opening)
      (hc : l.kind ≠ closing) (h : Closes opening closing depth ls rest) :
      Closes opening closing depth (l :: ls) rest

/-- A delimiter and everything up to the one that closes it. -/
def Balanced (opening closing : TokenKind) (ls rest : List Lexeme) : Prop :=
  ∃ l inner, ls = l :: inner ∧ l.kind = opening ∧ Closes opening closing 0 inner rest

/-- No bracket of these closes the one in front of them, from `depth` open ones on. -/
def Inside : Nat → List Lexeme → Prop
  | depth, [] => depth = 0
  | depth, l :: ls =>
    match l.kind with
    | .lbrack | .lparen => Inside (depth + 1) ls
    | .rparen => Inside (depth - 1) ls
    | .rbrack => depth ≠ 0 ∧ Inside (depth - 1) ls
    | _ => Inside depth ls

/-- A single integer has a value. -/
def IsLength : List Lexeme → Prop
  | [l] => l.kind = .int → (Literal.parseInt l.text.toList).isSome = true
  | _ => True

/-- The names in front of a field's type. -/
inductive Names : List String → List Lexeme → List Lexeme → Prop
  | one {name : String} {rest : List Lexeme} (hk : headKind rest ≠ .comma) :
      Names [name] (⟨.ident, name⟩ :: rest) rest
  | more {name comma : String} {names : List String} {breaks ls rest : List Lexeme}
      (hb : ∀ l ∈ breaks, l.kind = .lineBreak) (h : Names names ls rest) :
      Names (name :: names) (⟨.ident, name⟩ :: ⟨.comma, comma⟩ :: (breaks ++ ls)) rest

/-- A name, and the package in front of its dot. -/
inductive Qualified : Option String → String → List Lexeme → List Lexeme → Prop
  | plain {name : String} {rest : List Lexeme} (hk : headKind rest ≠ .dot) :
      Qualified none name (⟨.ident, name⟩ :: rest) rest
  | dotted {pkg dot name : String} {rest : List Lexeme} :
      Qualified (some pkg) name (⟨.ident, pkg⟩ :: ⟨.dot, dot⟩ :: ⟨.ident, name⟩ :: rest) rest

/-- Whether a field has no names. -/
def StartsEmbedded (ls : List Lexeme) : Prop :=
  headKind ls = .star ∨ headKind ls.tail ∈ [TokenKind.dot, .lineBreak, .semicolon, .rbrace, .string,
    .rawString, .comment, .eof]

/-- A tag, or nothing. -/
inductive Tag : List Lexeme → List Lexeme → Prop
  | some {l : Lexeme} {rest : List Lexeme} (hk : l.kind = .string ∨ l.kind = .rawString) :
      Tag (l :: rest) rest
  | none {rest : List Lexeme} (hs : headKind rest ≠ .string) (hr : headKind rest ≠ .rawString) :
      Tag rest rest

/-- Words that do not name a type. -/
def keywords : List String := ["struct", "interface", "map", "chan", "func"]

/-- The name that an embedded field of a type gets. -/
def genericName (pkg : Option String) (name : String) : Option String :=
  (TypeExpr.generic (TypeExpr.ref pkg name).render "").embeddedName?

mutual

/-- A type, and the name of an embedded field of that type. -/
inductive Types : Option String → List Lexeme → List Lexeme → Prop
  | pointer {x : String} {name : Option String} {ls rest : List Lexeme} (h : Types name ls rest) :
      Types name (⟨.star, x⟩ :: ls) rest
  | paren {x y : String} {name : Option String} {ls rest : List Lexeme}
      (h : Types name ls (⟨.rparen, y⟩ :: rest)) : Types name (⟨.lparen, x⟩ :: ls) rest
  | slice {x y : String} {name : Option String} {ls rest : List Lexeme} (h : Types name ls rest) :
      Types none (⟨.lbrack, x⟩ :: ⟨.rbrack, y⟩ :: ls) rest
  | array {x y : String} {name : Option String} {inner ls rest : List Lexeme} (hne : inner ≠ [])
      (hi : Inside 0 inner) (hl : IsLength inner) (h : Types name ls rest) :
      Types none (⟨.lbrack, x⟩ :: (inner ++ ⟨.rbrack, y⟩ :: ls)) rest
  | receive {x : String} {name : Option String} {ls rest : List Lexeme} (h : Types name ls rest) :
      Types none (⟨.arrow, x⟩ :: ⟨.ident, "chan"⟩ :: ls) rest
  | struct {x : String} {ls rest : List Lexeme} (h : Body ls rest) :
      Types none (⟨.ident, "struct"⟩ :: ⟨.lbrace, x⟩ :: ls) rest
  | interface {ls rest : List Lexeme} (h : Balanced .lbrace .rbrace ls rest) :
      Types none (⟨.ident, "interface"⟩ :: ls) rest
  | map {x y : String} {key value : Option String} {ls mid rest : List Lexeme}
      (hk : Types key ls (⟨.rbrack, y⟩ :: mid)) (hv : Types value mid rest) :
      Types none (⟨.ident, "map"⟩ :: ⟨.lbrack, x⟩ :: ls) rest
  | send {x : String} {name : Option String} {ls rest : List Lexeme} (h : Types name ls rest) :
      Types none (⟨.ident, "chan"⟩ :: ⟨.arrow, x⟩ :: ls) rest
  | chan {name : Option String} {ls rest : List Lexeme} (hk : headKind ls ≠ .arrow)
      (h : Types name ls rest) : Types none (⟨.ident, "chan"⟩ :: ls) rest
  | func {ls mid rest : List Lexeme} (h : Balanced .lparen .rparen ls mid) (hr : Result mid rest) :
      Types none (⟨.ident, "func"⟩ :: ls) rest
  | ref {first name : String} {pkg : Option String} {ls rest : List Lexeme}
      (hf : first ∉ keywords) (h : Qualified pkg name (⟨.ident, first⟩ :: ls) rest)
      (hk : headKind rest ≠ .lbrack) : Types (some name) (⟨.ident, first⟩ :: ls) rest
  | generic {first name : String} {pkg : Option String} {ls mid rest : List Lexeme}
      (hf : first ∉ keywords) (h : Qualified pkg name (⟨.ident, first⟩ :: ls) mid)
      (hb : Balanced .lbrack .rbrack mid rest) :
      Types (genericName pkg name) (⟨.ident, first⟩ :: ls) rest

/-- The results of a function type: a list in parentheses, one type, or none. -/
inductive Result : List Lexeme → List Lexeme → Prop
  | list {ls rest : List Lexeme} (h : Balanced .lparen .rparen ls rest) : Result ls rest
  | type {name : Option String} {ls rest : List Lexeme}
      (hk : headKind ls ∈ [TokenKind.ident, .star, .lbrack, .arrow]) (h : Types name ls rest) :
      Result ls rest
  | none {rest : List Lexeme}
      (hk : headKind rest ∉ [TokenKind.lparen, .ident, .star, .lbrack, .arrow]) : Result rest rest

/-- The body of a struct type behind its opening brace. -/
inductive Body : List Lexeme → List Lexeme → Prop
  | skip {l : Lexeme} {ls rest : List Lexeme}
      (hk : l.kind ∈ [TokenKind.lineBreak, .semicolon, .comment]) (h : Body ls rest) :
      Body (l :: ls) rest
  | close {x : String} {rest : List Lexeme} : Body (⟨.rbrace, x⟩ :: rest) rest
  | field {ls mid rest : List Lexeme} (hf : Declares ls mid) (h : Body mid rest) : Body ls rest

/-- One field declaration, up to the end of its line. -/
inductive Declares : List Lexeme → List Lexeme → Prop
  | embedded {name : Option String} {ls tagged comments rest : List Lexeme}
      (he : StartsEmbedded ls) (hk : headKind ls = .star ∨ headKind ls = .ident)
      (h : Types name ls tagged) (ht : Tag tagged (comments ++ rest))
      (hc : ∀ l ∈ comments, l.kind = .comment)
      (hend : headKind rest ∈ [TokenKind.lineBreak, .semicolon, .rbrace]) : Declares ls rest
  | named {names : List String} {name : Option String} {ls typed tagged comments rest : List Lexeme}
      (he : ¬StartsEmbedded ls) (hn : Names names ls typed) (h : Types name typed tagged)
      (ht : Tag tagged (comments ++ rest)) (hc : ∀ l ∈ comments, l.kind = .comment)
      (hend : headKind rest ∈ [TokenKind.lineBreak, .semicolon, .rbrace]) : Declares ls rest

end

theorem Types.headKind {name : Option String} {ls rest : List Lexeme} (h : Types name ls rest) :
    headKind ls ∈ [TokenKind.star, .lparen, .lbrack, .arrow, .ident] := by
  cases h <;> simp [Lexeme.headKind]

end Lexeme

end StructLayout
