import StructLayout.Proofs.Source.Completeness
import StructLayout.Proofs.Source.Context
import StructLayout.Proofs.Source.Spelling
import StructLayout.Source.File

/-!
Lines of a struct body with nothing but a type on them. They are read as one embedded field of that
type, unless type arguments stand right behind the first name: those are taken for the length of an
array, and the name for that of a field.
-/

namespace StructLayout

open Text

/-- A name has no dot in it, so that all of it stands behind the last one. -/
theorem IsName.dot_not_mem {name : String} (h : IsName name) : '.' ∉ name.toList := by
  obtain ⟨c, cs, hname, hc, -, hcs⟩ := h
  rw [hname]
  intro hm
  have hdot : isIdent '.' = true := by
    rcases List.mem_cons.mp hm with rfl | hm
    · exact hc
    · exact hcs _ hm
  cases hdot

namespace Lexeme

theorem genericName_of_isName {name : String} (h : IsName name) (pkg : Option String) :
    genericName pkg name = some name := by
  have hname : ∀ c ∈ name.toList.reverse, (c != '.') = true := by
    intro c hc
    rw [bne_iff_ne]
    rintro rfl
    exact h.dot_not_mem (List.mem_reverse.mp hc)
  have hlast : ((TypeExpr.ref pkg name).render.toList.reverse.takeWhile (· != '.')).reverse =
      name.toList := by
    cases pkg with
    | none =>
      rw [TypeExpr.render, List.takeWhile_eq_self_iff.mpr hname, List.reverse_reverse]
    | some pkg =>
      have hdot : (".".toList).reverse = ['.'] := rfl
      rw [TypeExpr.render, String.toList_append, String.toList_append, List.append_assoc,
        List.reverse_append, List.reverse_append, hdot, List.append_assoc,
        List.takeWhile_append_of_pos hname, List.singleton_append,
        List.takeWhile_cons_of_neg (by simp), List.append_nil, List.reverse_reverse]
  rw [genericName, TypeExpr.embeddedName?, hlast, String.ofList_toList]

/-- A line with the name of a type alone, maybe with a star and a package in front of it and with
type arguments behind it. A tag and comments can follow. -/
structure TypeLine where
  starred : Bool := false
  pkg : Option String := none
  name : String
  args : List Lexeme := []
  tag : Option Lexeme := none
  comments : List Lexeme := []
  isName : IsName name
  free : pkg.getD name ∉ keywords
  balanced : args = [] ∨ Balanced .lbrack .rbrack args []
  literal : ∀ l ∈ tag, l.kind = .string ∨ l.kind = .rawString
  comment : ∀ l ∈ comments, l.kind = .comment

namespace TypeLine

def star (line : TypeLine) : List Lexeme :=
  if line.starred then [⟨.star, "*"⟩] else []

def qualified (line : TypeLine) : List Lexeme :=
  match line.pkg with
  | some pkg => [⟨.ident, pkg⟩, ⟨.dot, "."⟩, ⟨.ident, line.name⟩]
  | none => [⟨.ident, line.name⟩]

/-- What stands behind the type. -/
def ends (line : TypeLine) : List Lexeme :=
  line.tag.toList ++ line.comments

def lexemes (line : TypeLine) : List Lexeme :=
  line.star ++ line.qualified ++ line.args ++ line.ends

/-- There are no type arguments, or what stands in front of the name tells that it names a type. -/
def IsPlain (line : TypeLine) : Prop :=
  line.args = [] ∨ line.starred = true ∨ line.pkg.isSome = true

variable {line : TypeLine} {rest : List Lexeme}

/-- Kinds of what can stand behind the type. -/
def enders : List TokenKind := [.string, .rawString, .comment, .lineBreak, .semicolon, .rbrace]

theorem headKind_ends (line : TypeLine)
    (hrest : headKind rest ∈ [TokenKind.lineBreak, .semicolon, .rbrace]) :
    headKind (line.ends ++ rest) ∈ enders := by
  unfold ends
  cases ht : line.tag with
  | some l =>
    have hk : l.kind = .string ∨ l.kind = .rawString := line.literal l ht
    show l.kind ∈ enders
    rcases hk with hk | hk <;> rw [hk] <;> decide
  | none =>
    cases hc : line.comments with
    | cons l ls =>
      have hk : l.kind = .comment := line.comment l (hc ▸ List.mem_cons_self)
      show l.kind ∈ enders
      rw [hk]
      decide
    | nil =>
      have hsub : ∀ kind ∈ [TokenKind.lineBreak, .semicolon, .rbrace], kind ∈ enders := by decide
      exact hsub _ hrest

/-- The name with its package begins with a word that is no keyword. -/
theorem exists_qualified (line : TypeLine) :
    ∃ first ls, line.qualified = ⟨.ident, first⟩ :: ls ∧ first ∉ keywords ∧
      ∀ more, headKind more ≠ .dot → Qualified line.pkg line.name (line.qualified ++ more) more := by
  have hfree := line.free
  unfold qualified
  cases hpkg : line.pkg with
  | none =>
    rw [hpkg] at hfree
    exact ⟨_, _, rfl, hfree, fun more hk => .plain hk⟩
  | some pkg =>
    rw [hpkg] at hfree
    exact ⟨_, _, rfl, hfree, fun more _ => .dotted⟩

/-- The name with its package and its type arguments is a type of that name. -/
theorem types_qualified (line : TypeLine) (hrest : headKind rest ∈ enders) :
    Types (some line.name) (line.qualified ++ line.args ++ rest) rest := by
  have hne : headKind rest ≠ .dot ∧ headKind rest ≠ .lbrack := by
    have hkinds : ∀ kind ∈ enders, kind ≠ .dot ∧ kind ≠ .lbrack := by decide
    exact hkinds _ hrest
  obtain ⟨first, ls, hfirst, hfree, hqualified⟩ := line.exists_qualified
  rcases line.balanced with hargs | hargs
  · have := hqualified rest hne.1
    rw [hargs, List.append_nil]
    rw [hfirst, List.cons_append] at this ⊢
    exact .ref hfree this hne.2
  · obtain ⟨seg, hseg, -, hbalanced⟩ := hargs.takes
    rw [List.append_nil] at hseg
    subst hseg
    have hdot : headKind (line.args ++ rest) ≠ .dot := by
      obtain ⟨l, inner, hl, hk, -⟩ := hbalanced rest
      rw [hl]
      show l.kind ≠ .dot
      rw [hk]
      decide
    have := hqualified _ hdot
    rw [List.append_assoc, ← genericName_of_isName line.isName line.pkg]
    rw [hfirst, List.cons_append] at this ⊢
    exact .generic hfree this (hbalanced rest)

theorem types (line : TypeLine) (hrest : headKind rest ∈ enders) :
    Types (some line.name) (line.star ++ line.qualified ++ line.args ++ rest) rest := by
  have h := line.types_qualified hrest
  unfold star
  split
  · exact .pointer h
  · exact h

/-- The line of a field without names begins like this one if and only if this one is plain. -/
theorem startsEmbedded_iff (line : TypeLine)
    (hrest : headKind rest ∈ [TokenKind.lineBreak, .semicolon, .rbrace]) :
    StartsEmbedded (line.lexemes ++ rest) ↔ line.IsPlain := by
  have hends := line.headKind_ends hrest
  unfold lexemes star qualified IsPlain
  cases line.starred with
  | true => exact iff_of_true (.inl rfl) (.inr (.inl rfl))
  | false =>
    cases line.pkg with
    | some pkg => exact iff_of_true (.inr List.mem_cons_self) (.inr (.inr rfl))
    | none =>
      rcases line.balanced with hargs | ⟨l, inner, hargs, hk, -⟩
      · rw [hargs]
        have hsub : ∀ kind ∈ enders, kind ∈ [TokenKind.dot, .lineBreak, .semicolon, .rbrace, .string,
            .rawString, .comment, .eof] := by decide
        exact iff_of_true (.inr (hsub _ hends)) (.inl rfl)
      · rw [hargs]
        refine iff_of_false ?_ (by simp)
        rintro (hstar | hbehind)
        · cases hstar
        · have hbehind : l.kind ∈ _ := hbehind
          rw [hk] at hbehind
          exact absurd hbehind (by decide)

end TypeLine

end Lexeme

/-! ## Reading such a line -/

namespace Cursor

open Lexeme

variable {c : Cursor} {rest : List Lexeme}

theorem readTag_of_lexemes {tag : Option Lexeme} (hc : c.lexemes = tag.toList ++ rest)
    (htag : ∀ l ∈ tag, l.kind = .string ∨ l.kind = .rawString)
    (hrest : tag = none → headKind rest ≠ .string ∧ headKind rest ≠ .rawString) :
    c.readTag.1 = tag.map Lexeme.text ∧ c.readTag.2.1.lexemes = rest := by
  unfold readTag
  cases tag with
  | none =>
    have hc : c.lexemes = rest := hc
    obtain ⟨hs, hr⟩ := hrest rfl
    rw [if_neg (by rw [kind_eq, hc]; exact not_or.mpr ⟨hs, hr⟩)]
    exact ⟨rfl, hc⟩
  | some l =>
    have hk := htag l rfl
    have hne : l.kind ≠ .eof := by rcases hk with hk | hk <;> rw [hk] <;> decide
    obtain ⟨hkind, htext, hn⟩ := lexemes_inv hc hne
    rw [if_pos (hkind ▸ hk)]
    exact ⟨congrArg some htext, hn⟩

theorem run_comment_of_lexemes {comments : List Lexeme} (hc : c.lexemes = comments ++ rest)
    (hcomments : ∀ l ∈ comments, l.kind = .comment) (hrest : headKind rest ≠ .comment) :
    (c.run .comment).map Token.text = comments.map Lexeme.text ∧
      c.skipComments.1.lexemes = rest := by
  have hskip := skipComments_lexemes hcomments hrest hc
  refine ⟨?_, hskip⟩
  have hall := (skipComments_spec c).1.lexemes
  rw [hskip, hc] at hall
  have hrun := List.append_cancel_right hall
  rw [hrun, List.map_map]
  rfl

end Cursor

namespace TypeExpr

variable {s : SourceText} {keyword : Nat} {done : PartialBody} {body : StructExpr} {c d e : Cursor}
  {field : FieldDecl}

/-- Fields that have been read stay in front of those that follow. -/
theorem readBody_fields {d : c.After} (h : readBody s keyword done c = .ok (body, d)) :
    ∃ more, body.fields = done.fields ++ more := by
  obtain ⟨n, hn⟩ : ∃ n, c.ahead.length < n := ⟨_, Nat.lt_succ_self _⟩
  induction n generalizing c done d with
  | zero => exact absurd hn (Nat.not_lt_zero _)
  | succ n ih =>
    obtain ⟨hne, h⟩ := readBody_eq_ok h
    have hlen : c.next.ahead.length < n := Nat.lt_of_lt_of_le (c.step hne).2 (Nat.le_of_lt_succ hn)
    rcases h with ⟨-, e, hr, -⟩ | ⟨-, e, hr, -⟩ | ⟨-, -, rfl⟩ | ⟨field, e, f, -, hr, -⟩
    · exact ih hr hlen
    · obtain ⟨more, hmore⟩ := ih hr hlen
      exact ⟨more, hmore⟩
    · exact ⟨[], (List.append_nil _).symm⟩
    · obtain ⟨more, hmore⟩ := ih hr (Nat.lt_of_lt_of_le e.2 (Nat.le_of_lt_succ hn))
      exact ⟨_, hmore.trans (List.append_assoc _ _ _)⟩

/-- A body with a field next goes on behind that field. -/
theorem readsBody_field_iff (hf : ReadsField s c field d) :
    ReadsBody s keyword done c body e ↔
      ReadsBody s keyword (add s keyword done c field) d body e := by
  obtain ⟨hlt, hok⟩ := id hf
  obtain ⟨hstart, -⟩ := readField_eq_ok hok
  refine ⟨?_, readsBody_field hstart hf⟩
  rintro ⟨hlt', h⟩
  obtain ⟨-, ⟨hk, -⟩ | ⟨hk, -⟩ | ⟨hk, -⟩ | ⟨field', d', e', hf', hr, he⟩⟩ := readBody_eq_ok h
  · rcases hstart with hs | hs <;> rw [hs] at hk <;> simp at hk
  · rcases hstart with hs | hs <;> rw [hs] at hk <;> cases hk
  · rcases hstart with hs | hs <;> rw [hs] at hk <;> cases hk
  · rw [hok] at hf'
    cases hf'
    obtain ⟨e', hlt''⟩ := e'
    obtain rfl : e' = e := he
    exact ⟨hlt'', hr⟩

end TypeExpr

namespace Lexeme.TypeLine

open Cursor TypeExpr

variable {s : SourceText} {c d : Cursor} {field : FieldDecl} {line : TypeLine} {rest : List Lexeme}

/-- A line is read as one field without names, of the type that is read at its start and by the name
that such a field gets. The body of a struct goes on behind the line with that field added. -/
structure Embeds (line : TypeLine) (s : SourceText) (c : Cursor) (more : List Lexeme)
    (field : FieldDecl) (d : Cursor) : Prop where
  reads : ReadsField s c field d
  rest : d.lexemes = more
  names : field.names = []
  name : field.name? = some line.name
  type : ∃ e, ReadsTo s c field.ty e ∧ e.lexemes = line.ends ++ more ∧
    field.ty.embeddedName? = some line.name
  tag : field.tag = line.tag.map Lexeme.text
  comments : field.comment = line.comments.map Lexeme.text
  body : ∀ keyword done body e, ReadsBody s keyword done c body e ↔
    ReadsBody s keyword (add s keyword done c field) d body e
  fields : ∀ keyword done body e, ReadsBody s keyword done c body e →
    ∃ others, body.fields = done.fields ++ { field with doc := done.pending } :: others

/-- The tag and the comments behind the type. -/
theorem read_ends (line : TypeLine) (hc : c.lexemes = line.ends ++ rest)
    (hrest : headKind rest ∈ [TokenKind.lineBreak, .semicolon, .rbrace]) :
    c.readTag.1 = line.tag.map Lexeme.text ∧
      (c.readTag.2.1.run .comment).map Token.text = line.comments.map Lexeme.text ∧
      c.readTag.2.1.skipComments.1.lexemes = rest := by
  have hend : headKind rest ≠ .string ∧ headKind rest ≠ .rawString ∧ headKind rest ≠ .comment := by
    have hkinds : ∀ kind ∈ [TokenKind.lineBreak, .semicolon, .rbrace],
        kind ≠ .string ∧ kind ≠ .rawString ∧ kind ≠ .comment := by decide
    exact hkinds _ hrest
  have hnotag : headKind (line.comments ++ rest) ≠ .string ∧
      headKind (line.comments ++ rest) ≠ .rawString := by
    cases hl : line.comments with
    | nil => exact ⟨hend.1, hend.2.1⟩
    | cons l ls =>
      have hk : l.kind = .comment := line.comment l (hl ▸ List.mem_cons_self)
      show l.kind ≠ .string ∧ l.kind ≠ .rawString
      rw [hk]
      decide
  rw [ends, List.append_assoc] at hc
  obtain ⟨htag, hbehind⟩ := readTag_of_lexemes hc line.literal fun _ => hnotag
  obtain ⟨hcomments, hlast⟩ := run_comment_of_lexemes hbehind line.comment hend.2.2
  exact ⟨htag, hcomments, hlast⟩

theorem kind_start (hc : c.lexemes = line.lexemes ++ rest) : c.kind = .star ∨ c.kind = .ident := by
  rw [kind_eq, hc]
  unfold lexemes star qualified
  cases line.starred with
  | true => exact .inl rfl
  | false => cases line.pkg <;> exact .inr rfl

theorem embeds_of_plain (hc : c.lexemes = line.lexemes ++ rest)
    (hrest : headKind rest ∈ [TokenKind.lineBreak, .semicolon, .rbrace]) (hplain : line.IsPlain) :
    ∃ field d, line.Embeds s c rest field d := by
  have hstart := kind_start hc
  have hne : c.kind ≠ .eof := by rcases hstart with hk | hk <;> rw [hk] <;> decide
  have hstarts : StartsEmbedded c.lexemes := hc ▸ (line.startsEmbedded_iff hrest).mpr hplain
  have hnames : c.readFieldNames s = .ok ([], c.here) := by
    rw [readFieldNames, if_pos ((Cursor.startsEmbedded_iff hne).mpr hstarts)]
  have htypes := line.types (line.headKind_ends hrest)
  have hsame : line.star ++ line.qualified ++ line.args ++ (line.ends ++ rest) = c.lexemes := by
    rw [hc, lexemes, List.append_assoc _ line.ends]
  rw [hsame] at htypes
  obtain ⟨ty, e, hty, he, hname⟩ := htypes.reads s c rfl
  obtain ⟨htag, hcomments, hd⟩ := line.read_ends he hrest
  have hreads : ReadsField s c (readAs s c [] c ty e) e.readTag.2.1.skipComments.1 := by
    refine readsField hstart hnames hty rfl ?_
    rw [kind_eq, hd]
    simpa using hrest
  refine ⟨_, _, hreads, hd, rfl, hname, ⟨e, hty, he, hname⟩, htag, hcomments,
    fun keyword done body f => readsBody_field_iff hreads, fun keyword done body f hbody => ?_⟩
  obtain ⟨hlt, hok⟩ := (readsBody_field_iff hreads).mp hbody
  obtain ⟨more, hmore⟩ := readBody_fields hok
  exact ⟨more, hmore.trans (List.append_assoc _ _ _)⟩

/-- A line of a struct body with nothing but the name of a type is read as one embedded field of that
type, if and only if type arguments do not stand behind a name without a star and a package. -/
theorem embeds_iff (hc : c.lexemes = line.lexemes ++ rest)
    (hrest : headKind rest ∈ [TokenKind.lineBreak, .semicolon, .rbrace]) :
    (∃ field d, line.Embeds s c rest field d) ↔ line.IsPlain := by
  refine ⟨?_, embeds_of_plain hc hrest⟩
  rintro ⟨field, d, h⟩
  obtain ⟨hlt, hok⟩ := h.reads
  obtain ⟨hstart, -, names, typed, ty, e, hn, -, -, hfield⟩ := readField_eq_ok hok
  have hne : c.kind ≠ .eof := by rcases hstart with hk | hk <;> rw [hk] <;> decide
  have hnil : names = [] := by
    rw [← h.names, hfield]
    rfl
  obtain ⟨-, -, ⟨hstarts, -⟩ | ⟨-, hnames⟩⟩ := readFieldNames_eq_ok hne hn
  · rw [hc] at hstarts
    exact (line.startsEmbedded_iff hrest).mp hstarts
  · rw [hnil] at hnames
    cases hnames

/-- A generic type with everything that can stand around it. -/
def pooled : TypeLine where
  starred := true
  pkg := some "sync"
  name := "Pool"
  args := [⟨.lbrack, "["⟩, ⟨.ident, "int"⟩, ⟨.rbrack, "]"⟩]
  tag := some ⟨.rawString, "\x60x\x60"⟩
  comments := [⟨.comment, "// y"⟩]
  isName := ⟨'P', "ool".toList, rfl, rfl, rfl, List.all_eq_true.mp rfl⟩
  free := by decide
  balanced := .inr ⟨_, _, rfl, rfl, .other (by decide) (by decide) (.last (by decide) rfl)⟩
  literal := by simp
  comment := by simp

theorem embeds_iff_pooled :
    let chars := "*sync.Pool[int] \x60x\x60 // y\n\x7d".toList
    let s : SourceText := ⟨chars, .ofText "a.go" 1 chars⟩
    ∃ tokens, Token.tokenize chars = .ok tokens ∧
      ∃ field d, pooled.Embeds s (.ofTokens tokens s.info.size)
        [⟨.lineBreak, "\n"⟩, ⟨.rbrace, "\x7d"⟩] field d := by
  refine ⟨[⟨.star, 0, "*"⟩, ⟨.ident, 1, "sync"⟩, ⟨.dot, 5, "."⟩, ⟨.ident, 6, "Pool"⟩,
    ⟨.lbrack, 10, "["⟩, ⟨.ident, 11, "int"⟩, ⟨.rbrack, 14, "]"⟩, ⟨.rawString, 16, "\x60x\x60"⟩,
    ⟨.comment, 20, "// y"⟩, ⟨.lineBreak, 24, "\n"⟩, ⟨.rbrace, 25, "\x7d"⟩, ⟨.eof, 26, ""⟩], ?_, ?_⟩
  · cbv
  · refine (embeds_iff ?_ ?_).mpr ?_
    · rfl
    · decide
    · exact .inr (.inl rfl)

def bare : TypeLine where
  name := "List"
  args := [⟨.lbrack, "["⟩, ⟨.ident, "int"⟩, ⟨.rbrack, "]"⟩]
  isName := ⟨'L', "ist".toList, rfl, rfl, rfl, List.all_eq_true.mp rfl⟩
  free := by decide
  balanced := .inr ⟨_, _, rfl, rfl, .other (by decide) (by decide) (.last (by decide) rfl)⟩
  literal := by simp
  comment := by simp

/-- Without a star and a package, the type argument is the length of an array without a type, and
the file is not read. -/
theorem read_bare :
    let chars := "package a\ntype T struct \x7b\n\tList[int]\n\x7d\n".toList
    ∃ tokens before rest, Token.tokenize chars = .ok tokens ∧
      tokens.map Token.lexeme = before ++ ⟨.lineBreak, "\n"⟩ :: (bare.lexemes ++ rest) ∧
      headKind rest = .lineBreak ∧
      SourceFile.read (.ofText "a.go" 1 chars) "a.go" chars =
        .error ⟨⟨"a.go", 36, 3, 11⟩, .mismatch "type" "\n"⟩ := by
  refine ⟨[⟨.ident, 0, "package"⟩, ⟨.ident, 8, "a"⟩, ⟨.lineBreak, 9, "\n"⟩, ⟨.ident, 10, "type"⟩,
    ⟨.ident, 15, "T"⟩, ⟨.ident, 17, "struct"⟩, ⟨.lbrace, 24, "\x7b"⟩, ⟨.lineBreak, 25, "\n"⟩,
    ⟨.ident, 27, "List"⟩, ⟨.lbrack, 31, "["⟩, ⟨.ident, 32, "int"⟩, ⟨.rbrack, 35, "]"⟩,
    ⟨.lineBreak, 36, "\n"⟩, ⟨.rbrace, 37, "\x7d"⟩, ⟨.lineBreak, 38, "\n"⟩, ⟨.eof, 39, ""⟩],
    [⟨.ident, "package"⟩, ⟨.ident, "a"⟩, ⟨.lineBreak, "\n"⟩, ⟨.ident, "type"⟩, ⟨.ident, "T"⟩,
      ⟨.ident, "struct"⟩, ⟨.lbrace, "\x7b"⟩],
    [⟨.lineBreak, "\n"⟩, ⟨.rbrace, "\x7d"⟩, ⟨.lineBreak, "\n"⟩, ⟨.eof, ""⟩], ?_, ?_, ?_, ?_⟩
  · cbv
  · rfl
  · rfl
  · cbv

end Lexeme.TypeLine

end StructLayout
