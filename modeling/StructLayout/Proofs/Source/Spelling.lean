import StructLayout.Proofs.Source.Fills
import StructLayout.Source.Literal

/-!
Names, comments, tags and delimiters as they are printed. Each of them is read as the tokens it is
meant to be, wherever it stands.
-/

namespace StructLayout

namespace Token

open Text

variable {rest : List Char}

theorem Fills.single {t : Token} (h : t.Ends rest) : Fills rest t.start t.text.toList [t] := by
  have : Fills rest t.start (t.text.toList ++ []) [t] := .token h (.nil _)
  rwa [List.append_nil] at this

theorem fills_scanned {c : Char} {cs : List Char} {kind : TokenKind} (hg : isGap c = false)
    (hs : Scanned c (cs ++ rest) kind cs.length) (a : Nat) :
    Fills rest a (c :: cs) [⟨kind, a, String.ofList (c :: cs)⟩] := by
  have h : Ends ⟨kind, a, String.ofList (c :: cs)⟩ rest :=
    ⟨c, cs, String.toList_ofList, hg, hs⟩
  have := Fills.single h
  rwa [show (⟨kind, a, String.ofList (c :: cs)⟩ : Token).text.toList = c :: cs from
    String.toList_ofList] at this

theorem fills_lineBreak (a : Nat) (rest : List Char) :
    Fills rest a ['\n'] [⟨.lineBreak, a, "\n"⟩] :=
  fills_scanned rfl (.lineBreak rfl) a

theorem fills_delimiter {c : Char} {kind : TokenKind} (hk : delimiter? c = some kind)
    (hd : c ≠ '.') (a : Nat) (rest : List Char) :
    Fills rest a [c] [⟨kind, a, String.ofList [c]⟩] := by
  refine fills_scanned ?_ (.delimiter hk fun h => absurd h hd) a
  cases hg : isGap c with
  | false => rfl
  | true =>
      simp only [isGap, Bool.or_eq_true, beq_iff_eq] at hg
      rcases hg with (rfl | rfl) | rfl <;> cases hk

end Token

/-! ## Names -/

open Text Token

/-- A text that is read as one name. -/
def IsName (s : String) : Prop :=
  ∃ c cs, s.toList = c :: cs ∧ isIdent c = true ∧ c.isDigit = false ∧ ∀ d ∈ cs, isIdent d = true

theorem Token.Scanned.ident_inv {c : Char} {cs : List Char} {n : Nat}
    (h : Scanned c cs .ident n) :
    isIdent c = true ∧ c.isDigit = false ∧ n = (cs.takeWhile isIdent).length := by
  generalize hk : TokenKind.ident = kind at h
  cases h with
  | ident hc hd => exact ⟨hc, hd, rfl⟩
  | number => unfold Token.number at hk; dsimp only at hk; split at hk <;> cases hk
  | delimiter hd => subst hk; unfold delimiter? at hd; split at hd <;> cases hd
  | _ => cases hk

theorem Token.Ends.isName {t : Token} {rest : List Char} (h : t.Ends rest)
    (hk : t.kind = .ident) : IsName t.text := by
  obtain ⟨c, cs, ht, -, hs⟩ := h
  rw [hk] at hs
  obtain ⟨hc, hd, hn⟩ := hs.ident_inv
  exact ⟨c, cs, ht, hc, hd, (length_takeWhile_append.mp hn.symm).1⟩

theorem IsName.fills {s : String} {rest : List Char} (h : IsName s)
    (hr : ∀ c ∈ rest.head?, isIdent c = false) (a : Nat) :
    Fills rest a s.toList [⟨.ident, a, s⟩] := by
  obtain ⟨c, cs, hs, hc, hd, hcs⟩ := h
  have hg : isGap c = false := by
    cases hg : isGap c with
    | false => rfl
    | true =>
        simp only [isGap, Bool.or_eq_true, beq_iff_eq] at hg
        rcases hg with (rfl | rfl) | rfl <;> cases hc
  have hscan : Scanned c (cs ++ rest) .ident cs.length := by
    rw [← length_takeWhile_append.mpr ⟨hcs, hr⟩]
    exact .ident hc hd
  have := fills_scanned hg hscan a
  rwa [← hs, String.ofList_toList] at this

/-! ## Comments -/

/-- A comment up to the end of its line. -/
def IsLineComment (cs : List Char) : Prop :=
  ∃ body, cs = '/' :: '/' :: body ∧ '\n' ∉ body

/-- A comment with an end of its own. -/
def IsBlockComment (cs : List Char) : Prop :=
  ∃ body, cs = '/' :: '*' :: body ∧ closeComment body = some body.length

def IsComment (s : String) : Prop :=
  IsLineComment s.toList ∨ IsBlockComment s.toList

/-- No carriage return at the end, which a line comment would leave out. -/
def EndsPlain (s : String) : Prop :=
  s.toList.getLast? ≠ some '\r'

/-- The rest starts with a line break, if with anything. -/
def AtBreak (rest : List Char) : Prop :=
  rest = [] ∨ rest.head? = some '\n'

theorem AtBreak.endsLine {rest : List Char} (h : AtBreak rest) : EndsLine rest := by
  rcases h with rfl | h
  · exact .inl rfl
  · obtain ⟨cs, rfl⟩ := List.head?_eq_some_iff.mp h
    exact .inr (.inl ⟨cs, rfl⟩)

theorem Token.EndsLine.atBreak {rest : List Char} (h : EndsLine rest) (hr : rest.head? ≠ some '\r') :
    AtBreak rest := by
  rcases h with rfl | ⟨cs, rfl⟩ | rfl | ⟨cs, rfl⟩
  · exact .inl rfl
  · exact .inr rfl
  · exact absurd rfl hr
  · exact absurd rfl hr

theorem IsBlockComment.fills {cs : List Char} (h : IsBlockComment cs) (a : Nat)
    (rest : List Char) : Fills rest a cs [⟨.comment, a, String.ofList cs⟩] := by
  obtain ⟨body, rfl, hb⟩ := h
  refine fills_scanned rfl (.blockComment rfl rfl ?_) a
  have : closeComment (body ++ []) = some body.length := by rwa [List.append_nil]
  exact closeComment_append this

/-- A carriage return at the end of a line comment is left out. -/
theorem IsLineComment.fills {cs rest : List Char} (h : IsLineComment cs) (hr : EndsLine rest)
    (a : Nat) : ∃ t, t.kind = .comment ∧ t.start = a ∧
      (cs.getLast? ≠ some '\r' → t.text = String.ofList cs) ∧ Fills rest a cs [t] := by
  obtain ⟨body, rfl, hb⟩ := h
  by_cases hlast : body.getLast? = some '\r' ∧ AtBreak rest
  · obtain ⟨hlast, hr⟩ := hlast
    obtain ⟨body, rfl⟩ := List.getLast?_eq_some_iff.mp hlast
    have hend : EndsLine ('\r' :: rest) := endsLine_cons.mpr (.inr ⟨rfl, hr⟩)
    have htail : lineCommentTail ('/' :: body ++ '\r' :: rest) = ('/' :: body).length :=
      lineCommentTail_append.mpr ⟨fun hm => hb (by simpa using hm), hend, fun h => absurd rfl h⟩
    have hfills : Fills (['\r'] ++ rest) a ('/' :: '/' :: body)
        [⟨.comment, a, String.ofList ('/' :: '/' :: body)⟩] := by
      refine fills_scanned rfl ?_ a
      rw [List.singleton_append, ← htail]
      exact .lineComment rfl rfl
    refine ⟨_, rfl, rfl, fun h => absurd ?_ h, hfills.append (.gap rfl (.nil _))⟩
    rw [← List.cons_append, ← List.cons_append, List.getLast?_concat]
  · have htail : lineCommentTail ('/' :: body ++ rest) = ('/' :: body).length := by
      refine lineCommentTail_append.mpr ⟨fun hm => hb (by simpa using hm), hr, fun hret h => ?_⟩
      refine hlast ⟨?_, hr.atBreak hret⟩
      rw [List.getLast?_cons] at h
      cases hbody : body.getLast? with
      | none => rw [hbody] at h; cases h
      | some d => rwa [hbody] at h
    refine ⟨_, rfl, rfl, fun _ => rfl, fills_scanned rfl ?_ a⟩
    rw [← htail]
    exact .lineComment rfl rfl

theorem IsComment.fills {s : String} {rest : List Char} (h : IsComment s) (hr : EndsLine rest)
    (a : Nat) : ∃ t, t.kind = .comment ∧ t.start = a ∧ (EndsPlain s → t.text = s) ∧
      Fills rest a s.toList [t] := by
  rcases h with h | h
  · obtain ⟨t, hk, hs, ht, hf⟩ := h.fills hr a
    exact ⟨t, hk, hs, fun hp => (ht hp).trans String.ofList_toList, hf⟩
  · exact ⟨_, rfl, rfl, fun _ => String.ofList_toList, h.fills a rest⟩

theorem Token.Scanned.comment_inv {c : Char} {cs : List Char} {n : Nat}
    (h : Scanned c cs .comment n) : c = '/' ∧
      (cs.head? = some '/' ∧ n = lineCommentTail cs ∨
        cs.head? = some '*' ∧ ∃ m, closeComment cs.tail = some m ∧ n = m + 1) := by
  generalize hk : TokenKind.comment = kind at h
  cases h with
  | lineComment hc hs => exact ⟨hc, .inl ⟨hs, rfl⟩⟩
  | blockComment hc hs hn => exact ⟨hc, .inr ⟨hs, _, hn, rfl⟩⟩
  | number => unfold Token.number at hk; dsimp only at hk; split at hk <;> cases hk
  | delimiter hd => subst hk; unfold delimiter? at hd; split at hd <;> cases hd
  | _ => cases hk

/-- A comment in a text ends its line, or has an end of its own. -/
theorem Token.Ends.isComment {t : Token} {rest : List Char} (h : t.Ends rest)
    (hk : t.kind = .comment) :
    IsLineComment t.text.toList ∧ EndsLine rest ∨ IsBlockComment t.text.toList := by
  obtain ⟨c, cs, ht, -, hs⟩ := h
  rw [hk] at hs
  obtain ⟨rfl, ⟨hh, hn⟩ | ⟨hh, m, hm, hn⟩⟩ := hs.comment_inv
  · left
    obtain ⟨hcs, hend, -⟩ := lineCommentTail_append.mp hn.symm
    cases cs with
    | nil =>
        rcases hend with rfl | ⟨cs, rfl⟩ | rfl | ⟨cs, rfl⟩ <;> cases hh
    | cons d cs =>
        cases hh
        exact ⟨⟨cs, ht, fun hm => hcs (List.mem_cons_of_mem _ hm)⟩, hend⟩
  · right
    cases cs with
    | nil => cases hn
    | cons d cs =>
        cases hh
        obtain rfl : cs.length = m := Nat.succ.inj hn
        refine ⟨cs, ht, ?_⟩
        have : closeComment (cs ++ []) = some cs.length := closeComment_append hm
        rwa [List.append_nil] at this

/-- Comments on one line. Behind one that goes on to the end of the line, the others only make it
longer. -/
inductive Comments : Bool → List String → Prop
  | nil : Comments false []
  | block {isOpen : Bool} {c : String} {cs : List String} (hc : IsBlockComment c.toList)
      (h : Comments isOpen cs) : Comments isOpen (c :: cs)
  | line {c : String} {cs : List String} (hc : IsLineComment c.toList)
      (hcs : ∀ d ∈ cs, IsLineComment d.toList) : Comments true (c :: cs)

theorem IsLineComment.newline_not_mem {cs : List Char} (h : IsLineComment cs) : '\n' ∉ cs := by
  obtain ⟨body, rfl, hb⟩ := h
  simpa using hb

theorem newline_not_mem_intercalate {cs : List String} (h : ∀ d ∈ cs, '\n' ∉ d.toList) :
    '\n' ∉ (" ".intercalate cs).toList := by
  induction cs with
  | nil => simp
  | cons c cs ih =>
      obtain ⟨hc, hcs⟩ := List.forall_mem_cons.mp h
      cases cs with
      | nil => simpa using hc
      | cons d cs =>
          rw [String.intercalate_cons_cons, String.toList_append, String.toList_append]
          intro hm
          rcases List.mem_append.mp hm with hm | hm
          · rcases List.mem_append.mp hm with hm | hm
            · exact hc hm
            · simp at hm
          · exact ih hcs hm

theorem gap_ne_newline {gap : List Char} (hg : ∀ c ∈ gap, isGap c = true) : '\n' ∉ gap :=
  fun hm => isGap_ne (hg _ hm) rfl

/-- The space behind a comment stands only in front of another one. -/
theorem intercalate_cons_space (c : String) (cs : List String) :
    ∃ space, (∀ d ∈ space, isGap d = true) ∧ (" ".intercalate (c :: cs)).toList =
      c.toList ++ (space ++ (" ".intercalate cs).toList) := by
  cases cs with
  | nil => exact ⟨[], by simp, by simp⟩
  | cons d cs =>
      refine ⟨[' '], by simp [isGap], ?_⟩
      rw [String.intercalate_cons_cons, String.toList_append, String.toList_append,
        List.append_assoc]
      rfl

/-- Comments with spaces between them, and blanks behind them. -/
theorem Comments.fills {isOpen : Bool} {cs : List String} {gap rest : List Char}
    (h : Comments isOpen cs) (hg : ∀ c ∈ gap, isGap c = true)
    (hr : isOpen = true → EndsLine rest) (a : Nat) :
    ∃ ts, (∀ t ∈ ts, t.kind = .comment) ∧
      Fills rest a ((" ".intercalate cs).toList ++ gap) ts := by
  induction h generalizing a with
  | nil => exact ⟨[], by simp, by simpa using Fills.gaps hg (.nil _)⟩
  | @block _ c cs hc _ ih =>
      obtain ⟨space, hs, htext⟩ := intercalate_cons_space c cs
      obtain ⟨ts, hts, hf⟩ := ih hr (a + byteLen c.toList + byteLen space)
      rw [htext, List.append_assoc, List.append_assoc]
      exact ⟨_ :: ts, List.forall_mem_cons.mpr ⟨rfl, hts⟩,
        (hc.fills a _).append (.gaps hs hf)⟩
  | @line c cs hc hcs =>
      -- all of it is one comment
      obtain ⟨space, hs, htext⟩ := intercalate_cons_space c cs
      obtain ⟨body, hbody, hb⟩ := hc
      have hline : IsLineComment ((" ".intercalate (c :: cs)).toList ++ gap) := by
        refine ⟨body ++ (space ++ (" ".intercalate cs).toList) ++ gap, ?_, ?_⟩
        · rw [htext, hbody]
          rfl
        · simp only [List.mem_append, not_or]
          have hrest := newline_not_mem_intercalate fun d hd => (hcs d hd).newline_not_mem
          exact ⟨⟨hb, gap_ne_newline hs, hrest⟩, gap_ne_newline hg⟩
      obtain ⟨t, ht, -, -, hf⟩ := hline.fills (hr rfl) a
      exact ⟨[t], by simpa using ht, hf⟩

/-- Comments on one line that are read as they are: only the last can go on to the end of the
line. -/
inductive Separate : Bool → List String → Prop
  | nil : Separate false []
  | line {c : String} (hc : IsLineComment c.toList) (hp : EndsPlain c) : Separate true [c]
  | block {isOpen : Bool} {c : String} {cs : List String} (hc : IsBlockComment c.toList)
      (h : Separate isOpen cs) : Separate isOpen (c :: cs)

theorem Separate.comments {isOpen : Bool} {cs : List String} (h : Separate isOpen cs) :
    Comments isOpen cs := by
  induction h with
  | nil => exact .nil
  | line hc => exact .line hc (by simp)
  | block hc _ ih => exact .block hc ih

theorem Separate.fills {isOpen : Bool} {cs : List String} {rest : List Char}
    (h : Separate isOpen cs) (hr : isOpen = true → EndsLine rest) (a : Nat) :
    ∃ ts, (∀ t ∈ ts, t.kind = .comment) ∧ ts.map text = cs ∧
      Fills rest a (" ".intercalate cs).toList ts ∧
      ∀ t ∈ ts.getLast?, t.stop = a + byteLen (" ".intercalate cs).toList := by
  induction h generalizing a with
  | nil => exact ⟨[], by simp, rfl, by simpa using Fills.nil a, by simp⟩
  | @line c hc hp =>
      obtain ⟨t, hk, hs, ht, hf⟩ := IsComment.fills (.inl hc) (hr rfl) a
      refine ⟨[t], by simpa using hk, by rw [List.map_singleton, ht hp], by simpa using hf, ?_⟩
      intro u hu
      obtain rfl : t = u := Option.some.inj hu
      rw [stop_eq, hs, ht hp]
      simp
  | @block isOpen c cs hc h ih =>
      obtain ⟨space, hspace, htext⟩ := intercalate_cons_space c cs
      obtain ⟨ts, hts, hmap, hf, hlast⟩ := ih hr (a + byteLen c.toList + byteLen space)
      rw [htext]
      refine ⟨_ :: ts, List.forall_mem_cons.mpr ⟨rfl, hts⟩, ?_,
        (hc.fills a _).append (.gaps hspace hf), fun t ht => ?_⟩
      · rw [List.map_cons, hmap, String.ofList_toList]
      · rw [byteLen_append, byteLen_append]
        cases hl : ts.getLast? with
        | some u =>
            rw [List.getLast?_cons, hl] at ht
            obtain rfl : u = t := Option.some.inj ht
            rw [hlast u hl]
            omega
        | none =>
            -- nothing stands behind the last comment
            obtain rfl := List.getLast?_eq_none_iff.mp hl
            obtain rfl : cs = [] := hmap.symm
            obtain rfl := Option.some.inj ht
            have : space = [] := by
              have := congrArg List.length htext
              simpa using this
            rw [stop_eq, this, String.ofList_toList]
            simp

/-- A comment on a line of its own. -/
theorem IsComment.line_fills {indent : List Char} {s : String} (h : IsComment s)
    (hi : ∀ c ∈ indent, isGap c = true) (a : Nat) (rest : List Char) :
    ∃ t u, t.kind = .comment ∧ t.start = a + byteLen indent ∧ (EndsPlain s → t.text = s) ∧
      u.kind = .lineBreak ∧ Fills rest a (indent ++ s.toList ++ ['\n']) [t, u] := by
  have hbreak : EndsLine (['\n'] ++ rest) := .inr (.inl ⟨rest, rfl⟩)
  obtain ⟨t, hk, hs, ht, hf⟩ := h.fills hbreak (a + byteLen indent)
  refine ⟨t, ⟨.lineBreak, a + byteLen indent + byteLen s.toList, "\n"⟩, hk, hs, ht, rfl, ?_⟩
  rw [List.append_assoc]
  exact .gaps hi (hf.append (fills_lineBreak _ _))

/-! ## Tags -/

theorem closeRaw_of_not_mem {mark : Char} {cs : List Char} (h : mark ∉ cs) (rest : List Char) :
    closeRaw mark (cs ++ mark :: rest) = some (cs.length + 1) := by
  induction cs with
  | nil => rw [List.nil_append, closeRaw, if_pos rfl]; rfl
  | cons c cs ih =>
      obtain ⟨hc, hcs⟩ := not_or.mp (List.mem_cons.not.mp h)
      rw [List.cons_append, closeRaw, if_neg (Ne.symm hc), ih hcs]
      rfl

/-- Characters that need no escape do not close a quoted text. -/
theorem closeQuote_plain {mark : Char} {cs : List Char}
    (h : ∀ c ∈ cs, c ≠ mark ∧ c ≠ '\\' ∧ c ≠ '\n') (rest : List Char) :
    closeQuote mark (cs ++ rest) = (closeQuote mark rest).map (· + cs.length) := by
  induction cs with
  | nil => simp
  | cons c cs ih =>
      obtain ⟨⟨hm, hb, hn⟩, hcs⟩ := List.forall_mem_cons.mp h
      rw [List.cons_append, closeQuote_cons hb, if_neg hn, if_neg hm, ih hcs, Option.map_map]
      rfl

theorem digitChar_plain (n : Nat) :
    n.digitChar ≠ '"' ∧ n.digitChar ≠ '\\' ∧ n.digitChar ≠ '\n' := by
  by_cases hn : n < 16
  · exact (by decide : ∀ n < 16, n.digitChar ≠ '"' ∧ n.digitChar ≠ '\\' ∧ n.digitChar ≠ '\n') n hn
  · have hstar : n.digitChar = '*' := by
      unfold Nat.digitChar
      iterate 16 rw [if_neg (by omega)]
    rw [hstar]
    decide

theorem toDigits_plain (n : Nat) :
    ∀ c ∈ Nat.toDigits 16 n, c ≠ '"' ∧ c ≠ '\\' ∧ c ≠ '\n' := by
  induction n using Nat.strongRecOn with
  | _ n ih =>
      rw [Nat.toDigits_eq_if (by decide)]
      split
      · simp [digitChar_plain n]
      · intro c hc
        rcases List.mem_append.mp hc with hc | hc
        · exact ih _ (Nat.div_lt_self (by omega) (by decide)) c hc
        · rw [List.mem_singleton.mp hc]
          exact digitChar_plain _

theorem closeQuote_escaped {mark : Char} {cs : List Char} (c : Char)
    (h : ∀ c ∈ cs, c ≠ mark ∧ c ≠ '\\' ∧ c ≠ '\n') (rest : List Char) :
    closeQuote mark ('\\' :: c :: cs ++ rest) =
      (closeQuote mark rest).map (· + ('\\' :: c :: cs).length) := by
  rw [List.cons_append, List.cons_append, closeQuote_escape, closeQuote_plain h, Option.map_map]
  rfl

theorem closeQuote_escape_append (c : Char) (rest : List Char) :
    closeQuote '"' (escape c ++ rest) = (closeQuote '"' rest).map (· + (escape c).length) := by
  unfold escape
  split
  · exact closeQuote_escape _ _ _
  · exact closeQuote_escape _ _ _
  · exact closeQuote_escape _ _ _
  · exact closeQuote_escape _ _ _
  · exact closeQuote_escape _ _ _
  · exact closeQuote_escape _ _ _
  · rename_i h₁ h₂ h₃ _ _ _
    split
    · exact closeQuote_plain (by simpa using ⟨h₁, h₂, h₃⟩) rest
    · have hplain : ∀ d ∈ ['\x7b'] ++ Nat.toDigits 16 c.toNat ++ ['\x7d'],
          d ≠ '"' ∧ d ≠ '\\' ∧ d ≠ '\n' := ?_
      exact closeQuote_escaped 'u' hplain rest
      intro d hd
      rcases List.mem_append.mp hd with hd | hd
      · rcases List.mem_append.mp hd with hd | hd
        · rw [List.mem_singleton.mp hd]
          decide
        · exact toDigits_plain _ d hd
      · rw [List.mem_singleton.mp hd]
        decide

theorem closeQuote_quote (cs rest : List Char) :
    closeQuote '"' (cs.flatMap escape ++ '"' :: rest) =
      some ((cs.flatMap escape).length + 1) := by
  induction cs with
  | nil => rfl
  | cons c cs ih =>
      rw [List.flatMap_cons, List.append_assoc, closeQuote_escape_append, ih]
      simp only [Option.map_some, List.length_append, Option.some.injEq]
      omega

/-- A text that is read as one literal. -/
def IsTag (s : String) : Prop :=
  ∃ kind, (kind = .string ∨ kind = .rawString) ∧ ∀ a rest, Fills rest a s.toList [⟨kind, a, s⟩]

theorem Token.Ends.isTag {t : Token} {rest : List Char} (h : t.Ends rest)
    (hk : t.kind = .string ∨ t.kind = .rawString) : IsTag t.text := by
  refine ⟨t.kind, hk, fun a rest' => ?_⟩
  have hstops : t.Stops rest' := by
    unfold Stops
    rcases hk with hk | hk <;> rw [hk] <;> trivial
  have hends : Ends ⟨t.kind, a, t.text⟩ rest' := h.change (.inr hstops)
  exact Fills.single hends

/-- Quotes for tags that a raw literal cannot hold. -/
def Literal.tagKind (tag : List Char) : TokenKind :=
  if tag.contains '\x60' || tag.contains '\n' then .string else .rawString

theorem Literal.tagKind_eq (tag : List Char) : tagKind tag = .string ∨ tagKind tag = .rawString := by
  unfold tagKind
  split
  · exact .inl rfl
  · exact .inr rfl

/-- A tag is read as one literal. -/
theorem quoteTag_ends (tag : List Char) (a : Nat) (rest : List Char) :
    Ends ⟨Literal.tagKind tag, a, String.ofList (Literal.quoteTag tag)⟩ rest := by
  unfold Literal.quoteTag Literal.tagKind
  split
  · refine ⟨'"', tag.flatMap escape ++ ['"'], String.toList_ofList, rfl, .string rfl ?_⟩
    rw [List.append_assoc, List.singleton_append, closeQuote_quote, List.length_append]
    rfl
  · rename_i h
    have hmark : '\x60' ∉ tag := fun hm => h (by simp [hm])
    refine ⟨'\x60', tag ++ ['\x60'], String.toList_ofList, rfl, .rawString rfl ?_⟩
    rw [List.append_assoc, List.singleton_append, closeRaw_of_not_mem hmark, List.length_append]
    rfl

theorem isTag_quoteTag (tag : List Char) : IsTag (String.ofList (Literal.quoteTag tag)) :=
  ⟨Literal.tagKind tag, Literal.tagKind_eq tag, fun a rest => Fills.single (quoteTag_ends tag a rest)⟩

end StructLayout
